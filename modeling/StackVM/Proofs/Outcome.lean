/-!
# Computations that may fail

What is known of the parts of a computation from the outcome of the whole.
-/

namespace StackVM

variable {ε α β : Type} {x : Except ε α} {f : α → Except ε β}

theorem bind_eq_ok {b : β} (done : x >>= f = .ok b) : ∃ a, x = .ok a ∧ f a = .ok b := by
  cases x with
  | error e => cases done
  | ok a => exact ⟨a, rfl, done⟩

theorem bind_eq_error {e : ε} (failed : x >>= f = .error e) :
    x = .error e ∨ ∃ a, x = .ok a ∧ f a = .error e := by
  cases x with
  | error e' =>
    cases failed
    exact .inl rfl
  | ok a => exact .inr ⟨a, rfl, failed⟩

theorem mapM_eq_ok_cons {a : α} {as : List α} {bs : List β} (done : (a :: as).mapM f = .ok bs) :
    ∃ b rest, bs = b :: rest ∧ f a = .ok b ∧ as.mapM f = .ok rest := by
  rw [List.mapM_cons] at done
  obtain ⟨b, first, done⟩ := bind_eq_ok done
  obtain ⟨rest, others, done⟩ := bind_eq_ok done
  cases done
  exact ⟨b, rest, rfl, first, others⟩

theorem mapM_eq_error {as : List α} {e : ε} (failed : as.mapM f = .error e) :
    ∃ a ∈ as, f a = .error e := by
  induction as with
  | nil => cases failed
  | cons a as ih =>
    rw [List.mapM_cons] at failed
    rcases bind_eq_error failed with failed | ⟨b, -, failed⟩
    · exact ⟨a, List.mem_cons_self, failed⟩
    · rcases bind_eq_error failed with failed | ⟨rest, -, failed⟩
      · obtain ⟨a', mem, failed⟩ := ih failed
        exact ⟨a', List.mem_cons_of_mem _ mem, failed⟩
      · cases failed

theorem mapM_eq_none {f : α → Option β} {as : List α} (missing : as.mapM f = none) :
    ∃ a ∈ as, f a = none := by
  induction as with
  | nil => cases missing
  | cons a as ih =>
    cases first : f a with
    | none => exact ⟨a, List.mem_cons_self, first⟩
    | some b =>
      cases others : as.mapM f with
      | none =>
        obtain ⟨a', mem, none⟩ := ih others
        exact ⟨a', List.mem_cons_of_mem _ mem, none⟩
      | some bs => simp [first, others] at missing

end StackVM
