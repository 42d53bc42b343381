import StackVM.Proofs.Machine.Effect

/-!
# Calls and returns taken apart

What a call or a return has found out when it goes through, and why it can fail. A machine that holds no
closure calls plain functions only. Main statements: `calling_eq_ok`, `calling_eq_error`,
`returning_eq_ok` and `returning_eq_error`.
-/

namespace StackVM

namespace Machine

variable {m m' : Machine} {f : Function} {a : Nat} {rest : List Value} {c : Cause} {frame : Frame}
  {callers : List Frame}

/-- The machine calls functions without captures only. -/
def Closureless (m : Machine) : Prop := ∀ a f captures, m.heap.get? a ≠ some (.closure f captures)

/-! ### Calls -/

theorem calling_eq (enough : m.floor + 1 ≤ m.stack.length) (top : m.stack = .ref a :: rest)
    (found : m.heap.get? a = some (.function f)) : m.calling = m.entering f [] a := by
  have need : m.need 1 = .ok () := need_eq_ok.2 enough
  have address : m.addressAt 0 = .ok a := by
    unfold addressAt peek
    rw [top]
    rfl
  unfold calling
  rw [need, address]
  simp only [bind, Except.bind, found]

theorem calling_nothing (enough : m.floor + 1 ≤ m.stack.length) (top : m.stack = .ref a :: rest)
    (nothing : m.heap.get? a = none) : m.calling = .error .segmentationFault := by
  have need : m.need 1 = .ok () := need_eq_ok.2 enough
  have address : m.addressAt 0 = .ok a := by
    unfold addressAt peek
    rw [top]
    rfl
  unfold calling
  rw [need, address]
  simp only [bind, Except.bind, nothing]
  rfl

/-- A function is entered when its arguments fit and there is room for it. -/
theorem entering_eq_ok (top : m.stack = .ref a :: rest) (done : m.entering f [] a = .ok m') :
    m.floor + (f.signature.params.length + 1) ≤ m.stack.length ∧
      (∃ vs, m.readAll f.signature.params.reverse rest = .ok vs) ∧ m' = m.entered f [] a := by
  obtain ⟨_, _, done⟩ := bind_eq_ok done
  obtain ⟨_, arguments, done⟩ := bind_eq_ok done
  obtain ⟨_, _, done⟩ := bind_eq_ok done
  obtain ⟨_, _, done⟩ := bind_eq_ok done
  -- the check of the arguments counts them first and then reads them
  obtain ⟨_, need, arguments⟩ := bind_eq_ok arguments
  obtain ⟨vs, read, -⟩ := bind_eq_ok arguments
  rw [top, List.drop_one, List.tail_cons] at read
  cases done
  exact ⟨need_eq_ok.1 need, ⟨vs, read⟩, rfl⟩

/-- Why a function is not entered. -/
theorem entering_eq_error (top : m.stack = .ref a :: rest) (failed : m.entering f [] a = .error c) :
    (c = .stackUnderflow ∧ m.stack.length < m.floor + (f.signature.params.length + 1)) ∨
      (c = .typeMismatch ∧ ∀ vs, m.readAll f.signature.params.reverse rest ≠ .ok vs) ∨
      c = .frameOverflow ∨ c = .stackOverflow := by
  rcases bind_eq_error failed with refused | ⟨_, _, failed⟩
  -- no captures are always few enough
  · have never := (reject_eq_error refused).2
    cases never
  rcases bind_eq_error failed with arguments | ⟨_, _, failed⟩
  -- too few arguments, or one that cannot be read
  · rcases bind_eq_error arguments with need | ⟨_, _, arguments⟩
    · exact .inl (need_eq_error need)
    · rcases bind_eq_error arguments with read | ⟨_, _, nothing⟩
      · rw [top, List.drop_one, List.tail_cons] at read
        refine .inr (.inl ⟨readAll_eq_error read, fun vs done => ?_⟩)
        rw [read] at done
        cases done
      · cases nothing
  rcases bind_eq_error failed with refused | ⟨_, _, failed⟩
  · exact .inr (.inr (.inl (reject_eq_error refused).1))
  rcases bind_eq_error failed with refused | ⟨_, _, failed⟩
  · exact .inr (.inr (.inr (reject_eq_error refused).1))
  · cases failed

theorem calling_eq_ok (closureless : m.Closureless) (done : m.calling = .ok m') :
    ∃ a f rest, m.stack = .ref a :: rest ∧ m.heap.get? a = some (.function f) ∧
      m.entering f [] a = .ok m' := by
  obtain ⟨_, need, done⟩ := bind_eq_ok done
  obtain ⟨a, address, done⟩ := bind_eq_ok done
  obtain ⟨rest, top⟩ := top_of_addressAt need address
  split at done
  · next f found => exact ⟨a, f, rest, top, found, done⟩
  · next f captures found => exact absurd found (closureless a f captures)
  · cases done
  · cases done

/-- A call fails before the function is entered, or because it is not entered. -/
theorem calling_eq_error (closureless : m.Closureless) (failed : m.calling = .error c) :
    (c = .stackUnderflow ∧ m.stack.length < m.floor + 1) ∨ c = .typeMismatch ∨
      c = .segmentationFault ∨
      ∃ a f rest, m.stack = .ref a :: rest ∧ m.heap.get? a = some (.function f) ∧
        m.entering f [] a = .error c := by
  rcases bind_eq_error failed with need | ⟨_, need, failed⟩
  · exact .inl (need_eq_error need)
  rcases bind_eq_error failed with address | ⟨a, address, failed⟩
  · exact .inr (.inl (addressAt_eq_error address))
  obtain ⟨rest, top⟩ := top_of_addressAt need address
  split at failed
  · next f found => exact .inr (.inr (.inr ⟨a, f, rest, top, found, failed⟩))
  · next f captures found => exact absurd found (closureless a f captures)
  · cases failed
    exact .inr (.inl rfl)
  · cases failed
    exact .inr (.inr (.inl rfl))

/-- The height of the stack in a function that was entered. -/
theorem length_entered (top : m.stack = .ref a :: rest) :
    (m.entered f [] a).stack.length = rest.length + f.locals := by
  simp [entered, top, Nat.add_comm]

/-! ### Returns -/

theorem returning_eq_ok (frames : m.frames = frame :: callers) (done : m.returning = .ok m') :
    m.floor + frame.function.signature.returns.length ≤ m.stack.length ∧
      (∃ vs, m.readAll frame.function.signature.returns.reverse m.stack = .ok vs) ∧
      m' = m.returned frame := by
  unfold returning at done
  rw [frames] at done
  obtain ⟨_, results, done⟩ := bind_eq_ok done
  obtain ⟨_, need, results⟩ := bind_eq_ok results
  obtain ⟨vs, read, -⟩ := bind_eq_ok results
  cases done
  exact ⟨need_eq_ok.1 need, ⟨vs, read⟩, rfl⟩

theorem returning_eq_error (frames : m.frames = frame :: callers) (failed : m.returning = .error c) :
    (c = .stackUnderflow ∧ m.stack.length < m.floor + frame.function.signature.returns.length) ∨
      (c = .typeMismatch ∧
        ∀ vs, m.readAll frame.function.signature.returns.reverse m.stack ≠ .ok vs) := by
  unfold returning at failed
  rw [frames] at failed
  rcases bind_eq_error failed with results | ⟨_, _, failed⟩
  · rcases bind_eq_error results with need | ⟨_, _, results⟩
    · exact .inl (need_eq_error need)
    · rcases bind_eq_error results with read | ⟨_, _, nothing⟩
      · refine .inr ⟨readAll_eq_error read, fun vs done => ?_⟩
        rw [read] at done
        cases done
      · cases nothing
  · cases failed

/-- The height of the stack after a return. -/
theorem length_returned (sunk : frame.base ≤ frame.floor)
    (enough : frame.floor + frame.function.signature.returns.length ≤ m.stack.length) :
    (m.returned frame).stack.length = frame.base + frame.function.signature.returns.length := by
  simp only [returned, List.length_append, List.length_take, List.length_drop]
  omega

/-- Results take the place of everything from the base of the frame on. -/
theorem stack_returned {values below : List Value} {results : Nat}
    (returns : frame.function.signature.returns.length = results)
    (parts : m.stack = values ++ below) (base : below.length = frame.base)
    (enough : results ≤ values.length) :
    (m.returned frame).stack = m.stack.take results ++ below := by
  have length : (m.stack.drop results).length - frame.base = values.length - results := by
    rw [parts, List.length_drop, List.length_append]
    omega
  -- below the surplus lies what lay below the frame
  have rest : (m.stack.drop results).drop (values.length - results) = below := by
    rw [List.drop_drop, parts, show results + (values.length - results) = values.length by omega,
      List.drop_left]
  simp only [returned, returns]
  rw [length, rest]

end Machine

end StackVM
