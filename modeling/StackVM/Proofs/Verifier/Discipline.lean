import Mathlib.Data.List.Perm.Basic
import StackVM.Verifier

/-!
# Searching in another order

A discipline decides, from all that a search knows, which of the pending visits is made next. The search
of the verifier takes them in the order in which they were found (`Search.run_eq_runBy`). Under every
discipline a search ends, since moving a visit ahead of others makes none pending that was not.
-/

namespace StackVM

namespace Verifier

/-- Picks the place, among the pending visits, of the one that is made next. -/
abbrev Discipline := Search → Nat

/-- The visit that was found first. -/
def Discipline.first : Discipline := fun _ => 0

/-- The visit that was found last. -/
def Discipline.last : Discipline := fun s => s.pending.length - 1

namespace Search

/-- The search with the pending visit at place `i`, if there is one, ahead of all others. -/
def advanced (s : Search) (i : Nat) : Search :=
  match s.pending[i]? with
  | some v => { s with pending := v :: s.pending.eraseIdx i }
  | none => s

/-- Makes the visit that the discipline picks; `none` if there is none. -/
def stepBy (d : Discipline) (c : Scope) (g : Graph) (s : Search) : Except Failure (Option Search) :=
  (s.advanced (d s)).step c g

theorem advanced_eq (s : Search) (i : Nat) :
    s.advanced i = { s with pending := (s.advanced i).pending } := by
  unfold advanced
  split
  · rfl
  · rfl

theorem pending_advanced (s : Search) (i : Nat) : (s.advanced i).pending.Perm s.pending := by
  unfold advanced
  split
  · next v found =>
    obtain ⟨inside, rfl⟩ := List.getElem?_eq_some_iff.1 found
    exact List.getElem_cons_eraseIdx_perm inside
  · exact .refl _

/-- The visit that was found first is ahead of all others as it is. -/
theorem stepBy_first {c : Scope} {g : Graph} {s : Search} : s.stepBy .first c g = s.step c g := by
  have same : s.advanced 0 = s := by
    unfold advanced
    obtain ⟨seen, pending, exits, globals⟩ := s
    cases pending with
    | nil => rfl
    | cons v rest => rfl
  simp only [stepBy, Discipline.first, same]

end Search

namespace Bounds

variable {b : Bounds} {c : Scope} {g : Graph} {d : Discipline} {s s' : Search}

theorem contains_advanced (contains : b.Contains s) (i : Nat) : b.Contains (s.advanced i) := by
  intro v mem
  rw [s.advanced_eq i]
  exact contains v ((s.pending_advanced i).mem_iff.1 mem)

theorem stepBy_decreases (contains : b.Contains s) (stepped : s.stepBy d c g = .ok (some s')) :
    Prod.Lex (· < ·) (· < ·) (b.unseen g s', s'.pending.length) (b.unseen g s, s.pending.length) := by
  have decreases := b.step_decreases (b.contains_advanced contains (d s)) stepped
  rwa [(s.pending_advanced (d s)).length_eq, s.advanced_eq (d s)] at decreases

end Bounds

/-- Makes all visits, each time the one that the discipline picks. -/
def Search.runBy (d : Discipline) (c : Scope) (g : Graph) (b : Bounds) (covers : b.Covers c)
    (names : b.Names g) (s : Search) (contains : b.Contains s) : Except Failure Search :=
  match h : s.stepBy d c g with
  | .error failure => .error failure
  | .ok none => .ok s
  | .ok (some s') =>
    s'.runBy d c g b covers names
      (b.contains_step covers names (b.contains_advanced contains (d s)) h)
termination_by (b.unseen g s, s.pending.length)
decreasing_by exact b.stepBy_decreases contains h

namespace Search

variable {c : Scope} {g : Graph} {d : Discipline} {s s' : Search} {b : Bounds} {covers : b.Covers c}
  {names : b.Names g} {contains : b.Contains s}

/-- A search ends only when nothing is pending. -/
theorem pending_of_step (ended : s.step c g = .ok none) : s.pending = [] := by
  unfold Search.step at ended
  split at ended
  · assumption
  · split at ended
    · cases ended
    · split at ended
      · cases ended
      · split at ended
        · cases ended
        · cases ended

theorem pending_of_stepBy (ended : s.stepBy d c g = .ok none) : s.pending = [] := by
  have idle := pending_of_step ended
  exact List.length_eq_zero_iff.1 (by rw [← (s.pending_advanced (d s)).length_eq, idle]; rfl)

/-- What every step preserves holds at the end of a search, be it that nothing is pending or that a step
fails. -/
theorem runBy_invariant {P : Search → Prop} (steps : ∀ s s', P s → s.stepBy d c g = .ok (some s') → P s')
    (holds : P s) :
    (∀ s', s.runBy d c g b covers names contains = .ok s' → P s' ∧ s'.pending = []) ∧
      ∀ failure, s.runBy d c g b covers names contains = .error failure →
        ∃ s', P s' ∧ s'.stepBy d c g = .error failure := by
  fun_induction Search.runBy d c g b covers names s contains with
  | case1 s contains failure failed =>
    constructor
    · intro s' ran
      cases ran
    · intro failure' ran
      cases ran
      exact ⟨s, holds, failed⟩
  | case2 s contains ended =>
    constructor
    · intro s' ran
      cases ran
      exact ⟨holds, pending_of_stepBy ended⟩
    · intro failure ran
      cases ran
  | case3 s contains next stepped ih => exact ih (steps _ _ holds stepped)

theorem runBy_eq_error {failure : Failure} (failed : s.stepBy d c g = .error failure) :
    s.runBy d c g b covers names contains = .error failure := by
  unfold Search.runBy
  split <;> simp_all

theorem runBy_eq_ok (ended : s.stepBy d c g = .ok none) :
    s.runBy d c g b covers names contains = .ok s := by
  unfold Search.runBy
  split <;> simp_all

theorem runBy_eq_next {contains' : b.Contains s'} (stepped : s.stepBy d c g = .ok (some s')) :
    s.runBy d c g b covers names contains = s'.runBy d c g b covers names contains' := by
  conv => lhs; unfold Search.runBy
  split <;> simp_all

/-- The search of the verifier is the one that takes visits in the order in which they were found. -/
theorem run_eq_runBy : s.run c g b covers names contains = s.runBy .first c g b covers names contains := by
  fun_induction Search.run c g b covers names s contains with
  | case1 s contains failure failed => exact (runBy_eq_error (stepBy_first.trans failed)).symm
  | case2 s contains ended => exact (runBy_eq_ok (stepBy_first.trans ended)).symm
  | case3 s contains next stepped ih => exact ih.trans (runBy_eq_next (stepBy_first.trans stepped)).symm

/-- The end of a search, if it takes fewer than `n` steps. -/
def endBy (d : Discipline) (c : Scope) (g : Graph) : Nat → Search → Option (Except Failure Search)
  | 0, _ => none
  | n + 1, s =>
    match s.stepBy d c g with
    | .error failure => some (.error failure)
    | .ok none => some (.ok s)
    | .ok (some s') => s'.endBy d c g n

theorem runBy_of_endBy {n : Nat} {result : Except Failure Search} (ended : s.endBy d c g n = some result) :
    s.runBy d c g b covers names contains = result := by
  induction n generalizing s with
  | zero => cases ended
  | succ n ih =>
    rw [endBy] at ended
    -- one step of the run for one of the counted steps
    split at ended
    · next failure failed =>
      cases ended
      exact runBy_eq_error failed
    · next idle =>
      cases ended
      exact runBy_eq_ok idle
    · next s' stepped =>
      have inside := b.contains_step covers names (b.contains_advanced contains (d s)) stepped
      have rest : s'.runBy d c g b covers names inside = result := ih ended
      exact (runBy_eq_next stepped).trans rest

end Search

/-! ### Checking in another order -/

/-- The search through a function in the order of a discipline, carried to its end. -/
def Scope.searchBy (d : Discipline) (c : Scope) (g : Graph) (globals : Table Ty) : Except Failure Search :=
  (Search.start c globals).runBy d c g (.around c g globals) Bounds.around_covers Bounds.around_names
    Bounds.around_contains

theorem search_eq_searchBy {c : Scope} {g : Graph} {globals : Table Ty} :
    c.search g globals = c.searchBy .first g globals := Search.run_eq_runBy

/-- Checks one function as `check` does, but for the way in which its paths are searched. -/
def checkWith (search : Scope → Graph → Table Ty → Except Failure Search) (f : Function) :
    Check (List (List Ty)) := do
  let v ← get
  let c : Scope := ⟨v.program, f, v.maxStack⟩
  match Graph.build f.code with
  | .error e => throw e
  | .ok g =>
    if g.blocks.isEmpty then
      match c.checkResults c.floor c.entryStack with
      | .ok () => return [c.entryStack.reverse]
      | .error cause => throw (Error.atOffset cause 0)
    else
      match search c g v.globals with
      | .ok s =>
        set { v with globals := s.globals }
        return s.exits.map List.reverse
      | .error failure =>
        set { v with globals := failure.globals }
        throw failure.error

/-- Checks one function, with its paths searched in the order of a discipline. -/
def checkBy (d : Discipline) (f : Function) : Check (List (List Ty)) := checkWith (Scope.searchBy d) f

/-- The check of the verifier takes visits in the order in which they were found. -/
theorem check_eq_checkBy (f : Function) : check f = checkBy .first f := by
  have same : Scope.search = Scope.searchBy .first := by
    funext c g globals
    exact search_eq_searchBy
  change checkWith Scope.search f = checkWith (Scope.searchBy .first) f
  rw [same]

theorem Check.get_bind {α : Type} (f : Verifier → Check α) (v : Verifier) : (get >>= f) v = f v v := rfl

/-- Code without a graph is not searched. -/
theorem check_of_error {f : Function} {e : Error} (v : Verifier) (failed : Graph.build f.code = .error e) :
    check f v = .error e v := by
  unfold check
  rw [Check.get_bind]
  simp only [failed]
  rfl

/-- How a check of code that has blocks ends, after its search. -/
def conclude (v : Verifier) : Except Failure Search → EStateM.Result Error Verifier (List (List Ty))
  | .ok s => .ok (s.exits.map List.reverse) { v with globals := s.globals }
  | .error failure => .error failure.error { v with globals := failure.globals }

/-- A check of code that has blocks ends as its search does. -/
theorem checkWith_eq {search : Scope → Graph → Table Ty → Except Failure Search} {f : Function} {g : Graph}
    (v : Verifier) (built : Graph.build f.code = .ok g) (filled : g.blocks.isEmpty = false) :
    checkWith search f v = v.conclude (search ⟨v.program, f, v.maxStack⟩ g v.globals) := by
  unfold checkWith
  rw [Check.get_bind]
  simp only [built, filled]
  cases search ⟨v.program, f, v.maxStack⟩ g v.globals with
  | ok s => rfl
  | error failure => rfl

/-- How a check ends whose search takes fewer than `n` steps. -/
theorem checkBy_of_endBy {d : Discipline} {n : Nat} {f : Function} {g : Graph}
    {ended : Except Failure Search} (v : Verifier) (built : Graph.build f.code = .ok g)
    (filled : g.blocks.isEmpty = false)
    (counted : (Search.start ⟨v.program, f, v.maxStack⟩ v.globals).endBy d ⟨v.program, f, v.maxStack⟩ g n =
      some ended) :
    checkBy d f v = v.conclude ended := by
  have searched : Scope.searchBy d ⟨v.program, f, v.maxStack⟩ g v.globals = ended :=
    Search.runBy_of_endBy counted
  rw [checkBy, checkWith_eq v built filled, searched]

end Verifier

end StackVM
