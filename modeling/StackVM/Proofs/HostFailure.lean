import StackVM.Proofs.Heap.Overrelease
import StackVM.Proofs.Machine.HostCalls
import StackVM.Proofs.ReferenceCounts

/-!
# Counts after a failing call of the host

A host function owns the references that it is passed. Those that it gives back are matched with the
arguments when the call succeeds. When it gives back the wrong number of results, arguments and results are
all released, and a reference that is among both is released twice. Main statement: `host_failure_counts`.
The counts of a callback that fails are right, and those of a wrong number of results are right if nothing
that is given back is held any more (`dropped_counts`); a string that is given back while the constants hold
it is freed (`echoed_freed`).
-/

namespace StackVM

namespace Machine

/-- Every count is the number of holders. -/
def Counted (m : Machine) : Prop := ∀ a, 0 < a → m.heap.refcount a = m.holders a

/-- The machine once a callback that left it alone has failed: the function and the arguments are given
up. -/
def givenUp (m : Machine) (signature : Signature) (callee : Nat) : Machine :=
  ((m.handed signature).release (.ref callee)).releaseAll (m.arguments signature)

variable {m : Machine} {signature : Signature} {body : List Value → Script} {callee : Nat}
  {nested : Exec Unit}

/-! ### Giving up what was passed -/

theorem counted_iff : m.Counted ↔ m.heap.Exact m.references := by
  constructor
  · intro counted a pos
    rw [counted a pos, count_references m pos, holders]
  · intro exact a pos
    rw [exact a pos, count_references m pos, holders]

theorem counted_iff_below :
    m.Counted ↔ (∀ a < m.heap.counts.size, 0 < a → m.heap.refcount a = m.holders a) ∧
      ∀ a ∈ m.references ++ m.heap.inner, a < m.heap.counts.size ∨ a = 0 := by
  rw [counted_iff, Heap.exact_iff_below]
  apply and_congr_left'
  have same : ∀ a, 0 < a → m.references.count a + m.heap.inner.count a = m.holders a := by
    intro a pos
    rw [count_references m pos, holders]
  constructor
  · intro exact a below pos
    rw [exact a below pos, same a pos]
  · intro counted a below pos
    rw [counted a below pos, same a pos]

instance (m : Machine) : Decidable m.Counted := decidable_of_iff _ counted_iff_below.symm

theorem references_givenUp : (m.givenUp signature callee).references = (m.handed signature).references := rfl

/-- The top of the stack is the function, and below it lie the arguments. -/
theorem HostCall.held_eq (calls : m.HostCall signature body callee) (a : Nat) :
    m.held a =
      [Value.ref callee].count (.ref a) + (m.arguments signature).count (.ref a) +
        (m.handed signature).held a := by
  have stack := congrArg (List.count (Value.ref a)) calls.stack_eq
  rw [List.count_cons, List.count_append, List.count_reverse] at stack
  simp only [handed, dropped] at stack
  simp only [held, handed, dropped, List.count_singleton, stack]
  omega

theorem HostCall.counted_givenUp (calls : m.HostCall signature body callee) (counted : m.Counted) :
    (m.givenUp signature callee).Counted := by
  have exact : m.heap.Exact (Value.addresses [.ref callee] ++
      (Value.addresses (m.arguments signature) ++ (m.handed signature).references)) := by
    refine (counted_iff.1 counted).congr fun a pos => ?_
    rw [count_references m pos, calls.held_eq a]
    simp only [List.count_append, count_references _ pos, Value.count_addresses pos]
    omega
  rw [counted_iff, references_givenUp]
  have released := exact.releaseAll
  rw [← Heap.releaseValue_eq] at released
  exact released.releaseValues

theorem get?_of_givenUp {a : Nat} {o : Object}
    (survives : (m.givenUp signature callee).heap.get? a = some o) : m.heap.get? a = some o := by
  have released := Heap.get?_of_releaseValues (h := m.heap.release callee) survives
  exact Heap.get?_of_releaseAll released

/-- Results of the wrong number are released on top of the arguments. -/
theorem HostCall.call_mismatched (calls : m.HostCall signature body callee) {results : List Value}
    (answered : Exec.perform nested (body (m.arguments signature)) (m.handed signature) =
      .ok results (m.handed signature))
    (wrong : results.length ≠ signature.returns.length) :
    Exec.call nested m =
      .error (.fault Cause.typeMismatch) ((m.givenUp signature callee).releaseAll results) := by
  have both : (m.givenUp signature callee).releaseAll results =
      ((m.handed signature).release (.ref callee)).releaseAll (m.arguments signature ++ results) := by
    simp only [givenUp, releaseAll, Heap.releaseValues, List.foldl_append]
  rw [calls.call_eq, answered, both]
  simp only [Exec.settle, wrong, if_false]
  rfl

theorem counted_releaseAll {vs : List Value} (counted : m.Counted)
    (idle : ∀ a, 0 < a → .ref a ∈ vs → m.holders a = 0) : (m.releaseAll vs).Counted := by
  have same : m.heap.releaseValues vs = m.heap := by
    rw [Heap.releaseValues_eq]
    refine Heap.releaseAll_uncounted fun a mem pos => ?_
    rw [counted a pos]
    exact idle a pos (Value.ref_of_mem_addresses mem)
  unfold releaseAll
  rwa [same]

theorem short_iff_holders {a : Nat} (pos : 0 < a) {vs : List Value} :
    (m.releaseAll vs).heap.refcount a < (m.releaseAll vs).holders a ↔
      (m.heap.releaseAll (Value.addresses vs)).refcount a <
        m.references.count a + (m.heap.releaseAll (Value.addresses vs)).inner.count a := by
  rw [← Heap.releaseValues_eq, count_references m pos]
  rfl

/-- Surplus releases of what is held outside the heap leave counts short. -/
theorem short_of_held {a : Nat} {vs : List Value} (counted : m.Counted) (pos : 0 < a)
    (surplus : .ref a ∈ vs) (held : 0 < m.held a) :
    (m.releaseAll vs).heap.refcount a < (m.releaseAll vs).holders a := by
  rw [← count_references m pos, List.count_pos_iff] at held
  exact (short_iff_holders pos).2
    ((counted_iff.1 counted).short_of_held pos (Value.mem_addresses pos surplus) held)

/-- Without cycles of references, surplus releases of whatever has a holder leave some count short. -/
theorem holders_of_counted {vs : List Value} (counted : m.Counted) (wf : m.heap.WellFormed)
    (acyclic : m.heap.Acyclic) (still : (m.releaseAll vs).Counted) {a : Nat} (pos : 0 < a)
    (surplus : .ref a ∈ vs) : m.holders a = 0 := by
  by_contra held
  have exact := counted_iff.1 counted
  have live : (m.heap.get? a).isSome := by
    rw [wf.live, counted a pos]
    omega
  obtain ⟨b, pos', short⟩ := exact.short_of_reached wf.null.2 pos (Value.mem_addresses pos surplus)
    (exact.reached wf acyclic live)
  have short := (short_iff_holders pos').2 short
  have right := still b pos'
  omega

/-- What a failing call of a host function does to the counts, if its callback leaves the machine alone.
If the callback fails, all counts are right again. If it gives back the wrong number of results, the
arguments are given up and then the results too: the counts are right if nothing that is given back has a
holder left once the arguments are given up, and, without cycles of references, only then. Whatever is
given back while a place outside the heap holds it, be it a constant or a global, is counted less often
than it is held. -/
theorem host_failure_counts (calls : m.HostCall signature body callee) (counted : m.Counted)
    (wf : m.heap.WellFormed) (nested : Exec Unit) :
    (∀ stop, Exec.perform nested (body (m.arguments signature)) (m.handed signature) =
        .error stop (m.handed signature) →
      ∃ m', Exec.call nested m = .error stop m' ∧ m'.Counted) ∧
    ∀ results, Exec.perform nested (body (m.arguments signature)) (m.handed signature) =
        .ok results (m.handed signature) →
      results.length ≠ signature.returns.length →
      ∃ m', Exec.call nested m = .error (.fault Cause.typeMismatch) m' ∧
        ((∀ a, 0 < a → .ref a ∈ results → (m.givenUp signature callee).holders a = 0) → m'.Counted) ∧
        (m.heap.Acyclic → m'.Counted →
          ∀ a, 0 < a → .ref a ∈ results → (m.givenUp signature callee).holders a = 0) ∧
        ∀ a, 0 < a → .ref a ∈ results → 0 < (m.givenUp signature callee).held a →
          m'.heap.refcount a < m'.holders a := by
  have right := calls.counted_givenUp counted
  constructor
  · intro stop failed
    refine ⟨m.givenUp signature callee, ?_, right⟩
    rw [calls.call_eq, failed]
    rfl
  · intro results answered wrong
    refine ⟨_, calls.call_mismatched answered wrong, counted_releaseAll right, ?_, ?_⟩
    · intro acyclic still a pos echoed
      have wf' : (m.givenUp signature callee).heap.WellFormed :=
        Heap.WellFormed.releaseValues (h := m.heap.release callee) (wf.releaseAll _) _
      have acyclic' : (m.givenUp signature callee).heap.Acyclic :=
        acyclic.mono fun _ _ => get?_of_givenUp
      exact holders_of_counted right wf' acyclic' still pos echoed
    · intro a pos echoed held
      exact short_of_held right pos echoed held

/-- A program that passes a string to a function of the host. -/
def passing (returns : List Ty) (body : List Value → Script) : Program where
  code := Instruction.assemble [⟨.constGet, [1]⟩, ⟨.constGet, [0]⟩, ⟨.call, []⟩]
  constants := #[.host ⟨[.string], returns⟩ body, .string "s"]
  types := #[]

/-- The machine at the call, two turns into its run. -/
def passed (returns : List Ty) (body : List Value → Script) : Machine where
  program := passing returns body
  options := {}
  stack := [.ref 1, .ref 2]
  frames := [⟨(passing returns body).entry, 6, 0, 0, 0⟩]
  globals := .empty
  constants := #[.ref 1, .ref 2]
  heap := ⟨#[none, some (.host ⟨[.string], returns⟩ body), some (.string "s")], #[0, 2, 2], []⟩

theorem hostCall_passed (returns : List Ty) (body : List Value → Script) (few : returns.length ≤ 1) :
    (passed returns body).HostCall ⟨[.string], returns⟩ body 1 where
  top := rfl
  found := rfl
  arguments := rfl
  room := by
    change 0 + returns.length ≤ 1024
    omega

theorem wellFormed_passed (returns : List Ty) (body : List Value → Script) :
    (passed returns body).heap.WellFormed := by
  have loaded := (Heap.wellFormed_empty.alloc (.host ⟨[.string], returns⟩ body)).alloc (.string "s")
  have string := loaded.retain (a := 2) fun _ => Nat.one_pos
  exact string.retain (a := 1) fun _ => Nat.one_pos

/-- A function of the host that gives nothing back where a number is due. -/
theorem dropped_counts :
    ∃ m', Exec.call (Exec.run 0) (passed [.i32] fun _ => .finish []) =
      .error (.fault Cause.typeMismatch) m' ∧ m'.Counted := by
  have failing := (host_failure_counts (hostCall_passed [.i32] (fun _ => .finish []) (by decide))
    (by decide +kernel) (wellFormed_passed _ _) (Exec.run 0)).2
  obtain ⟨m', called, counted, -⟩ := failing [] rfl (by decide)
  refine ⟨m', called, counted fun a pos echoed => ?_⟩
  cases echoed

/-- A function of the host that gives its argument back where no result is due. The string is freed though
it is a constant. -/
theorem echoed_freed :
    (passed [] .finish).Counted ∧
      Exec.perform (Exec.run 0) (.finish ((passed [] .finish).arguments ⟨[.string], []⟩))
        ((passed [] .finish).handed ⟨[.string], []⟩) =
        .ok [.ref 2] ((passed [] .finish).handed ⟨[.string], []⟩) ∧
      ∃ m', Exec.call (Exec.run 0) (passed [] .finish) = .error (.fault Cause.typeMismatch) m' ∧
        ¬m'.Counted ∧ m'.constants[1]? = some (.ref 2) ∧ m'.heap.get? 2 = none := by
  have counted : (passed [] .finish).Counted := by decide +kernel
  have calls := hostCall_passed [] .finish (by decide)
  have answered : Exec.perform (Exec.run 0) (.finish ((passed [] .finish).arguments ⟨[.string], []⟩))
      ((passed [] .finish).handed ⟨[.string], []⟩) =
      .ok [.ref 2] ((passed [] .finish).handed ⟨[.string], []⟩) := rfl
  refine ⟨counted, answered, _, calls.call_mismatched answered (by decide), ?_, rfl, ?_⟩
  · intro still
    have echoed : Value.ref 2 ∈ [Value.ref 2] := by decide
    have short := short_of_held (calls.counted_givenUp counted) (by decide) echoed (by decide +kernel)
    have right := still 2 (by decide)
    omega
  -- the function stays, and both references to the string are given up
  · change (((passed [] .finish).heap.releaseAll [1]).releaseAll [2] |>.releaseAll [2]).get? 2 = none
    rw [← Heap.releaseAll_append, ← Heap.releaseAll_append, List.singleton_append, List.cons_append,
      Heap.releaseAll_lowered (by decide) (show _ = 0 + 2 from rfl),
      Heap.releaseAll_lowered (by decide) (show _ = 0 + 2 from rfl), List.nil_append,
      Heap.releaseAll_freed (by decide) rfl]
    -- a string holds nothing
    change (Heap.releaseAll _ []).get? 2 = none
    rw [Heap.releaseAll]
    rfl

end Machine

end StackVM
