import StackVM.Proofs.HostFailure

/-!
# Results of the host

A host function owns the references that it is passed, and an argument that it gives back passes on its
reference. Each result stands for one argument at most: results and arguments are matched one for one, the
first argument first, and what is not matched is released. Main statement: if the callback leaves the machine
alone, an address is released as often as it occurs more often among the arguments than among the results
(`host_results_taken`). So the counts stay exact exactly if no reference is given back more often than it was
passed.
-/

namespace StackVM

namespace Machine

/-! ### Arguments that are not given back -/

/-- Matching arguments with results takes from each reference as many as there are results that are it. -/
theorem count_notReturned (arguments results : List Value) (a : Nat) :
    (notReturned arguments results).count (.ref a) = arguments.count (.ref a) - results.count (.ref a) := by
  have reference : Value.isRef (.ref a) = true := rfl
  rw [notReturned, ← List.diff_eq_foldl, List.count_diff, List.count_filter reference]

/-- Releasing values is releasing the addresses of those that are references, null included. -/
theorem releaseValues_foldl (vs : List Value) :
    ∃ as : List Nat, (∀ a, as.count a = vs.count (.ref a)) ∧
      ∀ h : Heap, h.releaseValues vs = as.foldl Heap.release h := by
  induction vs with
  | nil =>
    refine ⟨[], ?_, fun h => rfl⟩
    intro a
    rfl
  | cons v vs ih =>
    obtain ⟨as, counts, released⟩ := ih
    cases v with
    | ref b =>
      refine ⟨b :: as, ?_, fun h => released (h.release b)⟩
      intro a
      simp [List.count_cons, counts a]
    -- numbers are passed over
    | _ =>
      refine ⟨as, ?_, released⟩
      intro a
      simp [counts a]

variable {m : Machine} {signature : Signature} {body : List Value → Script} {callee : Nat}
  {results : List Value} {nested : Exec Unit}

/-! ### Taking over the results -/

/-- The machine once a callback that left it alone has given back its results: the function and the arguments
that are not among the results are given up, in this order. -/
def settled (m : Machine) (signature : Signature) (callee : Nat) (results : List Value) : Machine :=
  { m with
    stack := results.reverse ++ (m.handed signature).stack
    heap := m.heap.releaseValues (.ref callee :: notReturned (m.arguments signature) results) }

theorem HostCall.call_settled (calls : m.HostCall signature body callee)
    (answered : Exec.perform nested (body (m.arguments signature)) (m.handed signature) =
      .ok results (m.handed signature))
    (due : results.length = signature.returns.length) :
    Exec.call nested m = .ok () (m.settled signature callee results) := by
  rw [calls.call_eq, answered]
  simp only [Exec.settle, due, if_true]
  rfl

/-- What the call gives up and what it leaves makes up for what was held before, but for results that are
no arguments. -/
theorem HostCall.held_settled (calls : m.HostCall signature body callee) (results : List Value) (a : Nat) :
    m.held a + (results.count (.ref a) - (m.arguments signature).count (.ref a)) =
      (Value.ref callee :: notReturned (m.arguments signature) results).count (.ref a) +
        (m.settled signature callee results).held a := by
  have before := calls.held_eq a
  have matched := count_notReturned (m.arguments signature) results a
  have after : (m.settled signature callee results).held a =
      results.count (.ref a) + (m.handed signature).held a := by
    simp only [held, settled, List.count_append, List.count_reverse, handed, dropped]
    omega
  have given : (Value.ref callee :: notReturned (m.arguments signature) results).count (.ref a) =
      [Value.ref callee].count (.ref a) +
        (notReturned (m.arguments signature) results).count (.ref a) := by
    rw [← List.singleton_append, List.count_append]
  rw [before, after, given, matched]
  omega

/-- The counts are exact after the call exactly if no reference was given back more often than passed. -/
theorem HostCall.counted_settled_iff (calls : m.HostCall signature body callee) (counted : m.Counted) :
    (m.settled signature callee results).Counted ↔
      ∀ a, 0 < a → results.count (.ref a) ≤ (m.arguments signature).count (.ref a) := by
  have heap : (m.settled signature callee results).heap = m.heap.releaseAll
      (Value.addresses (.ref callee :: notReturned (m.arguments signature) results)) :=
    Heap.releaseValues_eq _ _
  constructor
  · intro still a pos
    by_contra more
    -- a result that was no argument is counted less often than it is held
    have owned := calls.held_settled results a
    have before := counted a pos
    have after := still a pos
    have outside := count_references (m.settled signature callee results) pos
    have kept : results.count (.ref a) ≤ (m.settled signature callee results).held a := by
      simp only [held, settled, List.count_append, List.count_reverse]
      omega
    have short : (m.settled signature callee results).heap.refcount a +
          (results.count (.ref a) - (m.arguments signature).count (.ref a)) ≤
        (m.settled signature callee results).references.count a +
          (m.settled signature callee results).heap.inner.count a := by
      rw [heap]
      apply Heap.short_releaseAll pos
      · right
        omega
      · rw [before, holders, outside, Value.count_addresses pos]
        omega
    rw [after, holders] at short
    omega
  · intro fewer
    have exact : m.heap.Exact
        (Value.addresses (.ref callee :: notReturned (m.arguments signature) results) ++
          (m.settled signature callee results).references) := by
      apply (counted_iff.1 counted).congr
      intro a pos
      have owned := calls.held_settled results a
      have none_more := fewer a pos
      rw [List.count_append, Value.count_addresses pos, count_references m pos, count_references _ pos]
      omega
    rw [counted_iff, heap]
    exact exact.releaseAll

/-- A call of a host function whose callback leaves the machine alone and gives back as many results as are
due. The function and the arguments go from the stack, the results come in their place, the last one on top,
and the rest of the stack stays. The function is released once, and every address as often as it occurs more
often among the arguments than among the results. Nothing else changes. Counts that were exact stay exact
exactly if no reference was given back more often than it was passed. -/
theorem host_results_taken (calls : m.HostCall signature body callee)
    (answered : Exec.perform nested (body (m.arguments signature)) (m.handed signature) =
      .ok results (m.handed signature))
    (due : results.length = signature.returns.length) :
    ∃ (rest : List Value) (released : List Nat) (m' : Machine),
      (m.stack = .ref callee :: ((m.arguments signature).reverse ++ rest) ∧
        (m.arguments signature).length = signature.params.length) ∧
      (∀ a, released.count a =
        (m.arguments signature).count (.ref a) - results.count (.ref a)) ∧
      Exec.call nested m = .ok () m' ∧
      m' = { m with
        stack := results.reverse ++ rest
        heap := (callee :: released).foldl Heap.release m.heap } ∧
      (m.Counted →
        (m'.Counted ↔ ∀ a, 0 < a → results.count (.ref a) ≤ (m.arguments signature).count (.ref a))) := by
  obtain ⟨released, counts, same⟩ := releaseValues_foldl (notReturned (m.arguments signature) results)
  have enough := calls.enough
  refine ⟨(m.handed signature).stack, released, m.settled signature callee results, ⟨calls.stack_eq, ?_⟩, ?_,
    calls.call_settled answered due, ?_, calls.counted_settled_iff⟩
  · simp only [Machine.arguments, List.length_reverse, List.length_take, List.length_drop]
    omega
  · intro a
    rw [counts a, count_notReturned]
  · rw [List.foldl_cons, ← same (m.heap.release callee)]
    rfl

/-- A program that passes a string twice, a function of the host itself and null to that function. -/
def echo (body : List Value → Script) : Program where
  code := Instruction.assemble
    [⟨.constGet, [1]⟩, ⟨.constGet, [1]⟩, ⟨.constGet, [0]⟩, ⟨.refNull, []⟩, ⟨.constGet, [0]⟩, ⟨.call, []⟩]
  constants := #[.host ⟨[.ref, .ref, .ref, .ref], [.ref, .ref]⟩ body, .string "s"]
  types := #[]

/-- The machine at the call, with the function on top of its arguments. -/
def echoing (body : List Value → Script) : Machine where
  program := echo body
  options := {}
  stack := [.ref 1, .null, .ref 1, .ref 2, .ref 2]
  frames := [⟨(echo body).entry, 13, 0, 0, 0⟩]
  globals := .empty
  constants := #[.ref 1, .ref 2]
  heap := ⟨#[none, some (.host ⟨[.ref, .ref, .ref, .ref], [.ref, .ref]⟩ body), some (.string "s")],
    #[0, 3, 3], []⟩

/-- Gives back the third argument and then the first. -/
def thirdAndFirst : List Value → Script
  | [first, _, third, _] => .finish [third, first]
  | _ => .finish []

/-- The function and one of the two strings come back, the other string and null are released. -/
theorem echoing_taken :
    ∃ released m', (∀ a, released.count a = if a = 0 ∨ a = 2 then 1 else 0) ∧
      Exec.call (Exec.run 0) (echoing thirdAndFirst) = .ok () m' ∧
      m'.stack = [.ref 2, .ref 1] ∧
      m'.heap = (1 :: released).foldl Heap.release (echoing thirdAndFirst).heap ∧ m'.Counted := by
  have calls : (echoing thirdAndFirst).HostCall ⟨[.ref, .ref, .ref, .ref], [.ref, .ref]⟩ thirdAndFirst 1 :=
    ⟨rfl, rfl, rfl, by decide⟩
  have counted : (echoing thirdAndFirst).Counted := by decide +kernel
  have passed : (echoing thirdAndFirst).arguments ⟨[.ref, .ref, .ref, .ref], [.ref, .ref]⟩ =
      [.ref 2, .ref 2, .ref 1, .ref 0] := rfl
  have answered : Exec.perform (Exec.run 0) (thirdAndFirst [.ref 2, .ref 2, .ref 1, .ref 0])
      ((echoing thirdAndFirst).handed ⟨[.ref, .ref, .ref, .ref], [.ref, .ref]⟩) =
        .ok [.ref 1, .ref 2] ((echoing thirdAndFirst).handed ⟨[.ref, .ref, .ref, .ref], [.ref, .ref]⟩) := rfl
  obtain ⟨rest, released, m', ⟨stack, -⟩, counts, called, rfl, exact⟩ :=
    host_results_taken calls answered rfl
  obtain rfl : rest = [] := by simpa [echoing, Machine.arguments] using stack
  rw [passed] at counts exact
  refine ⟨released, _, ?_, called, rfl, rfl, (exact counted).2 ?_⟩
  · intro a
    have once := counts a
    simp only [List.count_cons, List.count_nil, beq_iff_eq, Value.ref.injEq] at once
    split_ifs at once ⊢ <;> omega
  · intro a _
    simp only [List.count_cons, List.count_nil, beq_iff_eq, Value.ref.injEq]
    split_ifs <;> omega

end Machine

end StackVM
