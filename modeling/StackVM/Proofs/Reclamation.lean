import StackVM.Proofs.FrameIsolation
import StackVM.Proofs.Heap.Reachability

/-!
# What a reset reclaims

A reset drops the frames, the operands and the globals. The counts stay exact, so what is left on the heap
is what the constants hold and what keeps itself counted in cycles. Constants hold no other object. Main
statement: if the heap had no cycle, a reset leaves the objects of the constants, each counted once, and
nothing else (`reset_reclaims`).
-/

namespace StackVM

/-- The constants that become objects: all but numbers, and of the numbers those integers that are too
wide for a word. -/
def Constant.OnHeap : Constant → Prop
  | .number s bits => s = .i64 ∧ Value.fitsPayload (.ofNat 64 bits.toNat) = false
  | _ => True

theorem Constant.onHeap_iff {c : Constant} : c.OnHeap ↔ ∃ o, c.form = .inr o := by
  cases c with
  | number s bits =>
    cases s with
    | i64 =>
      by_cases fits : Value.fitsPayload (.ofNat 64 bits.toNat) = true
      · simp only [OnHeap, form, Value.ofRaw, fits, if_true]
        simp
      · simp only [OnHeap, form, Value.ofRaw, fits]
        simp
    | _ => simp [OnHeap, form, Value.ofRaw]
  | _ => exact ⟨fun _ => ⟨_, rfl⟩, fun _ => trivial⟩

/-- An object that was loaded for a constant holds nothing, whatever its elements are by now. -/
theorem Constant.childless {c : Constant} {o o' : Object} (form : c.form = .inr o)
    (like : o'.blank = o.blank) : o'.children = [] := by
  cases c with
  | number s bits =>
    rcases Constant.form_number s bits with ⟨v, number, -⟩ | ⟨n, wide, -⟩
    · cases number.symm.trans form
    · cases wide.symm.trans form
      cases o' <;> simp [Object.blank] at like
      rfl
  | _ =>
    cases form
    cases o' <;> simp [Object.blank] at like
    rfl

namespace Machine

variable {p : Program} {o : Options} {m m' : Machine}

theorem Turned.loaded (turned : m.Turned m') (steady : m.Steady) :
    m'.program = m.program ∧ m'.constants = m.constants := by
  rcases turned.cases steady with move | ⟨ip, rfl⟩
  · exact move.loaded
  · rw [setIp_eq]
    exact ⟨rfl, rfl⟩

/-- The program and the constants stay as they were loaded. -/
theorem loaded_reachable (guest : ∀ c ∈ p.constants, c.isHost = false) (reached : Reachable p o m) :
    m.program = p ∧ m.constants = (load p o).constants := by
  induction reached with
  | load => exact ⟨rfl, rfl⟩
  | @run m fuel before ih =>
    let Same (m' : Machine) : Prop :=
      m'.Steady ∧ m'.program = p ∧ m'.constants = (load p o).constants
    have stopped : Exec.Stops Same (fun _ => Same) (Exec.run fuel m) := by
      apply Exec.run_invariant
      · rintro nested m ⟨steady, program, constants⟩ addresses
        have turned : m.Turned (leftBy (Exec.turn nested m)) := ⟨addresses, nested, rfl⟩
        obtain ⟨program', constants'⟩ := turned.loaded steady
        refine stops_of_leftBy ⟨turned.steady steady, ?_, ?_⟩
        · rw [program', program]
        · rw [constants', constants]
      · intro _ _
        exact ⟨steady_reachable guest before, ih⟩
      · refine ⟨steady_started (steady_reachable guest before), ?_⟩
        unfold started
        split
        · exact ih
        · exact ih
    exact (leftBy_of_stops stopped fun _ _ same => same).2
  | reset before ih => exact ih

/-- The slots that constants hold are those of the constants that become objects. -/
theorem Pool.ref_iff {constants : Array Value} {heap : Heap} (pool : Pool p constants heap) {a : Nat} :
    Value.ref a ∈ constants ↔
      ∃ (i : Nat) (c : Constant), p.constants[i]? = some c ∧ c.OnHeap ∧ constants[i]? = some (.ref a) := by
  obtain ⟨length, kept⟩ := List.forall₂_iff_get.1 pool.kept
  constructor
  · intro mem
    obtain ⟨i, at_i⟩ := Array.mem_iff_getElem?.1 mem
    obtain ⟨inside, value⟩ := Array.getElem?_eq_some_iff.1 at_i
    have inside' : i < p.constants.size := by
      have size : p.constants.size = constants.size := by simpa using length
      omega
    refine ⟨i, p.constants[i], by simp [inside'], ?_, at_i⟩
    have here := kept i (by simpa using inside') (by simpa using inside)
    unfold Constant.Kept at here
    -- a number is not kept as a reference
    cases form : (p.constants[i]).form with
    | inl w =>
      simp only [List.get_eq_getElem, Array.getElem_toList, form, value] at here
      exact absurd (here ▸ rfl) (Constant.number_form form)
    | inr obj => exact Constant.onHeap_iff.2 ⟨obj, form⟩
  · rintro ⟨i, c, -, -, at_i⟩
    exact Array.mem_of_getElem? at_i

/-- The slot of a constant that becomes an object. -/
theorem Pool.slot {constants : Array Value} {heap : Heap} (pool : Pool p constants heap) {i : Nat}
    {c : Constant} {obj : Object} (at_i : p.constants[i]? = some c) (form : c.form = .inr obj) :
    ∃ a obj', constants[i]? = some (Value.ref a) ∧ heap.get? a = some obj' ∧ obj'.blank = obj.blank := by
  obtain ⟨length, kept⟩ := List.forall₂_iff_get.1 pool.kept
  obtain ⟨inside, rfl⟩ := Array.getElem?_eq_some_iff.1 at_i
  have inside' : i < constants.size := by
    have size : p.constants.size = constants.size := by simpa using length
    omega
  have here := kept i (by simpa using inside) (by simpa using inside')
  unfold Constant.Kept at here
  simp only [List.get_eq_getElem, Array.getElem_toList, form] at here
  obtain ⟨a, obj', value, found, like⟩ := here
  exact ⟨a, obj', by simp [inside', value], found, like⟩

/-- What a constant refers to is live and holds nothing. -/
theorem Pool.childless {constants : Array Value} {heap : Heap} (pool : Pool p constants heap) {a : Nat}
    (mem : Value.ref a ∈ constants) : ∃ obj, heap.get? a = some obj ∧ obj.children = [] := by
  obtain ⟨i, c, at_i, onHeap, value⟩ := pool.ref_iff.1 mem
  obtain ⟨obj, form⟩ := Constant.onHeap_iff.1 onHeap
  obtain ⟨b, obj', value', found, like⟩ := pool.slot at_i form
  cases value.symm.trans value'
  exact ⟨obj', found, Constant.childless form like⟩

/-- Without cycles, what is live after a reset is the object of a constant. -/
theorem constant_of_live (guest : ∀ c ∈ p.constants, c.isHost = false) (reached : Reachable p o m)
    (acyclic : m.heap.Acyclic) {a : Nat} (live : (m.reset.heap.get? a).isSome) :
    Value.ref a ∈ m.reset.constants := by
  have balanced := (steady_reachable guest (.reset reached)).balanced
  have pool := balanced.pool
  rw [(loaded_reachable guest (.reset reached)).1] at pool
  obtain ⟨root, outside, way⟩ :=
    balanced.exactly.reached balanced.heap (acyclic.mono fun _ _ => Balanced.get?_of_reset) live
  -- only the constants are left of the places outside the heap
  have mem : Value.ref root ∈ m.reset.constants := by
    have root_of : root ∈ Value.addresses m.reset.constants.toList := by
      simpa [references, Machine.reset, Value.addresses, Table.empty, Table.values] using outside
    exact Array.mem_toList_iff.1 (Value.ref_of_mem_addresses root_of)
  obtain ⟨obj, found, childless⟩ := pool.childless mem
  rwa [Heap.eq_of_childless found childless way]

/-- Without cycles on the heap a reset reclaims everything but the constants: the objects that are live
after it are those that were loaded for the constants, unchanged but for elements of packed arrays, and
each has one reference left, that of its constant. -/
theorem reset_reclaims (guest : ∀ c ∈ p.constants, c.isHost = false) (reached : Reachable p o m)
    (acyclic : m.heap.Acyclic) :
    (m.reset.stack = [] ∧ m.reset.frames = [] ∧ m.reset.globals = .empty ∧
      m.reset.constants = (load p o).constants) ∧
    (∀ a, (m.reset.heap.get? a).isSome ↔
      ∃ (i : Nat) (c : Constant),
        p.constants[i]? = some c ∧ c.OnHeap ∧ m.reset.constants[i]? = some (.ref a)) ∧
    (∀ (i : Nat) (c : Constant) (obj : Object), p.constants[i]? = some c → c.form = .inr obj →
      ∃ a obj', m.reset.constants[i]? = some (.ref a) ∧ m.reset.heap.get? a = some obj' ∧
        obj'.blank = obj.blank) ∧
    ∀ a, (m.reset.heap.get? a).isSome → m.reset.heap.refcount a = 1 := by
  have balanced := (steady_reachable guest (.reset reached)).balanced
  obtain ⟨program, constants⟩ := loaded_reachable guest (.reset reached)
  have pool := balanced.pool
  rw [program] at pool
  have constant {a : Nat} := @constant_of_live p o m guest reached acyclic a
  refine ⟨⟨rfl, rfl, rfl, constants⟩, fun a => ?_, fun i c obj => pool.slot, fun a live => ?_⟩
  · rw [← pool.ref_iff]
    constructor
    · exact constant
    · intro mem
      obtain ⟨obj, found, -⟩ := pool.childless mem
      rw [found]
      rfl
  · have pos : 0 < a := by
      rcases Nat.eq_zero_or_pos a with rfl | pos
      · rw [balanced.heap.null.2] at live
        cases live
      · exact pos
    -- live objects hold nothing, for they are those of constants
    have unheld : m.reset.heap.inner.count a = 0 := by
      rw [List.count_eq_zero]
      intro held
      obtain ⟨b, refers⟩ := Heap.refers_of_mem_inner held
      obtain ⟨obj, found, childless⟩ := pool.childless (constant refers.live)
      obtain ⟨obj', found', child⟩ := refers
      cases found.symm.trans found'
      rw [childless] at child
      cases child
    have once : m.reset.constants.toList.count (.ref a) = 1 := by
      rw [← Value.count_addresses pos]
      refine List.count_eq_one_of_mem pool.distinct ?_
      exact Value.mem_addresses pos (Array.mem_toList_iff.2 (constant live))
    have counted := balanced.exact a pos
    rw [counted, holders, unheld, ← count_references _ pos]
    simpa [references, Machine.reset, Value.addresses, Table.empty, Table.values,
      ← Value.count_addresses pos] using once

/-- A program that puts a string and an array into a struct, keeps the struct in a global and calls a
function with it that fails before it returns. -/
def abandoned : Program :=
  let body : Code := Instruction.assemble [⟨.localGet, [0]⟩, ⟨.unreachable, []⟩]
  { code := Instruction.assemble
      [⟨.constGet, [0]⟩, ⟨.const .i32, [5]⟩, ⟨.arrayNewDefault, [1]⟩, ⟨.structNew, [0]⟩, ⟨.dup, []⟩,
        ⟨.globalSet, [0]⟩, ⟨.constGet, [1]⟩, ⟨.constGet, [2]⟩, ⟨.call, []⟩]
    constants := #[.string "text", .number .i64 0x1000000000000000, .function ⟨⟨[.ref, .ref], []⟩, 1, body⟩]
    types := #[.struct [.string, .packed .i32], .packed .i32] }

/-- The failed call leaves five objects, of which the reset reclaims the struct and its array. -/
theorem abandoned_reclaims :
    (leftBy (Exec.run 11 (load abandoned {}))).frames.length = 2 ∧
      (leftBy (Exec.run 11 (load abandoned {}))).heap.live = 5 ∧
      (leftBy (Exec.run 11 (load abandoned {}))).heap.Acyclic ∧
      ∀ a, ((leftBy (Exec.run 11 (load abandoned {}))).reset.heap.get? a).isSome ↔
        a = 1 ∨ a = 2 ∨ a = 3 := by
  have guest : ∀ c ∈ abandoned.constants, c.isHost = false := by simp [abandoned, Constant.isHost]
  obtain ⟨frames, live, constants, down⟩ :
      (leftBy (Exec.run 11 (load abandoned {}))).frames.length = 2 ∧
        (leftBy (Exec.run 11 (load abandoned {}))).heap.live = 5 ∧
        (leftBy (Exec.run 11 (load abandoned {}))).constants = #[.ref 1, .ref 2, .ref 3] ∧
        (leftBy (Exec.run 11 (load abandoned {}))).heap.descends = true := by decide +kernel
  have acyclic := Heap.acyclic_of_descends down
  refine ⟨frames, live, acyclic, fun a => ?_⟩
  obtain ⟨-, slots, -⟩ := reset_reclaims guest (.run 11 (.load (o := {}))) acyclic
  have kept : ∀ m : Machine, m.reset.constants = m.constants := fun m => rfl
  rw [slots a, kept, constants]
  constructor
  · rintro ⟨i, c, -, -, value⟩
    rcases i with _ | _ | _ | i
    · simp_all
    · simp_all
    · simp_all
    · simp at value
  -- each of the three constants becomes an object
  · rintro (rfl | rfl | rfl)
    · exact ⟨0, _, rfl, trivial, rfl⟩
    · exact ⟨1, _, rfl, ⟨rfl, by decide +kernel⟩, rfl⟩
    · exact ⟨2, _, rfl, trivial, rfl⟩

end Machine

end StackVM
