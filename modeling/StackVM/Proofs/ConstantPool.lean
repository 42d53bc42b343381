import StackVM.Proofs.Reclamation

/-!
# The constant pool

Constants share the heap with everything a run makes, and slots are reused as soon as they are free. The
table of constants holds each of its objects for good, so none of their slots is ever given to another
object. Main statement: whatever was run and reset, every constant still has its own slot with what was
loaded there, up to the elements of an array, and those only `array.set` changes (`constants_stable`).
-/

namespace StackVM

/-- No constant is loaded as a struct. -/
theorem Constant.form_ne_struct {c : Constant} {r : Record} : c.form ≠ .inr (.struct r) := by
  intro form
  cases c with
  | number s bits =>
    rcases Constant.form_number s bits with ⟨v, number, -⟩ | ⟨n, wide, -⟩
    · cases number.symm.trans form
    · cases wide.symm.trans form
  | _ => cases form

/-- What is left of a constant's object: all of it, or the type and the length of an array. -/
theorem Constant.eq_of_blank {c : Constant} {o o' : Object} (form : c.form = .inr o)
    (like : o'.blank = o.blank) :
    o' = o ∨ ∃ q q', o = .packed q ∧ o' = .packed q' ∧ q'.scalar = q.scalar ∧ q'.size = q.size := by
  cases c with
  | number s bits =>
    rcases Constant.form_number s bits with ⟨v, number, -⟩ | ⟨n, wide, -⟩
    · cases number.symm.trans form
    · cases wide.symm.trans form
      cases o' <;> simp_all [Object.blank]
  | packed q =>
    cases form
    cases o' with
    | packed q' =>
      obtain ⟨s, elems⟩ := q
      obtain ⟨s', elems'⟩ := q'
      simp only [Object.blank, Packed.zeros, Object.packed.injEq, Packed.mk.injEq] at like
      obtain ⟨rfl, same⟩ := like
      have size := congrArg Array.size (eq_of_heq same)
      exact .inr ⟨_, _, rfl, rfl, rfl, by simpa using size⟩
    | _ => simp [Object.blank] at like
  | _ =>
    cases form
    cases o' <;> simp_all [Object.blank]

namespace Machine

variable {m m' : Machine} {K : Nat → Option Object} {hand : List Value} {v : Value} {n : Nat}

/-- What lies in the slots of constants is what `K` says, as far as the slots are live. -/
def Sealed (K : Nat → Option Object) (m : Machine) : Prop :=
  ∀ a o, Value.ref a ∈ m.constants → m.heap.get? a = some o → K a = some o

/-! ### One change at a time -/

theorem Sealed.subset {h : Heap} (kept : m.Sealed K)
    (subset : ∀ a o, h.get? a = some o → m.heap.get? a = some o) : Sealed K { m with heap := h } :=
  fun a o constant found => kept a o constant (subset a o found)

theorem Sealed.setIp (kept : m.Sealed K) (ip : Nat) : (m.setIp ip).Sealed K := by
  rw [setIp_eq]
  exact kept

theorem Sealed.retain (kept : m.Sealed K) (v : Value) : (m.retain v).Sealed K :=
  kept.subset fun a _ found => (Heap.get?_retainValues m.heap [v] a).symm.trans found

theorem Sealed.releaseAll (kept : m.Sealed K) (vs : List Value) : (m.releaseAll vs).Sealed K :=
  kept.subset fun _ _ => Heap.get?_of_releaseValues

theorem Sealed.release (kept : m.Sealed K) (v : Value) : (m.release v).Sealed K := kept.releaseAll [v]

theorem Sealed.discarded (kept : m.Sealed K) (n : Nat) : (m.discarded n).Sealed K :=
  Sealed.releaseAll (m := m.dropped n) kept _

/-- The slots of constants are live, so a new object gets another one. -/
theorem Sealed.pushedObject (kept : m.Sealed K) (balanced : m.Balanced hand) (o : Object) :
    (m.pushedObject o).Sealed K := by
  intro a o' constant found
  change (m.heap.alloc o).2.get? a = some o' at found
  rw [balanced.heap.get?_alloc] at found
  split at found
  · next fresh =>
    obtain ⟨obj, live, -⟩ := balanced.pool.childless constant
    rw [← fresh, (balanced.heap.alloc_fresh o).2.2] at live
    cases live
  · exact kept a o' constant found

theorem Sealed.pushedRead (kept : m.Sealed K) (balanced : m.Balanced hand) (v : Value) :
    (m.pushedRead v).Sealed K := by
  unfold Machine.pushedRead
  split
  · split
    · exact kept
    · exact kept.pushedObject balanced _
  · exact kept

theorem Sealed.replaced (kept : m.Sealed K) (balanced : m.Balanced hand) (n : Nat) (v : Value) :
    (m.replaced n v).Sealed K := (kept.discarded n).pushedRead (balanced.discarded n) v

theorem Sealed.copied (kept : m.Sealed K) (done : m.copied v = .ok m') : m'.Sealed K := by
  obtain ⟨_, _, done⟩ := bind_eq_ok done
  cases done
  exact kept.retain v

theorem Sealed.jumped {size next : Nat} {displacement : Int} (kept : m.Sealed K)
    (done : m.jumped size next displacement = .ok m') : m'.Sealed K := by
  obtain ⟨target, -, -, rfl⟩ := jumped_eq_ok done
  exact kept.setIp target

theorem Sealed.setGlobal (kept : m.Sealed K) (i : Nat) (v : Value) : (m.setGlobal i v).Sealed K := by
  unfold Machine.setGlobal
  cases m.globals.get? i with
  | none => exact kept
  | some w => exact Sealed.release (m := { m with globals := m.globals.put i v }) kept w

theorem Sealed.setPlace (kept : m.Sealed K) (place : Nat) (v : Value) : (m.setPlace place v).Sealed K :=
  Sealed.release (m := { m with stack := m.stack.set (m.fromTop place) v }) kept _

/-- A struct is no constant. -/
theorem Sealed.updateStruct {a : Nat} {r : Record} (kept : m.Sealed K) (balanced : m.Balanced hand)
    (found : m.heap.get? a = some (.struct r)) (f : Object → Object) :
    Sealed K { m with heap := m.heap.update a f } := by
  intro b o constant found'
  rw [Heap.get?_update] at found'
  split at found'
  · next here =>
    subst here
    obtain ⟨i, c, at_i, onHeap, value⟩ := balanced.pool.ref_iff.1 constant
    obtain ⟨obj, form⟩ := Constant.onHeap_iff.1 onHeap
    obtain ⟨b, obj', value', live, like⟩ := balanced.pool.slot at_i form
    cases value.symm.trans value'
    cases found.symm.trans live
    cases obj with
    | struct r' => exact absurd form Constant.form_ne_struct
    | _ => cases like
  · exact kept b o constant found'

/-! ### Instructions -/

theorem Sealed.entering {f : Function} {captures : List Value} {callee : Nat} (kept : m.Sealed K)
    (done : m.entering f captures callee = .ok m') : m'.Sealed K := by
  obtain ⟨_, _, done⟩ := bind_eq_ok done
  obtain ⟨_, _, done⟩ := bind_eq_ok done
  obtain ⟨_, _, done⟩ := bind_eq_ok done
  obtain ⟨_, _, done⟩ := bind_eq_ok done
  cases done
  intro a o constant found
  exact kept a o constant ((Heap.get?_retainValues m.heap captures a).symm.trans found)

theorem Sealed.calling (kept : m.Sealed K) (done : m.calling = .ok m') : m'.Sealed K := by
  obtain ⟨_, _, done⟩ := bind_eq_ok done
  obtain ⟨callee, _, done⟩ := bind_eq_ok done
  split at done
  · exact kept.entering done
  · exact kept.entering done
  · cases done
  · cases done

theorem Sealed.returned (kept : m.Sealed K) (frame : Frame) : (m.returned frame).Sealed K :=
  Sealed.release (v := .ref frame.callee) (kept.releaseAll _)

theorem Sealed.returning (kept : m.Sealed K) (done : m.returning = .ok m') : m'.Sealed K := by
  unfold Machine.returning at done
  split at done
  · cases done
  · obtain ⟨_, _, done⟩ := bind_eq_ok done
    cases done
    exact kept.returned _

theorem Sealed.measuringString (kept : m.Sealed K) (balanced : m.Balanced [])
    (done : m.measuringString = .ok m') : m'.Sealed K := by
  obtain ⟨_, _, done⟩ := bind_eq_ok done
  obtain ⟨o, _, done⟩ := bind_eq_ok done
  split at done
  · cases done
    exact kept.replaced balanced 1 _
  · cases done

theorem Sealed.joiningStrings (kept : m.Sealed K) (balanced : m.Balanced [])
    (done : m.joiningStrings = .ok m') : m'.Sealed K := by
  obtain ⟨_, _, done⟩ := bind_eq_ok done
  obtain ⟨strings, _, done⟩ := bind_eq_ok done
  cases done
  exact (kept.discarded 2).pushedObject (balanced.discarded 2) _

theorem Sealed.comparingStrings {equal : Bool} (kept : m.Sealed K) (balanced : m.Balanced [])
    (done : m.comparingStrings equal = .ok m') : m'.Sealed K := by
  obtain ⟨_, _, done⟩ := bind_eq_ok done
  obtain ⟨strings, _, done⟩ := bind_eq_ok done
  cases done
  exact kept.replaced balanced 2 _

theorem Sealed.makingArray {index count : Nat} (kept : m.Sealed K) (balanced : m.Balanced [])
    (done : m.makingArray index count = .ok m') : m'.Sealed K := by
  obtain ⟨t, _, done⟩ := bind_eq_ok done
  split at done
  · cases done
  · obtain ⟨_, _, done⟩ := bind_eq_ok done
    obtain ⟨numbers, _, done⟩ := bind_eq_ok done
    obtain ⟨_, _, done⟩ := bind_eq_ok done
    split at done
    · cases done
      exact (kept.discarded count).pushedObject (balanced.discarded count) _
    · cases done
      exact Sealed.pushedObject (m := m.dropped count) kept (balanced.dropped count) _

theorem Sealed.makingZeroArray {index : Nat} (kept : m.Sealed K) (balanced : m.Balanced [])
    (done : m.makingZeroArray index = .ok m') : m'.Sealed K := by
  obtain ⟨t, _, done⟩ := bind_eq_ok done
  obtain ⟨_, _, done⟩ := bind_eq_ok done
  obtain ⟨length, _, done⟩ := bind_eq_ok done
  obtain ⟨_, _, done⟩ := bind_eq_ok done
  obtain ⟨o, _, done⟩ := bind_eq_ok done
  cases done
  exact (kept.discarded 1).pushedObject (balanced.discarded 1) o

theorem Sealed.measuringArray (kept : m.Sealed K) (balanced : m.Balanced [])
    (done : m.measuringArray = .ok m') : m'.Sealed K := by
  obtain ⟨_, _, done⟩ := bind_eq_ok done
  obtain ⟨o, _, done⟩ := bind_eq_ok done
  split at done
  · cases done
    exact kept.replaced balanced 1 _
  · cases done

theorem Sealed.readingElement (kept : m.Sealed K) (balanced : m.Balanced [])
    (done : m.readingElement = .ok m') : m'.Sealed K := by
  obtain ⟨_, _, done⟩ := bind_eq_ok done
  obtain ⟨i, _, done⟩ := bind_eq_ok done
  obtain ⟨o, object, done⟩ := bind_eq_ok done
  obtain ⟨_, _, done⟩ := bind_eq_ok done
  obtain ⟨v, element, done⟩ := bind_eq_ok done
  cases done
  obtain ⟨b, _, found⟩ := objectAt_eq_ok object
  have live := balanced.live_element found (lookup_eq_ok element)
  exact (kept.retain v).replaced (balanced.retain live) 2 v

theorem Sealed.makingStruct {index : Nat} (kept : m.Sealed K) (balanced : m.Balanced [])
    (done : m.makingStruct index = .ok m') : m'.Sealed K := by
  obtain ⟨fields, _, done⟩ := bind_eq_ok done
  obtain ⟨_, need, done⟩ := bind_eq_ok done
  obtain ⟨values, read, done⟩ := bind_eq_ok done
  obtain ⟨_, _, done⟩ := bind_eq_ok done
  cases done
  have enough := need_eq_ok.1 need
  have taken := balanced.fields_taken (by omega) read
  exact Sealed.pushedObject (Sealed.releaseAll (m := m.dropped fields.length) kept _) taken _

theorem Sealed.makingZeroStruct {index : Nat} (kept : m.Sealed K) (balanced : m.Balanced [])
    (done : m.makingZeroStruct index = .ok m') : m'.Sealed K := by
  obtain ⟨fields, _, done⟩ := bind_eq_ok done
  obtain ⟨_, _, done⟩ := bind_eq_ok done
  cases done
  exact kept.pushedObject balanced _

theorem Sealed.readingField {field : Nat} (kept : m.Sealed K) (balanced : m.Balanced [])
    (done : m.readingField field = .ok m') : m'.Sealed K := by
  obtain ⟨_, _, done⟩ := bind_eq_ok done
  obtain ⟨o, object, done⟩ := bind_eq_ok done
  obtain ⟨b, _, found⟩ := objectAt_eq_ok object
  split at done
  · next r =>
    obtain ⟨v, value, done⟩ := bind_eq_ok done
    cases done
    have live := balanced.live_field found (lookup_eq_ok value)
    exact (kept.retain v).replaced (balanced.retain live) 1 v
  · cases done

theorem Sealed.storingField {field : Nat} (kept : m.Sealed K) (balanced : m.Balanced [])
    (done : m.storingField field = .ok m') : m'.Sealed K := by
  obtain ⟨_, _, done⟩ := bind_eq_ok done
  obtain ⟨a, address, done⟩ := bind_eq_ok done
  obtain ⟨o, object, done⟩ := bind_eq_ok done
  have found := get?_of_objectAt address object
  split at done
  · obtain ⟨t, _, done⟩ := bind_eq_ok done
    obtain ⟨old, _, done⟩ := bind_eq_ok done
    split at done
    · cases done
    · next stored _ =>
      cases done
      have changed := kept.updateStruct balanced found (·.setField field stored)
      exact Sealed.discarded (Sealed.release (m := { m.dropped 1 with
        heap := m.heap.update a (·.setField field stored) }) changed _) 1
  · cases done

/-- Of all instructions only `array.set` touches what lies in the slots of constants. -/
theorem Sealed.effect {inst : Instruction} {size next : Nat} (kept : m.Sealed K)
    (balanced : m.Balanced []) (no_set : inst.opcode ≠ .arraySet)
    (done : m.effect inst size next = .ok m') : m'.Sealed K := by
  have succeeds := succeeds_of_effect done
  generalize inst.opcode = opcode at succeeds no_set
  cases succeeds with
  | nop => exact kept
  | drop enough => exact kept.discarded 1
  | dup enough done => exact kept.copied done
  | swap enough => exact kept
  | select enough number choice => exact Sealed.release (m := m.dropped 3) kept _
  | br jump => exact kept.jumped jump
  | brIf enough jump => exact (kept.jumped jump).discarded 1
  | brIfNot enough => exact kept.discarded 1
  | brTable enough listed jump => exact (kept.jumped jump).discarded 1
  | call done => exact kept.calling done
  | ret done => exact kept.returning done
  | globalGet found done => exact kept.copied done
  | globalSet enough => exact Sealed.setGlobal (m := m.dropped 1) kept _ _
  | globalTee enough => exact (kept.retain _).setGlobal _ _
  | localGet found done => exact kept.copied done
  | localSet found enough => exact Sealed.setPlace (m := m.dropped 1) kept _ _
  | localTee found enough => exact (kept.retain _).setPlace _ _
  | constGet found done => exact kept.copied done
  | refNull room => exact kept
  | const room => exact kept.pushedRead balanced _
  | operation enough evaluated => exact kept.replaced balanced _ _
  | stringLen done => exact kept.measuringString balanced done
  | stringConcat done => exact kept.joiningStrings balanced done
  | stringEq done => exact kept.comparingStrings balanced done
  | stringNe done => exact kept.comparingStrings balanced done
  | arrayNew done => exact kept.makingArray balanced done
  | arrayNewDefault done => exact kept.makingZeroArray balanced done
  | arrayLen done => exact kept.measuringArray balanced done
  | arrayGet done => exact kept.readingElement balanced done
  | arraySet done => exact absurd rfl no_set
  | structNew done => exact kept.makingStruct balanced done
  | structNewDefault done => exact kept.makingZeroStruct balanced done
  | structGet done => exact kept.readingField balanced done
  | structSet done => exact kept.storingField balanced done

/-! ### Turns and runs -/

/-- Where the next instruction is no `array.set`, a turn leaves the slots of constants alone. -/
theorem Turn.sealed {α : EStateM.Result Stop Machine Bool} (turn : m.Turn α) (balanced : m.Balanced [])
    (no_set : ∀ frame inst, m.At frame inst → inst.opcode ≠ .arraySet) :
    (leftBy α).Sealed m.heap.get? := by
  have before : m.Sealed m.heap.get? := fun _ _ _ found => found
  cases turn with
  | idle none => exact before
  | undecoded frames inside decoded => exact before
  | stepped frames inside decoded done =>
    have other := no_set _ _ ⟨by rw [frames]; rfl, inside, decoded⟩
    exact (before.setIp _).effect (balanced.setIp _) other done
  | failed frames inside decoded refused => exact before.setIp _
  | ended frames past => exact before
  | returned frames called past done => exact before.returning done
  | stuck frames called past refused => exact before

/-- The slots of constants stay live, so what is sealed is still there. -/
theorem get?_of_sealed (kept : m'.Sealed m.heap.get?) (balanced : m'.Balanced []) {a : Nat}
    (constant : Value.ref a ∈ m'.constants) : m'.heap.get? a = m.heap.get? a := by
  obtain ⟨obj, live, -⟩ := balanced.pool.childless constant
  rw [live, kept a obj constant live]

end Machine

/-- Where no address comes twice, no reference does. -/
theorem Value.eq_of_nodup_addresses {vs : List Value} {i j a : Nat} (pos : 0 < a)
    (distinct : (Value.addresses vs).Nodup) (at_i : vs[i]? = some (.ref a))
    (at_j : vs[j]? = some (.ref a)) : i = j := by
  induction vs generalizing i j with
  | nil => simp at at_i
  | cons v vs ih =>
    -- an address of the tail is not that of the head
    have apart {k : Nat} (at_k : vs[k]? = some (.ref a)) : v ≠ .ref a := by
      rintro rfl
      have member := Value.mem_addresses pos (List.mem_of_getElem? at_k)
      cases a with
      | zero => omega
      | succ a => exact (List.nodup_cons.1 distinct).1 member
    have rest : (Value.addresses vs).Nodup := by
      refine distinct.sublist ?_
      exact (List.sublist_cons_self v vs).filterMap _
    cases i with
    | zero =>
      cases j with
      | zero => rfl
      | succ j => exact absurd (Option.some.inj at_i) (apart at_j)
    | succ i =>
      cases j with
      | zero => exact absurd (Option.some.inj at_j) (apart at_i)
      | succ j => rw [ih rest at_i at_j]

namespace Machine

variable {p : Program} {o : Options} {m : Machine}

/-- The table of constants stays as it was loaded, and every constant that is an object keeps a live slot
of its own. In it lies what was loaded, or, of an array, something of the same type and length; only a
turn whose instruction is `array.set` changes what lies there. -/
theorem constants_stable (guest : ∀ c ∈ p.constants, c.isHost = false) (reached : Reachable p o m) :
    m.constants = (load p o).constants ∧
    (∀ (i : Nat) (c : Constant) (obj : Object), p.constants[i]? = some c → c.form = .inr obj →
      ∃ a obj', m.constants[i]? = some (.ref a) ∧ m.heap.get? a = some obj' ∧
        (obj' = obj ∨ ∃ q q', obj = .packed q ∧ obj' = .packed q' ∧ q'.scalar = q.scalar ∧
          q'.size = q.size)) ∧
    (∀ i j a : Nat, m.constants[i]? = some (.ref a) → m.constants[j]? = some (.ref a) → i = j) ∧
    (∀ a, .ref a ∈ m.constants → m.reset.heap.get? a = m.heap.get? a) ∧
    ∀ m', m.Turned m' → (∀ frame inst, m.At frame inst → inst.opcode ≠ .arraySet) →
      ∀ a, .ref a ∈ m.constants → m'.heap.get? a = m.heap.get? a := by
  have steady := steady_reachable guest reached
  obtain ⟨program, constants⟩ := loaded_reachable guest reached
  have pool := steady.balanced.pool
  refine ⟨constants, fun i c obj at_i form => ?_, fun i j a at_i at_j => ?_, fun a constant => ?_,
    fun m' turned no_set a constant => ?_⟩
  · rw [program] at pool
    obtain ⟨a, obj', value, found, like⟩ := pool.slot at_i form
    exact ⟨a, obj', value, found, Constant.eq_of_blank form like⟩
  · have pos : 0 < a := by
      obtain ⟨obj, found, -⟩ := pool.childless (Array.mem_of_getElem? at_i)
      rcases Nat.eq_zero_or_pos a with rfl | pos
      · rw [steady.balanced.heap.null.2] at found
        cases found
      · exact pos
    exact Value.eq_of_nodup_addresses pos pool.distinct (by simpa using at_i) (by simpa using at_j)
  · have kept : m.reset.Sealed m.heap.get? := fun _ _ _ found => Balanced.get?_of_reset found
    exact get?_of_sealed kept steady.balanced.reset constant
  · have after := turned.steady steady
    obtain ⟨-, same⟩ := turned.loaded steady
    obtain ⟨-, nested, rfl⟩ := turned
    have kept := (Exec.turn_cases nested steady.bounded steady.guest).sealed steady.balanced no_set
    exact get?_of_sealed kept after.balanced (same ▸ constant)

/-- A program that writes into its array, joins its string to itself and then fails. -/
def stocked : Program :=
  { code := Instruction.assemble
      [⟨.constGet, [0]⟩, ⟨.const .i32, [0]⟩, ⟨.const .i32, [7]⟩, ⟨.arraySet, []⟩, ⟨.constGet, [1]⟩,
        ⟨.constGet, [1]⟩, ⟨.stringConcat, []⟩, ⟨.unreachable, []⟩]
    constants := #[.packed (.zeros .i32 2), .string "text"]
    types := #[] }

/-- Failed and reset, the machine still has both constants in their slots. -/
theorem stocked_stable :
    (∃ q, (leftBy (Exec.run 8 (load stocked {}))).reset.heap.get? 1 = some (.packed q) ∧
      q.scalar = .i32 ∧ q.size = 2) ∧
    (leftBy (Exec.run 8 (load stocked {}))).reset.heap.get? 2 = some (.string "text") := by
  have guest : ∀ c ∈ stocked.constants, c.isHost = false := by simp [stocked, Constant.isHost]
  have loaded : (load stocked {}).constants = #[.ref 1, .ref 2] := by decide +kernel
  obtain ⟨constants, kept, -⟩ := constants_stable guest (.reset (.run 8 (.load (o := {}))))
  constructor
  · obtain ⟨a, obj, value, found, same⟩ := kept 0 _ _ rfl rfl
    rw [constants, loaded] at value
    cases value
    rcases same with rfl | ⟨q, q', array, rfl, scalar, size⟩
    · exact ⟨_, found, rfl, rfl⟩
    · cases array
      exact ⟨q', found, scalar, size⟩
  · obtain ⟨a, obj, value, found, same⟩ := kept 1 _ _ rfl rfl
    rw [constants, loaded] at value
    cases value
    rcases same with rfl | ⟨q, q', array, -⟩
    · exact found
    · cases array

end Machine

end StackVM
