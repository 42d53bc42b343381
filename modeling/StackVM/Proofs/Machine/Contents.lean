import StackVM.Proofs.Reclamation
import StackVM.Proofs.Word.Packing

/-!
# What objects are filled with

A generic array asks of its elements only what an instruction asks of its operands: they have the kind of
the element type, or they refer to an integer where integers are kept. What an element refers to may be
freed and its slot reused only when no array holds it any more, so the element keeps referring to an integer.
An integer goes onto the heap only if a word has no room for it, and a NaN double is pushed as the canonical
one. Main statements: whatever the code is, all this holds in every state (`fitting_reachable`), and so
nothing is lost when values are kept in words (`stored_in_words`).
-/

namespace StackVM

/-- A word keeps the value as it is: an integer that is not on the heap has room there, and a NaN double is
the canonical one. -/
def Value.Narrow : Value → Prop
  | .i64 n => fitsPayload n = true
  | v => v.canonical = v

/-- The value has the kind of the type, or the type is that of integers and the value refers to one, if to
anything. -/
def Ty.Admits (h : Heap) (t : Ty) (v : Value) : Prop :=
  v.kind = t.kind ∨
    t.kind = .scalar .i64 ∧ ∃ a, 0 < a ∧ v = .ref a ∧ ∀ o, h.get? a = some o → ∃ n, o = .int64 n

/-- The object is an integer too wide for a word, or an array with elements of its element type, or
anything else. -/
def Object.Fitting (h : Heap) : Object → Prop
  | .int64 n => Value.fitsPayload n = false
  | .array elem elems => ∀ v ∈ elems, v.Narrow ∧ elem.Admits h v
  | _ => True

theorem Value.narrow_zero (k : Kind) : (Value.zero k).Narrow := by
  cases k with
  | scalar s =>
    cases s with
    | i64 => exact (by decide : fitsPayload 0 = true)
    | f64 => exact (by decide : canonical (.f64 ⟨0⟩) = .f64 ⟨0⟩)
    | _ => rfl
  | ref => rfl

theorem Value.narrow_canonical {v : Value} (no_integer : ∀ n, v ≠ .i64 n) : v.canonical.Narrow := by
  cases v with
  | i64 n => exact absurd rfl (no_integer n)
  | f64 x => exact canonical_canonical (.f64 x)
  | _ => rfl

theorem Ty.Admits.subset {h h' : Heap} {t : Ty} {v : Value} (admits : t.Admits h v)
    (subset : ∀ a o, h'.get? a = some o → h.get? a = some o) : t.Admits h' v := by
  rcases admits with same | ⟨wide, a, pos, eq, integer⟩
  · exact .inl same
  · exact .inr ⟨wide, a, pos, eq, fun o found => integer o (subset a o found)⟩

theorem Object.Fitting.subset {h h' : Heap} {o : Object} (fitting : o.Fitting h)
    (subset : ∀ a o, h'.get? a = some o → h.get? a = some o) : o.Fitting h' := by
  cases o with
  | array elem elems =>
    intro v member
    obtain ⟨narrow, admits⟩ := fitting v member
    exact ⟨narrow, admits.subset subset⟩
  | _ => exact fitting

namespace Machine

variable {m m' : Machine} {hand vs : List Value} {v : Value} {t : Ty} {o : Object} {n a : Nat}

/-- The slot of a live integer is not given to another object. -/
theorem admits_alloc (wf : m.heap.WellFormed) (o : Object) (admits : t.Admits m.heap v)
    (live : m.Live v) : t.Admits (m.heap.alloc o).2 v := by
  rcases admits with same | ⟨wide, a, pos, eq, integer⟩
  · exact .inl same
  · refine .inr ⟨wide, a, pos, eq, fun o' found => ?_⟩
    obtain ⟨old, at_a⟩ := live a pos eq
    rw [wf.get?_alloc] at found
    split at found
    · next fresh =>
      rw [← fresh, (wf.alloc_fresh o).2.2] at at_a
      cases at_a
    · exact integer o' found

/-- What can be read as a value of a type is admitted by the type. -/
theorem admits_of_read? {w : Value} (wf : m.heap.WellFormed) (read : m.read? t.kind v = some w) :
    t.Admits m.heap v := by
  unfold read? at read
  split at read
  · next wide =>
    obtain ⟨n, denotes, -⟩ := Option.map_eq_some_iff.1 read
    unfold int64? at denotes
    split at denotes
    · exact .inl wide.symm
    · next a =>
      split at denotes
      · next n found =>
        refine .inr ⟨wide, a, ?_, rfl, fun o at_a => ⟨n, ?_⟩⟩
        · exact wf.pos_of_get? found
        · cases found.symm.trans at_a
          rfl
      · cases denotes
    · cases denotes
  · split at read
    · next same => exact .inl same
    · cases read

/-- All integers in words have room there, and all objects are fitting. -/
structure Fitting (m : Machine) : Prop where
  stack : ∀ v ∈ m.stack, v.Narrow
  globals : ∀ i v, m.globals.get? i = some v → v.Narrow
  constants : ∀ v ∈ m.constants, v.Narrow
  objects : ∀ a o, m.heap.get? a = some o → o.Fitting m.heap

namespace Fitting

/-! ### One change at a time -/

theorem withStack {stack : List Value} (fitting : m.Fitting) (narrow : ∀ v ∈ stack, v.Narrow) :
    Fitting { m with stack } :=
  { fitting with stack := narrow }

theorem withFrames (fitting : m.Fitting) (frames : List Frame) : Fitting { m with frames } :=
  { fitting with }

/-- Objects that go leave the others as they were. -/
theorem subset {h : Heap} (fitting : m.Fitting)
    (subset : ∀ a o, h.get? a = some o → m.heap.get? a = some o) : Fitting { m with heap := h } where
  stack := fitting.stack
  globals := fitting.globals
  constants := fitting.constants
  objects a o found := (fitting.objects a o (subset a o found)).subset subset

theorem pushed (fitting : m.Fitting) (narrow : v.Narrow) : (m.pushed v).Fitting := by
  apply fitting.withStack
  intro w member
  rcases List.mem_cons.1 member with rfl | member
  · exact narrow
  · exact fitting.stack w member

theorem dropped (fitting : m.Fitting) (n : Nat) : (m.dropped n).Fitting :=
  fitting.withStack fun v member => fitting.stack v (List.mem_of_mem_drop member)

theorem peek (fitting : m.Fitting) (depth : Nat) : (m.peek depth).Narrow := by
  unfold Machine.peek
  cases found : m.stack[depth]? with
  | none => trivial
  | some v => exact fitting.stack v (List.mem_of_getElem? found)

theorem setIp (fitting : m.Fitting) (ip : Nat) : (m.setIp ip).Fitting := by
  rw [setIp_eq]
  exact fitting.withFrames _

theorem retainValues (fitting : m.Fitting) (vs : List Value) :
    Fitting { m with heap := m.heap.retainValues vs } :=
  fitting.subset fun a _ found => (Heap.get?_retainValues m.heap vs a).symm.trans found

theorem retain (fitting : m.Fitting) (v : Value) : (m.retain v).Fitting := fitting.retainValues [v]

theorem releaseAll (fitting : m.Fitting) (vs : List Value) : (m.releaseAll vs).Fitting :=
  fitting.subset fun _ _ => Heap.get?_of_releaseValues

theorem release (fitting : m.Fitting) (v : Value) : (m.release v).Fitting := fitting.releaseAll [v]

theorem discarded (fitting : m.Fitting) (n : Nat) : (m.discarded n).Fitting :=
  (fitting.dropped n).releaseAll _

/-- A new object that fits leaves the others fitting, for what their elements refer to is not moved. -/
theorem pushedObject (fitting : m.Fitting) (balanced : m.Balanced hand)
    (new : o.Fitting (m.heap.alloc o).2) : (m.pushedObject o).Fitting := by
  have allocated : Fitting { m with heap := (m.heap.alloc o).2 } := by
    refine { fitting with objects := fun a o' found => ?_ }
    rw [balanced.heap.get?_alloc] at found
    split at found
    · cases found
      exact new
    · have old := fitting.objects a o' found
      cases o' with
      | array elem elems =>
        intro v member
        obtain ⟨narrow, admits⟩ := old v member
        obtain ⟨i, at_i⟩ := Array.getElem?_of_mem member
        exact ⟨narrow, admits_alloc balanced.heap o admits (balanced.live_element found at_i)⟩
      | _ => exact old
  exact allocated.pushed rfl

theorem pushedRead (fitting : m.Fitting) (balanced : m.Balanced hand) (v : Value) :
    (m.pushedRead v).Fitting := by
  unfold Machine.pushedRead
  split
  · next n =>
    split
    · next room => exact fitting.pushed room
    · next wide => exact fitting.pushedObject balanced (eq_false_of_ne_true wide)
  · next other => exact fitting.pushed (Value.narrow_canonical other)

theorem replaced (fitting : m.Fitting) (balanced : m.Balanced hand) (n : Nat) (v : Value) :
    (m.replaced n v).Fitting := (fitting.discarded n).pushedRead (balanced.discarded n) v

theorem copied (fitting : m.Fitting) (narrow : v.Narrow) (done : m.copied v = .ok m') : m'.Fitting := by
  obtain ⟨_, _, done⟩ := bind_eq_ok done
  cases done
  exact (fitting.retain v).pushed narrow

theorem jumped {size next : Nat} {displacement : Int} (fitting : m.Fitting)
    (done : m.jumped size next displacement = .ok m') : m'.Fitting := by
  obtain ⟨target, -, -, rfl⟩ := jumped_eq_ok done
  exact fitting.setIp target

theorem setGlobal (fitting : m.Fitting) (narrow : v.Narrow) (i : Nat) : (m.setGlobal i v).Fitting := by
  have stored : Fitting { m with globals := m.globals.put i v } := by
    refine { fitting with globals := fun j w found => ?_ }
    rw [Table.get?_put] at found
    split at found
    · cases found
      exact narrow
    · exact fitting.globals j w found
  unfold Machine.setGlobal
  cases m.globals.get? i with
  | none => exact stored
  | some w => exact stored.release w

theorem setPlace (fitting : m.Fitting) (narrow : v.Narrow) (place : Nat) :
    (m.setPlace place v).Fitting := by
  apply release
  apply fitting.withStack
  intro w member
  rcases List.mem_or_eq_of_mem_set member with member | rfl
  · exact fitting.stack w member
  · exact narrow

/-- Elements and fields are written into arrays and structs. Integers stay as they are. -/
theorem update {f : Object → Object} (fitting : m.Fitting) (found : m.heap.get? a = some o)
    (integers : ∀ n, f (.int64 n) = .int64 n) (new : (f o).Fitting m.heap) :
    Fitting { m with heap := m.heap.update a f } := by
  -- an integer is an integer afterwards, so references to integers stay such
  have admits {t : Ty} {v : Value} (before : t.Admits m.heap v) : t.Admits (m.heap.update a f) v := by
    rcases before with same | ⟨wide, b, pos, eq, integer⟩
    · exact .inl same
    · refine .inr ⟨wide, b, pos, eq, fun o' found' => ?_⟩
      rw [Heap.get?_update] at found'
      split at found'
      · obtain ⟨old, at_b, rfl⟩ := Option.map_eq_some_iff.1 found'
        obtain ⟨n, rfl⟩ := integer old at_b
        exact ⟨n, integers n⟩
      · exact integer o' found'
  have kept {o' : Object} (before : o'.Fitting m.heap) : o'.Fitting (m.heap.update a f) := by
    cases o' with
    | array elem elems =>
      intro v member
      obtain ⟨narrow, before⟩ := before v member
      exact ⟨narrow, admits before⟩
    | _ => exact before
  refine { fitting with objects := fun b o' found' => kept ?_ }
  rw [Heap.get?_update] at found'
  split at found'
  · next here =>
    subst here
    rw [found, Option.map_some, Option.some.injEq] at found'
    exact found' ▸ new
  · exact fitting.objects b o' found'

/-! ### Calls -/

theorem entered {f : Function} {captures : List Value} {callee : Nat} (fitting : m.Fitting)
    (narrow : ∀ v ∈ captures, v.Narrow) : (m.entered f captures callee).Fitting := by
  have stack : ∀ v ∈ (m.entered f captures callee).stack, v.Narrow := by
    intro v member
    simp only [Machine.entered, List.mem_append, List.mem_replicate, List.mem_reverse] at member
    rcases member with (member | ⟨-, rfl⟩) | member
    · exact narrow v member
    · trivial
    · exact fitting.stack v (List.mem_of_mem_drop member)
  exact { fitting.retainValues captures with stack }

theorem entering {f : Function} {captures : List Value} {callee : Nat} (fitting : m.Fitting)
    (narrow : ∀ v ∈ captures, v.Narrow) (done : m.entering f captures callee = .ok m') :
    m'.Fitting := by
  obtain ⟨_, _, done⟩ := bind_eq_ok done
  obtain ⟨_, _, done⟩ := bind_eq_ok done
  obtain ⟨_, _, done⟩ := bind_eq_ok done
  obtain ⟨_, _, done⟩ := bind_eq_ok done
  cases done
  exact fitting.entered narrow

theorem calling (fitting : m.Fitting) (balanced : m.Balanced hand) (done : m.calling = .ok m') :
    m'.Fitting := by
  obtain ⟨_, _, done⟩ := bind_eq_ok done
  obtain ⟨callee, _, done⟩ := bind_eq_ok done
  split at done
  · exact fitting.entering (by simp) done
  · next f captures found => exact (balanced.sound callee _ found).elim
  · cases done
  · cases done

theorem returned (fitting : m.Fitting) (frame : Frame) : (m.returned frame).Fitting := by
  have stack : ∀ v ∈ (m.returned frame).stack, v.Narrow := by
    intro v member
    rcases List.mem_append.1 member with member | member
    · exact fitting.stack v (List.mem_of_mem_take member)
    · exact fitting.stack v (List.mem_of_mem_drop (List.mem_of_mem_drop member))
  exact { (fitting.releaseAll _).release (.ref frame.callee) with stack }

theorem returning (fitting : m.Fitting) (done : m.returning = .ok m') : m'.Fitting := by
  unfold Machine.returning at done
  split at done
  · cases done
  · obtain ⟨_, _, done⟩ := bind_eq_ok done
    cases done
    exact fitting.returned _

/-! ### Strings -/

theorem measuringString (fitting : m.Fitting) (balanced : m.Balanced hand)
    (done : m.measuringString = .ok m') : m'.Fitting := by
  obtain ⟨_, _, done⟩ := bind_eq_ok done
  obtain ⟨o, _, done⟩ := bind_eq_ok done
  split at done
  · cases done
    exact fitting.replaced balanced 1 _
  · cases done

theorem joiningStrings (fitting : m.Fitting) (balanced : m.Balanced hand)
    (done : m.joiningStrings = .ok m') : m'.Fitting := by
  obtain ⟨_, _, done⟩ := bind_eq_ok done
  obtain ⟨strings, _, done⟩ := bind_eq_ok done
  cases done
  exact (fitting.discarded 2).pushedObject (balanced.discarded 2) trivial

theorem comparingStrings {equal : Bool} (fitting : m.Fitting) (balanced : m.Balanced hand)
    (done : m.comparingStrings equal = .ok m') : m'.Fitting := by
  obtain ⟨_, _, done⟩ := bind_eq_ok done
  obtain ⟨strings, _, done⟩ := bind_eq_ok done
  cases done
  exact fitting.replaced balanced 2 _

/-! ### Arrays -/

/-- Operands that were all read as elements fill an array that is made of them. -/
theorem array_of_readAll {elem : Ty} {count : Nat} {ws : List Value} (fitting : m.Fitting)
    (balanced : m.Balanced hand) (enough : count ≤ m.stack.length)
    (read : m.readAll (List.replicate count elem) (m.stack.take count).reverse = .ok ws) (o : Object) :
    Object.Fitting (m.heap.alloc o).2 (.array elem (m.stack.take count).reverse.toArray) := by
  have length : (m.stack.take count).length = count := by
    rw [List.length_take]
    omega
  obtain ⟨same, each⟩ := getElem?_readAll read (by simp [length])
  intro v member
  have operand : v ∈ (m.stack.take count).reverse := List.mem_toArray.1 member
  have held : v ∈ m.stack := List.mem_of_mem_take (List.mem_reverse.1 operand)
  -- the operand was read like all the others
  obtain ⟨i, at_i⟩ := List.getElem?_of_mem operand
  have inside : i < ws.length := by
    have := (List.getElem?_eq_some_iff.1 at_i).1
    simp only [List.length_reverse, length] at this
    simp only [List.length_replicate] at same
    omega
  obtain ⟨t, u, type, found, read⟩ := each i ws[i] (List.getElem?_eq_getElem inside)
  cases at_i.symm.trans found
  obtain rfl : elem = t := by
    rw [List.getElem?_replicate] at type
    split at type
    · exact Option.some.inj type
    · cases type
  exact ⟨fitting.stack v held,
    admits_alloc balanced.heap o (admits_of_read? balanced.heap read) (balanced.live_of_stack held)⟩

theorem makingArray {index count : Nat} (fitting : m.Fitting) (balanced : m.Balanced [])
    (done : m.makingArray index count = .ok m') : m'.Fitting := by
  obtain ⟨t, _, done⟩ := bind_eq_ok done
  split at done
  · cases done
  · next elem _ =>
    obtain ⟨_, need, done⟩ := bind_eq_ok done
    obtain ⟨numbers, read, done⟩ := bind_eq_ok done
    obtain ⟨_, _, done⟩ := bind_eq_ok done
    have enough := need_eq_ok.1 need
    split at done
    · cases done
      exact (fitting.discarded count).pushedObject (balanced.discarded count) trivial
    · cases done
      have filled := fitting.array_of_readAll balanced (by omega) read
      exact (fitting.dropped count).pushedObject (balanced.dropped count) (filled _)

theorem zeroArray_fitting {length : Nat} (h : Heap) (made : zeroArray t length = .ok o) :
    o.Fitting h := by
  cases t with
  | packed s =>
    cases made
    trivial
  | array elem =>
    cases made
    intro v member
    obtain ⟨-, rfl⟩ := Array.mem_replicate.1 member
    exact ⟨Value.narrow_zero elem.kind, .inl (Value.kind_ofRaw elem.kind 0)⟩
  | _ => cases made

theorem makingZeroArray {index : Nat} (fitting : m.Fitting) (balanced : m.Balanced [])
    (done : m.makingZeroArray index = .ok m') : m'.Fitting := by
  obtain ⟨t, _, done⟩ := bind_eq_ok done
  obtain ⟨_, _, done⟩ := bind_eq_ok done
  obtain ⟨length, _, done⟩ := bind_eq_ok done
  obtain ⟨_, _, done⟩ := bind_eq_ok done
  obtain ⟨o, made, done⟩ := bind_eq_ok done
  cases done
  exact (fitting.discarded 1).pushedObject (balanced.discarded 1) (zeroArray_fitting _ made)

theorem measuringArray (fitting : m.Fitting) (balanced : m.Balanced [])
    (done : m.measuringArray = .ok m') : m'.Fitting := by
  obtain ⟨_, _, done⟩ := bind_eq_ok done
  obtain ⟨o, _, done⟩ := bind_eq_ok done
  split at done
  · cases done
    exact fitting.replaced balanced 1 _
  · cases done

theorem readingElement (fitting : m.Fitting) (balanced : m.Balanced [])
    (done : m.readingElement = .ok m') : m'.Fitting := by
  obtain ⟨_, _, done⟩ := bind_eq_ok done
  obtain ⟨i, _, done⟩ := bind_eq_ok done
  obtain ⟨o, object, done⟩ := bind_eq_ok done
  obtain ⟨_, _, done⟩ := bind_eq_ok done
  obtain ⟨v, element, done⟩ := bind_eq_ok done
  cases done
  obtain ⟨b, _, found⟩ := objectAt_eq_ok object
  have live := balanced.live_element found (lookup_eq_ok element)
  exact (fitting.retain v).replaced (balanced.retain live) 2 v

theorem storingElement (fitting : m.Fitting) (balanced : m.Balanced [])
    (done : m.storingElement = .ok m') : m'.Fitting := by
  obtain ⟨_, _, done⟩ := bind_eq_ok done
  obtain ⟨i, _, done⟩ := bind_eq_ok done
  obtain ⟨a, address, done⟩ := bind_eq_ok done
  obtain ⟨o, object, done⟩ := bind_eq_ok done
  have found := get?_of_objectAt address object
  split at done
  · cases done
  · next elem array =>
    split at done
    · cases done
    · next number read =>
      obtain ⟨old, _, done⟩ := bind_eq_ok done
      cases done
      -- the new element was read as one, and the others were elements before
      have new : (o.setElement i (Exec.exchange o (m.peek 0) number old).1).Fitting m.heap := by
        cases o with
        | array elem' elems =>
          cases array
          intro v member
          rcases Array.mem_or_eq_of_mem_setIfInBounds member with member | rfl
          · exact fitting.objects a _ found v member
          · exact ⟨fitting.peek 0, admits_of_read? balanced.heap read⟩
        | packed p => trivial
        | _ => cases array
      have changed := (fitting.dropped 1).update (f := (·.setElement i _)) found (fun _ => rfl) new
      exact (changed.release _).discarded 2

/-! ### Structs -/

theorem makingStruct {index : Nat} (fitting : m.Fitting) (balanced : m.Balanced [])
    (done : m.makingStruct index = .ok m') : m'.Fitting := by
  obtain ⟨fields, _, done⟩ := bind_eq_ok done
  obtain ⟨_, need, done⟩ := bind_eq_ok done
  obtain ⟨values, read, done⟩ := bind_eq_ok done
  obtain ⟨_, _, done⟩ := bind_eq_ok done
  cases done
  have enough := need_eq_ok.1 need
  have taken := balanced.fields_taken (by omega) read
  exact ((fitting.dropped fields.length).releaseAll _).pushedObject taken trivial

theorem makingZeroStruct {index : Nat} (fitting : m.Fitting) (balanced : m.Balanced [])
    (done : m.makingZeroStruct index = .ok m') : m'.Fitting := by
  obtain ⟨fields, _, done⟩ := bind_eq_ok done
  obtain ⟨_, _, done⟩ := bind_eq_ok done
  cases done
  exact fitting.pushedObject balanced trivial

theorem readingField {field : Nat} (fitting : m.Fitting) (balanced : m.Balanced [])
    (done : m.readingField field = .ok m') : m'.Fitting := by
  obtain ⟨_, _, done⟩ := bind_eq_ok done
  obtain ⟨o, object, done⟩ := bind_eq_ok done
  obtain ⟨b, _, found⟩ := objectAt_eq_ok object
  split at done
  · obtain ⟨v, value, done⟩ := bind_eq_ok done
    cases done
    have live := balanced.live_field found (lookup_eq_ok value)
    exact (fitting.retain v).replaced (balanced.retain live) 1 v
  · cases done

theorem storingField {field : Nat} (fitting : m.Fitting) (done : m.storingField field = .ok m') :
    m'.Fitting := by
  obtain ⟨_, _, done⟩ := bind_eq_ok done
  obtain ⟨a, address, done⟩ := bind_eq_ok done
  obtain ⟨o, object, done⟩ := bind_eq_ok done
  have found := get?_of_objectAt address object
  split at done
  · obtain ⟨t, _, done⟩ := bind_eq_ok done
    obtain ⟨old, _, done⟩ := bind_eq_ok done
    split at done
    · cases done
    · next stored _ =>
      cases done
      have changed := (fitting.dropped 1).update (f := (·.setField field stored)) found (fun _ => rfl)
        trivial
      exact (changed.release _).discarded 1
  · cases done

/-! ### All instructions -/

theorem swapped (fitting : m.Fitting) :
    Fitting { m with stack := m.peek 1 :: m.peek 0 :: m.stack.drop 2 } := by
  apply fitting.withStack
  intro v member
  simp only [List.mem_cons] at member
  rcases member with rfl | rfl | member
  · exact fitting.peek 1
  · exact fitting.peek 0
  · exact fitting.stack v (List.mem_of_mem_drop member)

/-- An instruction that goes through leaves all objects fitting. -/
theorem effect {inst : Instruction} {size next : Nat} (fitting : m.Fitting) (balanced : m.Balanced [])
    (done : m.effect inst size next = .ok m') : m'.Fitting := by
  have succeeds := succeeds_of_effect done
  generalize inst.opcode = opcode at succeeds
  cases succeeds with
  | nop => exact fitting
  | drop enough => exact fitting.discarded 1
  | dup enough done => exact fitting.copied (fitting.peek 0) done
  | swap enough => exact fitting.swapped
  | select enough number choice =>
    refine ((fitting.dropped 3).release _).pushed ?_
    rcases choice with ⟨rfl, -⟩ | ⟨rfl, -⟩
    · exact fitting.peek 2
    · exact fitting.peek 1
  | br jump => exact fitting.jumped jump
  | brIf enough jump => exact (fitting.jumped jump).discarded 1
  | brIfNot enough => exact fitting.discarded 1
  | brTable enough listed jump => exact (fitting.jumped jump).discarded 1
  | call done => exact fitting.calling balanced done
  | ret done => exact fitting.returning done
  | globalGet found done => exact fitting.copied (fitting.globals _ _ found) done
  | globalSet enough => exact (fitting.dropped 1).setGlobal (fitting.peek 0) _
  | globalTee enough => exact (fitting.retain _).setGlobal (fitting.peek 0) _
  | localGet found done => exact fitting.copied (fitting.peek _) done
  | localSet found enough => exact (fitting.dropped 1).setPlace (fitting.peek 0) _
  | localTee found enough => exact (fitting.retain _).setPlace (fitting.peek 0) _
  | constGet found done => exact fitting.copied (fitting.constants _ (Array.mem_of_getElem? found)) done
  | refNull room => exact fitting.pushed rfl
  | const room => exact fitting.pushedRead balanced _
  | operation enough evaluated => exact fitting.replaced balanced _ _
  | stringLen done => exact fitting.measuringString balanced done
  | stringConcat done => exact fitting.joiningStrings balanced done
  | stringEq done => exact fitting.comparingStrings balanced done
  | stringNe done => exact fitting.comparingStrings balanced done
  | arrayNew done => exact fitting.makingArray balanced done
  | arrayNewDefault done => exact fitting.makingZeroArray balanced done
  | arrayLen done => exact fitting.measuringArray balanced done
  | arrayGet done => exact fitting.readingElement balanced done
  | arraySet done => exact fitting.storingElement balanced done
  | structNew done => exact fitting.makingStruct balanced done
  | structNewDefault done => exact fitting.makingZeroStruct balanced done
  | structGet done => exact fitting.readingField balanced done
  | structSet done => exact fitting.storingField done

/-- Whatever a turn comes to, objects stay fitting. -/
theorem turn {result : EStateM.Result Stop Machine Bool} (fitting : m.Fitting) (balanced : m.Balanced [])
    (turn : m.Turn result) : (leftBy result).Fitting := by
  cases turn with
  | idle none => exact fitting
  | undecoded frames inside decoded => exact fitting
  | stepped frames inside decoded done => exact (fitting.setIp _).effect (balanced.setIp _) done
  | failed frames inside decoded refused => exact fitting.setIp _
  | ended frames past => exact fitting.withFrames []
  | returned frames called past done => exact fitting.returning done
  | stuck frames called past refused => exact fitting

end Fitting

/-! ### All states -/

/-- An integer among the constants is loaded into a word if it has room there, and onto the heap if not. -/
theorem fitting_form {c : Constant} :
    (∀ v, c.form = .inl v → v.Narrow) ∧ ∀ o, c.form = .inr o → ∀ h, o.Fitting h := by
  cases c with
  | number s bits =>
    cases s with
    | i64 =>
      by_cases room : Value.fitsPayload (.ofNat 64 bits.toNat) = true
      · have word : (Constant.number .i64 bits).form = .inl (.i64 (.ofNat 64 bits.toNat)) := if_pos room
        rw [word]
        simpa [Value.Narrow] using room
      · have wide : (Constant.number .i64 bits).form = .inr (.int64 (.ofNat 64 bits.toNat)) := if_neg room
        rw [wide]
        simpa [Object.Fitting] using fun _ : Heap => room
    | _ =>
      refine ⟨fun v loaded => ?_, fun o loaded => by cases loaded⟩
      cases loaded
      exact Value.narrow_canonical (by simp [Value.ofRaw])
  | _ => simp [Constant.form, Object.Fitting]

theorem narrow_loadConstants {heap : Heap} {cs : List Constant} (member : v ∈ (loadConstants heap cs).1) :
    v.Narrow := by
  induction cs generalizing heap with
  | nil => cases member
  | cons c cs ih =>
    unfold loadConstants at member
    cases form : c.form with
    | inl w =>
      simp only [form, List.mem_cons] at member
      rcases member with rfl | member
      · exact fitting_form.1 v form
      · exact ih member
    | inr o =>
      simp only [form, List.mem_cons] at member
      rcases member with rfl | member
      · trivial
      · exact ih member

theorem fitting_load (p : Program) (o : Options) : (load p o).Fitting where
  stack v member := by cases member
  globals i v found := by simp [load] at found
  constants v member := narrow_loadConstants (List.mem_toArray.1 member)
  objects a object found := by
    rcases loadConstants_origin found with before | ⟨c, -, form⟩
    · rw [Heap.get?_empty] at before
      cases before
    · exact fitting_form.2 object form _

theorem fitting_started (fitting : m.Fitting) : m.started.Fitting := by
  unfold started
  split
  · exact fitting.withFrames _
  · exact fitting

theorem fitting_reset (fitting : m.Fitting) : m.reset.Fitting where
  stack v member := by cases member
  globals i v found := by simp [reset] at found
  constants := fitting.constants
  objects a o found :=
    (fitting.objects a o (Balanced.get?_of_reset found)).subset fun _ _ => Balanced.get?_of_reset

/-- In a program without host functions all objects are fitting, whatever was run. -/
theorem fitting_reachable {p : Program} {o : Options} (guest : ∀ c ∈ p.constants, c.isHost = false)
    (reached : Reachable p o m) : m.Fitting := by
  induction reached with
  | load => exact fitting_load p o
  | @run m fuel before ih =>
    have steady := steady_reachable guest before
    have stopped : Exec.Stops (fun m => m.Steady ∧ m.Fitting) (fun _ m => m.Steady ∧ m.Fitting)
        (Exec.run fuel m) := by
      apply Exec.run_invariant
      · rintro nested m ⟨steady, fitting⟩ addresses
        have turned : m.Turned (leftBy (Exec.turn nested m)) := ⟨addresses, nested, rfl⟩
        have turn := Exec.turn_cases nested steady.bounded steady.guest
        exact stops_of_leftBy ⟨turned.steady steady, fitting.turn steady.balanced turn⟩
      · intro _ _
        exact ⟨steady, ih⟩
      · exact ⟨steady_started steady, fitting_started ih⟩
    exact (leftBy_of_stops stopped fun _ _ both => both).2
  | reset before ih => exact fitting_reset ih

/-! ### Words -/

/-- The machine keeps the value in a word. -/
inductive Stored (m : Machine) (v : Value) : Prop where
  | stack (member : v ∈ m.stack)
  | global {i : Nat} (found : m.globals.get? i = some v)
  | constant {i : Nat} (found : m.constants[i]? = some v)
  | element {a i : Nat} {elem : Ty} {elems : Array Value} (found : m.heap.get? a = some (.array elem elems))
    (at_i : elems[i]? = some v)

theorem Fitting.narrow (fitting : m.Fitting) (stored : m.Stored v) : v.Narrow := by
  cases stored with
  | stack member => exact fitting.stack v member
  | global found => exact fitting.globals _ v found
  | constant found => exact fitting.constants v (Array.mem_of_getElem? found)
  | element found at_i => exact (fitting.objects _ _ found v (Array.mem_of_getElem? at_i)).1

theorem Balanced.live_of_stored (balanced : m.Balanced hand) (stored : m.Stored v) : m.Live v := by
  cases stored with
  | stack member => exact balanced.live_of_stack member
  | global found => exact balanced.live_of_global found
  | constant found => exact balanced.live_of_constant found
  | element found at_i => exact balanced.live_element found at_i

/-- Live addresses lie within the heap, so they are payloads while the heap is no larger than a payload can
tell. -/
theorem packable_of_live (narrow : v.Narrow) (live : m.Live v) (addresses : m.heap.size ≤ Word.payloadSize) :
    v.Packable := by
  cases v with
  | i64 n => exact narrow
  | ref a =>
    rcases Nat.eq_zero_or_pos a with rfl | pos
    · exact Nat.two_pow_pos Value.payloadBits
    · obtain ⟨o, found⟩ := live a pos rfl
      exact Nat.lt_of_lt_of_le (Heap.lt_size_of_get? found) addresses
  | _ => trivial

/-- In a program without host functions, whatever was run, a value that the machine keeps in a word is the one
that the word stands for, and two such values are the same exactly if their words are. Addresses have to
fit words, which a run sees to before every turn. -/
theorem stored_in_words {p : Program} {o : Options} (guest : ∀ c ∈ p.constants, c.isHost = false)
    (reached : Reachable p o m) (addresses : m.heap.size ≤ Word.payloadSize) :
    (∀ v, m.Stored v → (Word.ofValue v).value = v) ∧
      ∀ v v', m.Stored v → m.Stored v' → (Word.ofValue v = Word.ofValue v' ↔ v = v') := by
  have balanced := (steady_reachable guest reached).balanced
  have fitting := fitting_reachable guest reached
  have unpacked {v : Value} (stored : m.Stored v) : (Word.ofValue v).value = v := by
    have narrow := fitting.narrow stored
    have packable := packable_of_live narrow (balanced.live_of_stored stored) addresses
    rw [Word.value_ofValue packable]
    cases v with
    | i64 n => rfl
    | _ => exact narrow
  refine ⟨fun v stored => unpacked stored, fun v v' stored stored' => ⟨fun same => ?_, ?_⟩⟩
  · rw [← unpacked stored, same, unpacked stored']
  · rintro rfl
    rfl

end Machine

end StackVM
