import StackVM.Proofs.Machine.Integers
import StackVM.Proofs.Machine.Renewal

/-!
# Places that keep integers

A local, a global, an element of an array and a field of a struct each keep an integer in a form of their
own: as a value that is a word or a reference, or as eight bytes. Main statements: a store leaves its operand
or the integer that it denotes in the place (`content_stored`, `content_made`), the integer stays there as
long as the place keeps its value (`Preserves.integerAt`), and a load pushes a value that denotes it
(`loaded`).
-/

namespace StackVM

/-- Where a value can be stored. -/
inductive Place where
  /-- A local, by its height on the stack. -/
  | slot (height : Nat)
  | global (index : Nat)
  /-- An element of the array at an address. -/
  | element (address index : Nat)
  /-- A field of the struct at an address. -/
  | field (address index : Nat)

/-- The number of operands that an instruction takes to know the place. -/
def Place.operands : Place → Nat
  | .slot _ | .global _ => 0
  | .element _ _ => 2
  | .field _ _ => 1

/-- Instructions that store into a place of such a sort. -/
def Opcode.Stores (opcode : Opcode) : Place → Prop
  | .slot _ => opcode = .localSet ∨ opcode = .localTee
  | .global _ => opcode = .globalSet ∨ opcode = .globalTee
  | .element _ _ => opcode = .arraySet
  | .field _ _ => opcode = .structSet

/-- Instructions that load from a place of such a sort. -/
def Opcode.Loads (opcode : Opcode) : Place → Prop
  | .slot _ => opcode = .localGet
  | .global _ => opcode = .globalGet
  | .element _ _ => opcode = .arrayGet
  | .field _ _ => opcode = .structGet

/-- Instructions that make the array or the struct at an address of their operands, and the place of operand
`i` in it. -/
def Opcode.Makes (opcode : Opcode) (a i : Nat) : Place → Prop
  | .element b j => opcode = .arrayNew ∧ b = a ∧ j = i
  | .field b j => opcode = .structNew ∧ b = a ∧ j = i
  | _ => False

/-! ### What was written can be read -/

/-- The bits of an integer are all there in an array. -/
theorem Scalar.ofNat_bits (k : BitVec 64) :
    BitVec.ofNat 64 (BitVec.ofNat (8 * Scalar.width .i64) k.toNat).toNat = k := by
  simp [Scalar.width]

theorem Packed.get?_set {p : Packed} {i : Nat} {k : BitVec 64} (wide : p.scalar = .i64) (inside : i < p.size) :
    (p.set i (.i64 k)).get? i = some (.i64 k) := by
  obtain ⟨scalar, elems⟩ := p
  subst wide
  have bound : i < elems.size := inside
  have stored : (elems.setIfInBounds i (.ofNat _ k.toNat))[i]? = some (.ofNat _ k.toNat) := by
    simp only [Array.getElem?_setIfInBounds, bound, if_true]
  exact (congrArg (Option.map _) stored).trans (congrArg (fun n => some (Value.i64 n)) (Scalar.ofNat_bits k))

theorem Packed.get?_ofValues {vs : List Value} {i : Nat} {k : BitVec 64} (value : vs[i]? = some (.i64 k)) :
    (Packed.ofValues .i64 vs).get? i = some (.i64 k) := by
  have stored : (vs.map fun v => BitVec.ofNat (8 * Scalar.width .i64) v.raw).toArray[i]? =
      some (.ofNat _ k.toNat) := by
    rw [List.getElem?_toArray, List.getElem?_map, value]
    rfl
  exact (congrArg (Option.map _) stored).trans (congrArg (fun n => some (Value.i64 n)) (Scalar.ofNat_bits k))

namespace Machine

variable {m m' : Machine} {inst : Instruction} {place : Place} {v w : Value} {k : BitVec 64}
  {size next depth i a : Nat}

/-- The instruction, with its operands from a depth on, names the place. -/
def Designates (m : Machine) (inst : Instruction) (depth : Nat) : Place → Prop
  | .slot s => m.localAt (inst.operand 0) = .ok s
  | .global i => inst.operand 0 = i
  | .element a i => m.indexAt depth = .ok i ∧ m.addressAt (depth + 1) = .ok a
  | .field a i => inst.operand 0 = i ∧ m.addressAt depth = .ok a

/-- The value in a place. A slot above the floor is no local. -/
def content (m : Machine) : Place → Option Value
  | .slot s => if s < m.floor then m.stack.reverse[s]? else none
  | .global i => m.globals.get? i
  | .element a i => (m.heap.get? a).bind (·.element? i)
  | .field a i =>
    match m.heap.get? a with
    | some (.struct r) => r.get? i
    | _ => none

/-- The integer that is kept in a place. -/
def integerAt (m : Machine) (place : Place) : Option (BitVec 64) := (m.content place).bind m.int64?

/-- The array or the struct that the place is in, if it is in one, is on the heap. -/
def Has (m : Machine) : Place → Prop
  | .slot _ | .global _ => True
  | .element a _ | .field a _ => (m.heap.get? a).isSome

/-- The type of the place, where it has one, is that of 64-bit integers. -/
def Takes (m : Machine) : Place → Prop
  | .slot _ | .global _ => True
  | .element a i => ∃ o elem, m.heap.get? a = some o ∧ o.ty.elem? = some elem ∧
      elem.kind = .scalar .i64 ∧ (o.element? i).isSome
  | .field a i => ∃ r t, m.heap.get? a = some (.struct r) ∧ r.fields[i]? = some t ∧ t.kind = .scalar .i64

/-! ### What is held in a place -/

/-- A place holds its reference besides the top of the stack. -/
theorem holders_of_content (found : m.content place = some (.ref a)) (pos : 0 < a) :
    (.ref a ∈ m.stack ∨ .ref a ∈ m.globals.values ∨ a ∈ m.heap.inner) ∧
      ∀ rest, m.stack = .ref a :: rest → m.floor ≤ rest.length → 1 < m.holders a := by
  -- outside the stack, the place counts beside the top
  have beside (held : .ref a ∈ m.globals.values ∨ a ∈ m.heap.inner) (rest : List Value)
      (top : m.stack = .ref a :: rest) : 1 < m.holders a := by
    have first : 0 < m.stack.count (.ref a) := List.count_pos_iff.2 (by simp [top])
    simp only [holders, Machine.held]
    rcases held with held | held
    · have := List.count_pos_iff.2 held
      omega
    · have := List.count_pos_iff.2 held
      omega
  have inside {b : Nat} {o : Object} (at_b : m.heap.get? b = some o) (child : a ∈ o.children) :
      a ∈ m.heap.inner := Heap.child_mem_inner at_b child
  cases place with
  | slot s =>
    simp only [content] at found
    split at found
    · next below =>
      refine ⟨.inl (List.mem_reverse.1 (List.mem_of_getElem? found)), fun rest top deep => ?_⟩
      -- the slot lies below the top
      have lower : .ref a ∈ rest := by
        rw [top, List.reverse_cons, List.getElem?_append_left (by rw [List.length_reverse]; omega)] at found
        exact List.mem_reverse.1 (List.mem_of_getElem? found)
      have := List.count_pos_iff.2 lower
      simp only [holders, Machine.held, top, List.count_cons_self]
      omega
    · cases found
  | global i =>
    have held := Table.mem_values_of_get? found
    exact ⟨.inr (.inl held), fun rest top _ => beside (.inl held) rest top⟩
  | element b i =>
    obtain ⟨o, at_b, element⟩ := Option.bind_eq_some_iff.1 found
    have held := inside at_b (Object.child_of_element pos element)
    exact ⟨.inr (.inr held), fun rest top _ => beside (.inr held) rest top⟩
  | field b i =>
    simp only [content] at found
    split at found
    · next r at_b =>
      have held := inside at_b (o := .struct r) (Record.address_of_field pos found)
      exact ⟨.inr (.inr held), fun rest top _ => beside (.inr held) rest top⟩
    · cases found

/-- What is in a place is live. -/
theorem live_of_content (balanced : m.Balanced []) (found : m.content place = some v) : m.Live v := by
  apply balanced.live
  rintro a pos rfl
  obtain ⟨held, -⟩ := holders_of_content found pos
  simp only [holders, Machine.held]
  rcases held with held | held | held
  · have := List.count_pos_iff.2 held
    omega
  · have := List.count_pos_iff.2 held
    omega
  · have := List.count_pos_iff.2 held
    omega

/-! ### Places that keep their value -/

/-- An integer that a place refers to afterwards is the one that was there before. -/
theorem int64?_of_content (renews : m'.Renews m.heap) (wf : m.heap.WellFormed) (balanced : m'.Balanced [])
    (found : m'.content place = some v) (denotes : m.int64? v = some k) : m'.int64? v = some k := by
  cases v with
  | ref a =>
    simp only [int64?] at denotes ⊢
    split at denotes
    · next k' at_a =>
      have pos := wf.pos_of_get? at_a
      obtain ⟨o, at_a'⟩ := live_of_content balanced found a pos rfl
      obtain ⟨old, before, like⟩ := renews.inherited balanced (holders_of_content found pos).2 at_a'
      cases at_a.symm.trans before
      rw [at_a', Object.eq_int64_of_blank like]
      exact denotes
    · cases denotes
  | _ => exact denotes

/-- The second machine comes from the first by turns during which the place keeps its value. -/
inductive Preserves (place : Place) (m : Machine) : Machine → Prop where
  | refl : Preserves place m m
  | turn {m' m'' : Machine} (before : Preserves place m m') (turned : m'.Turned m'')
    (same : m''.content place = m'.content place) : Preserves place m m''

theorem Preserves.tidy (preserves : m.Preserves place m') (tidy : m.Tidy) : m'.Tidy := by
  induction preserves with
  | refl => exact tidy
  | turn _ turned _ ih => exact turned.tidy ih

/-- As long as a place keeps its value it keeps its integer, though slots of the heap are reused. -/
theorem Preserves.integerAt (preserves : m.Preserves place m') (tidy : m.Tidy)
    (kept : m.integerAt place = some k) : m'.integerAt place = some k := by
  induction preserves with
  | refl => exact kept
  | @turn m' m'' before turned same ih =>
    have tidy := before.tidy tidy
    obtain ⟨v, found, denotes⟩ := Option.bind_eq_some_iff.1 ih
    have found' := same.trans found
    have balanced := (turned.tidy tidy).steady.balanced
    have denotes' := int64?_of_content (turned.renews tidy) tidy.steady.balanced.heap balanced found' denotes
    rw [Machine.integerAt, found']
    exact denotes'

/-! ### Stores -/

/-- What denotes an integer is read as this integer, or as itself where references are kept. -/
theorem read?_of_integer {kind : Kind} (denotes : m.int64? v = some k) (read : m.read? kind v = some w) :
    (kind = .scalar .i64 ∧ w = .i64 k) ∨ (kind = .ref ∧ w = v) := by
  by_cases wide : kind = .scalar .i64
  · subst wide
    cases (read?_integer denotes).symm.trans read
    exact .inl ⟨rfl, rfl⟩
  · rw [read?, if_neg wide] at read
    split at read
    · next same =>
      cases read
      cases v with
      | i64 n => exact absurd same.symm wide
      | ref a => exact .inr ⟨same.symm, rfl⟩
      | _ => cases denotes
    · cases read

theorem content_setPlace {s : Nat} (below : s < m.floor) (deep : m.floor ≤ m.stack.length) (v : Value) :
    (m.setPlace s v).content (.slot s) = some v := by
  change (if s < m.floor then (m.stack.set (m.fromTop s) v).reverse[s]? else none) = some v
  have inside : s < (m.stack.set (m.fromTop s) v).length := by
    rw [List.length_set]
    omega
  rw [if_pos below, List.getElem?_reverse inside, List.length_set]
  apply List.getElem?_set_self
  unfold fromTop
  omega

theorem content_setGlobal (m : Machine) (i : Nat) (v : Value) :
    (m.setGlobal i v).content (.global i) = some v := by
  obtain ⟨h, stored⟩ := setGlobal_eq m i v
  rw [stored]
  simp [content]

theorem content_storedElement (names : m.Designates inst 1 (.element a i))
    (denotes : m.int64? (m.peek 0) = some k) (done : m.storingElement = .ok m')
    (remains : m'.Has (.element a i)) :
    m'.content (.element a i) = some (m.peek 0) ∨ m'.content (.element a i) = some (.i64 k) := by
  obtain ⟨index, address⟩ := names
  obtain ⟨_, _, done⟩ := bind_eq_ok done
  obtain ⟨i', index', done⟩ := bind_eq_ok done
  obtain ⟨a', address', done⟩ := bind_eq_ok done
  obtain ⟨o, object, done⟩ := bind_eq_ok done
  cases index.symm.trans index'
  cases address.symm.trans address'
  have found := get?_of_objectAt address object
  split at done
  · cases done
  · next elem array =>
    split at done
    · cases done
    · next number read =>
      obtain ⟨old, element, done⟩ := bind_eq_ok done
      have element := lookup_eq_ok element
      cases done
      obtain ⟨o', survives⟩ := Option.isSome_iff_exists.1 remains
      -- the array has changed in the element, and the releases have left it
      have stored := Heap.get?_of_releaseValue (Heap.get?_of_releaseValues survives)
      rw [Heap.get?_update, if_pos rfl, found, Option.map_some, Option.some.injEq] at stored
      simp only [content, survives, Option.bind_some]
      cases o with
      | packed p =>
        cases array
        rcases read?_of_integer denotes read with ⟨kind, rfl⟩ | ⟨kind, -⟩
        · refine .inr ?_
          rw [← stored]
          have inside : i < p.size := by
            obtain ⟨bits, at_i, -⟩ := Option.map_eq_some_iff.1 element
            exact (Array.getElem?_eq_some_iff.1 at_i).1
          exact Packed.get?_set (Kind.scalar.inj kind) inside
        · cases kind
      | array elem' elems =>
        refine .inl ?_
        rw [← stored]
        have inside : i < elems.size := (Array.getElem?_eq_some_iff.1 element).1
        simp [Object.setElement, Object.element?, inside]
      | _ => cases array

theorem content_storedField (balanced : m.Balanced []) (addresses : m.Addressable)
    (names : m.Designates inst 1 (.field a i)) (denotes : m.int64? (m.peek 0) = some k)
    (done : m.storingField (inst.operand 0) = .ok m') (remains : m'.Has (.field a i)) :
    m'.content (.field a i) = some (m.peek 0) ∨ m'.content (.field a i) = some (.i64 k) := by
  obtain ⟨rfl, address⟩ := names
  obtain ⟨_, _, done⟩ := bind_eq_ok done
  obtain ⟨a', address', done⟩ := bind_eq_ok done
  obtain ⟨o, object, done⟩ := bind_eq_ok done
  cases address.symm.trans address'
  have found := get?_of_objectAt address object
  split at done
  · next r =>
    obtain ⟨t, at_field, done⟩ := bind_eq_ok done
    obtain ⟨old, _, done⟩ := bind_eq_ok done
    split at done
    · cases done
    · next stored read =>
      cases done
      have at_field := lookup_eq_ok at_field
      have wf : r.WellFormed := balanced.sound a _ found
      have fits := addresses.storable (balanced.live_peek 0) read
      obtain ⟨o', survives⟩ := Option.isSome_iff_exists.1 remains
      -- the struct has changed in the field, and the releases have left it
      have changed := Heap.get?_of_releaseValue (Heap.get?_of_releaseValues survives)
      rw [Heap.get?_update, if_pos rfl, found, Option.map_some, Option.some.injEq] at changed
      have struct : o' = .struct (r.set (inst.operand 0) stored) := changed.symm
      simp only [content, survives, struct]
      rw [Record.get?_set_self wf at_field (kind_of_read? read) fits]
      rcases read?_of_integer denotes read with ⟨-, rfl⟩ | ⟨-, rfl⟩
      · exact .inr rfl
      · exact .inl rfl
  · cases done

/-- A store leaves its operand in the place, or the integer that it denotes. -/
theorem content_stored (balanced : m.Balanced []) (addresses : m.Addressable)
    (deep : m.floor ≤ m.stack.length) (stores : inst.opcode.Stores place)
    (names : m.Designates inst 1 place) (denotes : m.int64? (m.peek 0) = some k)
    (done : m.effect inst size next = .ok m') (remains : m'.Has place) :
    m'.content place = some (m.peek 0) ∨ m'.content place = some (.i64 k) := by
  unfold effect at done
  cases place with
  | slot s =>
    have below := lt_floor_of_localAt names
    rcases stores with opcode | opcode <;> rw [opcode] at done
    · obtain ⟨s', here, done⟩ := bind_eq_ok done
      obtain ⟨_, need, done⟩ := bind_eq_ok done
      cases names.symm.trans here
      cases done
      exact .inl (content_setPlace (m := m.dropped 1) below (floor_dropped need) _)
    · obtain ⟨s', here, done⟩ := bind_eq_ok done
      obtain ⟨_, _, done⟩ := bind_eq_ok done
      cases names.symm.trans here
      cases done
      exact .inl (content_setPlace (m := m.retain (m.peek 0)) below deep _)
  | global i =>
    cases names
    rcases stores with opcode | opcode <;> rw [opcode] at done
    · obtain ⟨_, _, done⟩ := bind_eq_ok done
      cases done
      exact .inl (content_setGlobal _ _ _)
    · obtain ⟨_, _, done⟩ := bind_eq_ok done
      cases done
      exact .inl (content_setGlobal _ _ _)
  | element a i =>
    rw [stores] at done
    exact content_storedElement names denotes done remains
  | field a i =>
    rw [stores] at done
    exact content_storedField balanced addresses names denotes done remains

/-! ### New arrays and structs -/

/-- The integer that an operand denotes is read where integers are asked for, and the operand itself where
references are. -/
theorem integer_of_readAll {ts : List Ty} {vs ws : List Value} (read : m.readAll ts vs = .ok ws)
    (length : ts.length = vs.length) (operand : vs[i]? = some v) (denotes : m.int64? v = some k) :
    ∃ t, ts[i]? = some t ∧
      ((t.kind = .scalar .i64 ∧ ws[i]? = some (.i64 k)) ∨ (t.kind = .ref ∧ ws[i]? = some v)) := by
  obtain ⟨same, each⟩ := getElem?_readAll read (Nat.le_of_eq length)
  have inside : i < ws.length := by
    rw [same, length]
    exact (List.getElem?_eq_some_iff.1 operand).1
  obtain ⟨t, v', at_i, operand', read⟩ := each i _ (List.getElem?_eq_getElem inside)
  cases operand.symm.trans operand'
  refine ⟨t, at_i, ?_⟩
  rw [List.getElem?_eq_getElem inside]
  rcases read?_of_integer denotes read with ⟨kind, eq⟩ | ⟨kind, eq⟩
  · exact .inl ⟨kind, congrArg some eq⟩
  · exact .inr ⟨kind, congrArg some eq⟩

/-- The object that was pushed is the one at the address on top. -/
theorem get?_pushedObject {o : Object} (wf : m.heap.WellFormed)
    (top : (m.pushedObject o).stack.head? = some (.ref a)) : (m.pushedObject o).heap.get? a = some o := by
  cases Option.some.inj top
  change (m.heap.alloc o).2.get? (m.heap.alloc o).1 = some o
  rw [wf.get?_alloc, if_pos rfl]

theorem content_makingArray {index count : Nat} (wf : m.heap.WellFormed)
    (operand : (m.stack.take count).reverse[i]? = some v) (denotes : m.int64? v = some k)
    (done : m.makingArray index count = .ok m') (top : m'.stack.head? = some (.ref a)) :
    m'.content (.element a i) = some v ∨ m'.content (.element a i) = some (.i64 k) := by
  obtain ⟨t, _, done⟩ := bind_eq_ok done
  split at done
  · cases done
  · next elem array =>
    obtain ⟨_, need, done⟩ := bind_eq_ok done
    obtain ⟨numbers, read, done⟩ := bind_eq_ok done
    obtain ⟨_, _, done⟩ := bind_eq_ok done
    have enough := need_eq_ok.1 need
    have length : (List.replicate count elem).length = (m.stack.take count).reverse.length := by
      rw [List.length_replicate, List.length_reverse, List.length_take]
      omega
    obtain ⟨t', at_i, value⟩ := integer_of_readAll read length operand denotes
    split at done
    · cases done
      cases array
      cases List.eq_of_mem_replicate (List.mem_of_getElem? at_i)
      rw [content, get?_pushedObject (wf.releaseValues _) top]
      rcases value with ⟨kind, number⟩ | ⟨kind, -⟩
      · cases Kind.scalar.inj kind
        exact .inr (Packed.get?_ofValues number)
      · cases kind
    · cases done
      rw [content, @get?_pushedObject (m.dropped count) a _ wf top]
      exact .inl ((List.getElem?_toArray ..).trans operand)

theorem content_makingStruct (balanced : m.Balanced []) (addresses : m.Addressable)
    (operand : (m.stack.take (inst.takes m.program.types)).reverse[i]? = some v)
    (denotes : m.int64? v = some k) (opcode : inst.opcode = .structNew)
    (done : m.makingStruct (inst.operand 0) = .ok m') (top : m'.stack.head? = some (.ref a)) :
    m'.content (.field a i) = some v ∨ m'.content (.field a i) = some (.i64 k) := by
  obtain ⟨fields, found, done⟩ := bind_eq_ok done
  obtain ⟨_, need, done⟩ := bind_eq_ok done
  obtain ⟨values, read, done⟩ := bind_eq_ok done
  obtain ⟨_, _, done⟩ := bind_eq_ok done
  have enough := need_eq_ok.1 need
  cases done
  have takes : inst.takes m.program.types = fields.length := by
    simp only [Instruction.takes, opcode, structFields_eq_ok found]
  rw [takes] at operand
  have length : fields.length = (m.stack.take fields.length).reverse.length := by
    rw [List.length_reverse, List.length_take]
    omega
  obtain ⟨t, at_i, value⟩ := integer_of_readAll read length operand denotes
  obtain ⟨wf, -, stored⟩ := balanced.record_of_readAll addresses (by omega) read
  have taken := (balanced.fields_taken (by omega) read).heap
  rw [content, get?_pushedObject taken top]
  simp only [← Record.getElem?_values wf, stored]
  rcases value with ⟨-, number⟩ | ⟨-, reference⟩
  · exact .inr number
  · exact .inl reference

/-- A new array or struct holds the operands of which it was made, or the integers that they denote. -/
theorem content_made (balanced : m.Balanced []) (addresses : m.Addressable)
    (makes : inst.opcode.Makes a i place)
    (operand : (m.stack.take (inst.takes m.program.types)).reverse[i]? = some v)
    (denotes : m.int64? v = some k) (done : m.effect inst size next = .ok m')
    (top : m'.stack.head? = some (.ref a)) :
    m'.content place = some v ∨ m'.content place = some (.i64 k) := by
  unfold effect at done
  cases place with
  | slot s => cases makes
  | global i => cases makes
  | element b j =>
    obtain ⟨opcode, rfl, rfl⟩ := makes
    have takes : inst.takes m.program.types = inst.operand 1 := by simp only [Instruction.takes, opcode]
    rw [takes] at operand
    rw [opcode] at done
    exact content_makingArray balanced.heap operand denotes done top
  | field b j =>
    obtain ⟨opcode, rfl, rfl⟩ := makes
    rw [opcode] at done
    exact content_makingStruct balanced addresses operand denotes opcode done top

/-! ### Loads -/

/-- A value that is pushed when it was read denotes what it denoted. -/
theorem replaced_denotes (wf : m.heap.WellFormed) (n : Nat) (denotes : m.int64? v = some k)
    (balanced : (m.replaced n v).Balanced []) :
    ∃ r, (m.replaced n v).stack = r :: m.stack.drop n ∧ (m.replaced n v).int64? r = some k := by
  cases v with
  | i64 k' =>
    cases denotes
    have number : (Value.i64 k).kind ≠ .ref := by simp [Value.kind]
    obtain ⟨r, top, read, -⟩ := replaced_result wf number n
    refine ⟨r, top, ?_⟩
    simpa [read?, Value.kind, Value.canonical] using read
  | ref a =>
    have top : (m.replaced n (.ref a)).stack = .ref a :: m.stack.drop n := rfl
    refine ⟨.ref a, top, ?_⟩
    apply int64?_of_live (fun _ _ => Heap.get?_of_releaseValues) wf _ denotes
    apply balanced.live_of_stack
    rw [top]
    exact List.mem_cons_self
  | _ => cases denotes

/-- A retained value denotes what it denoted. -/
theorem int64?_retain (m : Machine) (v w : Value) : (m.retain v).int64? w = m.int64? w := by
  have same (a : Nat) : (m.retain v).heap.get? a = m.heap.get? a := Heap.get?_retainValues m.heap [v] a
  cases w <;> simp only [int64?, same]

theorem loaded_copy (balanced : m'.Balanced []) (denotes : m.int64? v = some k)
    (done : m.copied v = .ok m') : ∃ r, m'.stack = r :: m.stack ∧ m'.int64? r = some k := by
  obtain ⟨_, _, done⟩ := bind_eq_ok done
  cases done
  refine ⟨v, rfl, ?_⟩
  rw [← int64?_retain m v] at denotes
  exact denotes

/-- A load pushes a value that denotes the integer in the place. -/
theorem loaded (balanced : m.Balanced []) (after : m'.Balanced []) (deep : m.floor ≤ m.stack.length)
    (loads : inst.opcode.Loads place) (names : m.Designates inst 0 place)
    (kept : m.integerAt place = some k) (done : m.effect inst size next = .ok m') :
    ∃ r, m'.stack = r :: m.stack.drop place.operands ∧ m'.int64? r = some k := by
  obtain ⟨v, found, denotes⟩ := Option.bind_eq_some_iff.1 kept
  unfold effect at done
  cases place with
  | slot s =>
    rw [show inst.opcode = .localGet from loads] at done
    obtain ⟨s', here, done⟩ := bind_eq_ok done
    cases names.symm.trans here
    have below := lt_floor_of_localAt here
    have inside : s < m.stack.length := by omega
    -- the slot counted from the bottom is the one counted from the top
    have value : m.peek (m.fromTop s) = v := by
      simp only [content, below, if_true, List.getElem?_reverse inside] at found
      rw [peek, fromTop, found]
      rfl
    exact loaded_copy after denotes (value ▸ done)
  | global i =>
    rw [show inst.opcode = .globalGet from loads] at done
    obtain ⟨v', here, done⟩ := bind_eq_ok done
    cases names
    cases found.symm.trans (lookup_eq_ok here)
    exact loaded_copy after denotes done
  | element a i =>
    rw [show inst.opcode = .arrayGet from loads] at done
    obtain ⟨index, address⟩ := names
    obtain ⟨_, _, done⟩ := bind_eq_ok done
    obtain ⟨i', index', done⟩ := bind_eq_ok done
    obtain ⟨o, object, done⟩ := bind_eq_ok done
    obtain ⟨_, _, done⟩ := bind_eq_ok done
    obtain ⟨v', element, done⟩ := bind_eq_ok done
    cases index.symm.trans index'
    have at_a := get?_of_objectAt address object
    have element := lookup_eq_ok element
    simp only [content, at_a, Option.bind_some] at found
    cases found.symm.trans element
    cases done
    have retained := balanced.retain (balanced.live_element at_a element)
    exact replaced_denotes retained.heap 2 ((int64?_retain m v v).trans denotes) after
  | field a i =>
    rw [show inst.opcode = .structGet from loads] at done
    obtain ⟨rfl, address⟩ := names
    obtain ⟨_, _, done⟩ := bind_eq_ok done
    obtain ⟨o, object, done⟩ := bind_eq_ok done
    have at_a := get?_of_objectAt address object
    simp only [content, at_a] at found
    cases o with
    | struct r =>
      obtain ⟨v', value, done⟩ := bind_eq_ok done
      have value := lookup_eq_ok value
      cases found.symm.trans value
      cases done
      have retained := balanced.retain (balanced.live_field at_a value)
      exact replaced_denotes retained.heap 1 ((int64?_retain m v v).trans denotes) after
    | _ => cases found

/-! ### Stores and loads go through -/

theorem objectAt_of_address {depth a : Nat} {o : Object} (address : m.addressAt depth = .ok a)
    (found : m.heap.get? a = some o) : m.objectAt depth = .ok o := by
  simp only [objectAt, address, bind, Except.bind, found]

/-- With its operands and room for the result, a load from a place that keeps an integer goes through. -/
theorem load_goes (loads : inst.opcode.Loads place) (names : m.Designates inst 0 place)
    (found : m.content place = some v) (enough : m.floor + place.operands ≤ m.stack.length)
    (room : m.stack.length < m.options.stackSize + place.operands) :
    ∃ m', m.effect inst size next = .ok m' := by
  unfold effect
  cases place with
  | slot s =>
    have free : m.room 1 = .ok () := room_eq_ok.2 room
    rw [show inst.opcode = .localGet from loads]
    simp only [show m.localAt (inst.operand 0) = .ok s from names, copied, free, bind, Except.bind]
    exact ⟨_, rfl⟩
  | global i =>
    have free : m.room 1 = .ok () := room_eq_ok.2 room
    cases names
    have found : m.globals.get? (inst.operand 0) = some v := found
    rw [show inst.opcode = .globalGet from loads]
    simp only [found, lookup, copied, free, bind, Except.bind]
    exact ⟨_, rfl⟩
  | element a i =>
    obtain ⟨index, address⟩ := names
    obtain ⟨o, at_a, element⟩ := Option.bind_eq_some_iff.1 found
    have need : m.need 2 = .ok () := need_eq_ok.2 enough
    have array : reject o.length?.isNone .typeMismatch = .ok () := by
      cases o <;> first | rfl | cases element
    rw [show inst.opcode = .arrayGet from loads]
    simp only [readingElement, need, index, objectAt_of_address address at_a, array, element, lookup, bind,
      Except.bind]
    exact ⟨_, rfl⟩
  | field a i =>
    obtain ⟨rfl, address⟩ := names
    simp only [content] at found
    split at found
    · next r at_a =>
      have need : m.need 1 = .ok () := need_eq_ok.2 enough
      rw [show inst.opcode = .structGet from loads]
      simp only [readingField, need, objectAt_of_address address at_a, found, lookup, bind, Except.bind]
      exact ⟨_, rfl⟩
    · cases found

/-- With its operands, a store of an integer into a place that takes integers goes through. -/
theorem store_goes (balanced : m.Balanced []) (stores : inst.opcode.Stores place) (names : m.Designates inst 1 place)
    (denotes : m.int64? (m.peek 0) = some k) (takes : m.Takes place)
    (enough : m.floor + (place.operands + 1) ≤ m.stack.length) :
    ∃ m', m.effect inst size next = .ok m' := by
  have need : m.need (place.operands + 1) = .ok () := need_eq_ok.2 enough
  unfold effect
  cases place with
  | slot s =>
    have need : m.need 1 = .ok () := need
    have here : m.localAt (inst.operand 0) = .ok s := names
    rcases stores with opcode | opcode
    · rw [opcode]
      simp only [here, need, bind, Except.bind]
      exact ⟨_, rfl⟩
    · rw [opcode]
      simp only [here, need, bind, Except.bind]
      exact ⟨_, rfl⟩
  | global i =>
    have need : m.need 1 = .ok () := need
    rcases stores with opcode | opcode
    · rw [opcode]
      simp only [need, bind, Except.bind]
      exact ⟨_, rfl⟩
    · rw [opcode]
      simp only [need, bind, Except.bind]
      exact ⟨_, rfl⟩
  | element a i =>
    have need : m.need 3 = .ok () := need
    obtain ⟨index, address⟩ := names
    obtain ⟨o, elem, at_a, array, wide, element⟩ := takes
    obtain ⟨old, element⟩ := Option.isSome_iff_exists.1 element
    rw [show inst.opcode = .arraySet from stores]
    simp only [storingElement, need, index, address, objectAt_of_address address at_a, array, wide,
      read?_integer denotes, element, lookup, bind, Except.bind]
    exact ⟨_, rfl⟩
  | field a i =>
    obtain ⟨rfl, address⟩ := names
    have need : m.need 2 = .ok () := need
    obtain ⟨r, t, at_a, at_field, wide⟩ := takes
    have inside : inst.operand 0 < r.fields.length := (List.getElem?_eq_some_iff.1 at_field).1
    obtain ⟨old, value⟩ := Option.isSome_iff_exists.1 ((Record.get?_isSome (balanced.sound a _ at_a) _).2 inside)
    rw [show inst.opcode = .structSet from stores]
    simp only [storingField, need, address, objectAt_of_address address at_a, at_field, value, wide,
      read?_integer denotes, lookup, bind, Except.bind]
    exact ⟨_, rfl⟩

end Machine

end StackVM
