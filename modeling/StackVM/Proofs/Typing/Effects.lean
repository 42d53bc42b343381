import StackVM.Proofs.Typing.State

/-!
# Checked instructions on machines that agree with types

Main statement: an instruction other than a call, a return or a choice, on a machine that agrees with
the stack of types before its rule, never meets a value of the wrong type, and leaves a machine that
agrees with the stack of types after its rule (`Typed.effect`).
-/

namespace StackVM

open Verifier

/-- Types without unknown references, wherever the program declares types. -/
structure Program.Plain (p : Program) : Prop where
  types : ∀ t ∈ p.types, Ty.ref ∉ t.parts
  functions : ∀ f, .function f ∈ p.constants → Ty.ref ∉ f.signature.ty.parts

namespace Machine

variable {m m' : Machine} {T : Table Ty} {ts us : List Ty} {t u : Ty} {v : Value} {o : Object}
  {n i : Nat}

/-! ### Strings -/

theorem isRef_of_string (text : Ty.string.accepts t = true) : t.isRef = true := by
  rw [Ty.isRef, Ty.kind_of_accepts text]
  rfl

/-- A live object where a string is expected is a string. -/
theorem string_of_accepts (text : Ty.string.accepts t = true) (same : o.ty = t)
    (plain : Ty.ref ∉ t.parts) : ∃ s, o = .string s := by
  rcases Ty.eq_or_of_accepts text (by simp) with rfl | ⟨rfl, -⟩
  · cases o with
    | string s => exact ⟨s, rfl⟩
    | _ => cases same
  -- an object never has the type of an unknown reference
  · exact absurd (Ty.self_mem_parts .ref) plain

theorem Typed.measuringString (typed : m.Typed T (t :: ts)) (balanced : m.Balanced [])
    (text : Ty.string.accepts t = true) : Sure (fun m' => m'.Typed T (.i32 :: ts)) m.measuringString := by
  refine Sure.bind need_no_mismatch fun _ _ => ?_
  refine Sure.bind (typed.objectAt rfl (isRef_of_string text)) fun o answer => ?_
  obtain ⟨same, plain, -⟩ := typed.object balanced rfl answer
  obtain ⟨s, rfl⟩ := string_of_accepts text same plain
  exact typed.replaced balanced (.number rfl) 1

theorem Typed.stringsAt (typed : m.Typed T (u :: t :: ts)) (balanced : m.Balanced [])
    (first : Ty.string.accepts t = true) (second : Ty.string.accepts u = true) :
    m.stringsAt ≠ .error .typeMismatch := by
  intro refused
  rcases bind_eq_error refused with refused | ⟨o, answer, refused⟩
  · exact typed.objectAt rfl (isRef_of_string first) refused
  rcases bind_eq_error refused with refused | ⟨o', answer', refused⟩
  · exact typed.objectAt rfl (isRef_of_string second) refused
  obtain ⟨same, plain, -⟩ := typed.object balanced rfl answer
  obtain ⟨same', plain', -⟩ := typed.object balanced rfl answer'
  obtain ⟨s, rfl⟩ := string_of_accepts first same plain
  obtain ⟨s', rfl⟩ := string_of_accepts second same' plain'
  cases refused

theorem Typed.joiningStrings (typed : m.Typed T (u :: t :: ts)) (balanced : m.Balanced [])
    (first : Ty.string.accepts t = true) (second : Ty.string.accepts u = true) :
    Sure (fun m' => m'.Typed T (.string :: ts)) m.joiningStrings := by
  refine Sure.bind need_no_mismatch fun _ _ => ?_
  refine Sure.bind (typed.stringsAt balanced first second) fun (s, s') _ => ?_
  exact (typed.discarded 2).pushedObject (o := .string (s ++ s')) (balanced.discarded 2)
    (by simp [Object.ty, Ty.parts]) trivial nofun

theorem Typed.comparingStrings {equal : Bool} (typed : m.Typed T (u :: t :: ts)) (balanced : m.Balanced [])
    (first : Ty.string.accepts t = true) (second : Ty.string.accepts u = true) :
    Sure (fun m' => m'.Typed T (.i32 :: ts)) (m.comparingStrings equal) := by
  refine Sure.bind need_no_mismatch fun _ _ => ?_
  refine Sure.bind (typed.stringsAt balanced first second) fun _ _ => ?_
  exact typed.replaced balanced (.number rfl) 2

/-! ### Arrays -/

theorem isRef_of_elem {elem : Ty} (array : t.elem? = some elem) : t.isRef = true := by
  cases t with
  | packed s => rfl
  | array elem' => rfl
  | _ => cases array

theorem filled_array {elem : Ty} {h : Heap} {vs : List Value}
    (elements : List.Forall₂ (Value.HasTy h) vs (List.replicate n elem)) :
    (Object.array elem vs.toArray).Filled h := by
  intro v mem
  obtain ⟨i, inside, here⟩ := List.getElem_of_mem (List.mem_toArray.1 mem)
  have each := elements.get inside (by rw [← elements.length_eq]; exact inside)
  rw [List.get_eq_getElem, List.get_eq_getElem, here, List.getElem_replicate] at each
  exact each

theorem Typed.makingArray {index count : Nat} {elem : Ty} (typed : m.Typed T (us ++ ts))
    (balanced : m.Balanced []) (found : m.program.types[index]? = some t) (plain : Ty.ref ∉ t.parts)
    (array : t.elem? = some elem) (accepts : Scope.Accepts (List.replicate count elem) us) :
    Sure (fun m' => m'.Typed T (t :: ts)) (m.makingArray index count) := by
  have length := accepts.length_eq
  rw [List.length_replicate] at length
  subst length
  have drop : (us ++ ts).drop us.length = ts := List.drop_left
  refine typed.kinded.sure_makingArray balanced found array accepts (fun s numbers packed => ?_)
    fun boxed => ?_
  -- numbers: the packed array has no children
  · subst packed
    have made := (typed.discarded us.length).pushedObject (o := .packed (.ofValues s numbers))
      (balanced.discarded us.length) plain trivial nofun
    rwa [drop] at made
  · subst boxed
    have in_order : Scope.Accepts (List.replicate us.length elem) us.reverse := by
      have turned := List.rel_reverse accepts
      rwa [List.reverse_replicate] at turned
    have known : elem ≠ .ref := Ty.ne_ref_of_part plain (Ty.elem_mem_parts array)
    have elements := hasTy_of_accepts typed.heap in_order typed.operands
      fun t mem => by rwa [List.eq_of_mem_replicate mem]
    have made := (typed.dropped us.length).pushedObject (o := .array elem _)
      (balanced.dropped us.length) plain (filled_array elements) fun a pos child => ?_
    · rwa [drop] at made
    · refine balanced.live_operands us.length _ ?_
      rw [← List.count_pos_iff, ← Value.count_addresses pos, List.count_pos_iff]
      exact child

theorem Typed.makingZeroArray {index : Nat} {elem : Ty} (typed : m.Typed T (.i32 :: ts))
    (balanced : m.Balanced []) (found : m.program.types[index]? = some t) (plain : Ty.ref ∉ t.parts)
    (array : t.elem? = some elem) :
    Sure (fun m' => m'.Typed T (t :: ts)) (m.makingZeroArray index) := by
  refine typed.kinded.sure_makingZeroArray balanced found array fun o length made => ?_
  -- zeros have every type and hold nothing
  obtain ⟨rfl, filled⟩ := Object.filled_zeroArray (h := (m.discarded 1).heap) made
  have childless := (@Balanced.zeroArray_childless m.program _ _ _ made).2
  refine (typed.discarded 1).pushedObject (balanced.discarded 1) plain filled fun a pos child => ?_
  rw [← List.count_pos_iff, childless a pos] at child
  cases child

/-- An object whose type has elements has a length. -/
theorem length_of_elem {elem : Ty} (array : o.ty.elem? = some elem) : ∃ n, o.length? = some n := by
  cases o with
  | packed p => exact ⟨_, rfl⟩
  | array elem' elems => exact ⟨_, rfl⟩
  | _ => cases array

theorem Typed.measuringArray (typed : m.Typed T (t :: ts)) (balanced : m.Balanced [])
    (array : (t = .ref || t.elem?.isSome) = true) :
    Sure (fun m' => m'.Typed T (.i32 :: ts)) m.measuringArray := by
  have reference : t.isRef = true := by
    rcases Bool.or_eq_true _ _ ▸ array with unknown | known
    · rw [of_decide_eq_true unknown]
      rfl
    · obtain ⟨elem, array⟩ := Option.isSome_iff_exists.1 known
      exact isRef_of_elem array
  refine Sure.bind need_no_mismatch fun _ _ => ?_
  refine Sure.bind (typed.objectAt rfl reference) fun o answer => ?_
  obtain ⟨rfl, plain, -⟩ := typed.object balanced rfl answer
  -- an object that is there has a known type, so it is an array
  have known : o.ty.elem?.isSome = true := by
    rcases Bool.or_eq_true _ _ ▸ array with unknown | known
    · rw [of_decide_eq_true unknown] at plain
      exact absurd (Ty.self_mem_parts .ref) plain
    · exact known
  obtain ⟨elem, array⟩ := Option.isSome_iff_exists.1 known
  obtain ⟨n, length⟩ := length_of_elem array
  simp only [length]
  exact typed.replaced balanced (.number rfl) 1

theorem Typed.readingElement {elem : Ty} (typed : m.Typed T (.i32 :: t :: ts)) (balanced : m.Balanced [])
    (array : t.elem? = some elem) : Sure (fun m' => m'.Typed T (elem :: ts)) m.readingElement := by
  refine Sure.bind need_no_mismatch fun _ _ => ?_
  refine Sure.bind (typed.kinded.indexAt balanced rfl) fun i _ => ?_
  refine Sure.bind (typed.objectAt rfl (isRef_of_elem array)) fun o answer => ?_
  obtain ⟨rfl, -, filled⟩ := typed.object balanced rfl answer
  obtain ⟨n, length⟩ := length_of_elem array
  refine Sure.bind ?_ fun _ _ => ?_
  · rw [length]
    nofun
  refine Sure.bind lookup_no_mismatch fun v element => ?_
  have element := lookup_eq_ok element
  obtain ⟨a, -, found⟩ := objectAt_eq_ok answer
  -- the element is retained before the array can go away
  exact (typed.retain v).replaced (balanced.retain (balanced.live_element found element))
    (promised_retain (filled.element array element) v) 2

theorem Typed.storingElement {elem : Ty} (typed : m.Typed T (u :: .i32 :: t :: ts))
    (balanced : m.Balanced []) (array : t.elem? = some elem) (fits : elem.accepts u = true) :
    Sure (fun m' => m'.Typed T ts) m.storingElement := by
  refine Sure.bind need_no_mismatch fun _ _ => ?_
  refine Sure.bind (typed.kinded.indexAt balanced rfl) fun i _ => ?_
  refine Sure.bind (typed.addressAt (d := 2) rfl (isRef_of_elem array)) fun a address => ?_
  refine Sure.bind (typed.objectAt rfl (isRef_of_elem array)) fun o answer => ?_
  obtain ⟨rfl, plain, filled⟩ := typed.object balanced rfl answer
  have found := get?_of_objectAt address answer
  have known : elem ≠ .ref := Ty.ne_ref_of_part plain (Ty.elem_mem_parts array)
  have promised : (m.peek 0).HasTy m.heap u := typed.peek rfl
  obtain ⟨number, read⟩ := read_of_accepts promised (balanced.live_peek 0) fits
  simp only [array, read]
  refine Sure.bind lookup_no_mismatch fun old _ => ?_
  -- the operand itself or its number: both have the element type
  have stored : (Exec.exchange o (m.peek 0) number old).1.HasTy m.heap elem := by
    unfold Exec.exchange
    split
    · exact promised.read typed.heap fits known read
    · exact promised.accepted typed.heap fits known
  have changed := (typed.dropped 1).update (f := (·.setElement i _)) found (Object.ty_setElement _ _ _)
    (filled.setElement array stored)
  exact (changed.release _).discarded 2

/-! ### Structs -/

theorem struct_of_ty {fields : List Ty} (same : o.ty = .struct fields) :
    ∃ r, o = .struct r ∧ r.fields = fields := by
  cases o with
  | struct r =>
    cases same
    exact ⟨r, rfl, rfl⟩
  | _ => cases same

theorem getElem?_of_forall₂ {vs : List Value} {h : Heap} (related : List.Forall₂ (Value.HasTy h) vs ts)
    (value : vs[i]? = some v) (field : ts[i]? = some t) : v.HasTy h t := by
  obtain ⟨inside, rfl⟩ := List.getElem?_eq_some_iff.1 value
  obtain ⟨inside', rfl⟩ := List.getElem?_eq_some_iff.1 field
  exact related.get inside inside'

theorem Typed.makingStruct {index : Nat} {fields : List Ty} (typed : m.Typed T (us ++ ts))
    (balanced : m.Balanced []) (addresses : m.Addressable)
    (found : m.program.types[index]? = some (.struct fields)) (plain : Ty.ref ∉ (Ty.struct fields).parts)
    (accepts : Scope.Accepts fields.reverse us) :
    Sure (fun m' => m'.Typed T (.struct fields :: ts)) (m.makingStruct index) := by
  have length := accepts.length_eq
  rw [List.length_reverse] at length
  -- the rule pops the last field first
  have in_order : Scope.Accepts fields us.reverse := by
    have turned := List.rel_reverse accepts
    rwa [List.reverse_reverse] at turned
  have operands := typed.operands
  have drop : (us ++ ts).drop us.length = ts := List.drop_left
  rw [length] at operands drop
  have known : ∀ t ∈ fields, t ≠ .ref := fun t mem =>
    Ty.ne_ref_of_part plain (Ty.field_mem_parts rfl mem)
  refine typed.kinded.sure_makingStruct balanced found accepts fun values enough read => ?_
  -- fields hold what was read from the operands, which has the types of the fields
  have promised := hasTy_readAll typed.heap in_order operands known read
  obtain ⟨wf, kept, stored⟩ := balanced.record_of_readAll addresses enough read
  have taken := balanced.fields_taken enough read
  have made := ((typed.dropped fields.length).releaseAll _).pushedObject
    (o := .struct (.ofValues fields values)) taken ?_ ?_ fun a pos child => ?_
  · have ty : (Object.struct (.ofValues fields values)).ty = .struct fields := congrArg Ty.struct kept
    rwa [ty, drop] at made
  · change Ty.ref ∉ (Ty.struct (Record.ofValues fields values).fields).parts
    rwa [kept]
  · intro i t v field value
    rw [kept] at field
    rw [← Record.getElem?_values wf, stored] at value
    refine (getElem?_of_forall₂ promised value field).within ?_
    exact Heap.within_of_subset fun _ _ => Heap.get?_of_releaseValues
  -- what the struct is about to hold is in the hand, so it is alive
  · refine taken.live_of_hand ?_
    rw [Object.children, Record.addresses, stored, ← List.count_pos_iff, Value.count_addresses pos,
      List.count_pos_iff] at child
    simpa using child

theorem Typed.makingZeroStruct {index : Nat} {fields : List Ty} (typed : m.Typed T ts)
    (balanced : m.Balanced []) (found : m.program.types[index]? = some (.struct fields))
    (plain : Ty.ref ∉ (Ty.struct fields).parts) :
    Sure (fun m' => m'.Typed T (.struct fields :: ts)) (m.makingZeroStruct index) := by
  apply sure_makingZeroStruct found
  refine typed.pushedObject (o := .struct (.zero fields)) balanced plain (Object.filled_zero fields)
    fun a pos child => ?_
  rw [Object.children, Record.addresses, Record.values_zero, ← List.count_pos_iff,
    Value.count_addresses pos, List.count_pos_iff] at child
  obtain ⟨t, -, zero⟩ := List.mem_map.1 child
  exact absurd zero (Value.zero_ne_ref pos t.kind)

theorem Typed.readingField {fields : List Ty} (typed : m.Typed T (.struct fields :: ts))
    (balanced : m.Balanced []) (field : fields[i]? = some t) :
    Sure (fun m' => m'.Typed T (t :: ts)) (m.readingField i) := by
  refine Sure.bind need_no_mismatch fun _ _ => ?_
  refine Sure.bind (typed.objectAt rfl rfl) fun o answer => ?_
  obtain ⟨same, -, filled⟩ := typed.object balanced rfl answer
  obtain ⟨r, rfl, rfl⟩ := struct_of_ty same
  obtain ⟨a, -, found⟩ := objectAt_eq_ok answer
  refine Sure.bind lookup_no_mismatch fun v value => ?_
  have value := lookup_eq_ok value
  exact (typed.retain v).replaced (balanced.retain (balanced.live_field found value))
    (promised_retain (filled i t v field value) v) 1

theorem Typed.storingField {fields : List Ty} (typed : m.Typed T (u :: .struct fields :: ts))
    (balanced : m.Balanced []) (addresses : m.Addressable) (field : fields[i]? = some t)
    (fits : t.accepts u = true) : Sure (fun m' => m'.Typed T ts) (m.storingField i) := by
  refine Sure.bind need_no_mismatch fun _ _ => ?_
  refine Sure.bind (typed.addressAt (d := 1) rfl rfl) fun a address => ?_
  refine Sure.bind (typed.objectAt rfl rfl) fun o answer => ?_
  obtain ⟨same, plain, filled⟩ := typed.object balanced rfl answer
  obtain ⟨r, rfl, rfl⟩ := struct_of_ty same
  have found := get?_of_objectAt address answer
  refine Sure.bind lookup_no_mismatch fun t' at_field => ?_
  have at_field := lookup_eq_ok at_field
  rw [field] at at_field
  cases at_field
  refine Sure.bind lookup_no_mismatch fun old _ => ?_
  have known : t ≠ .ref :=
    Ty.ne_ref_of_part plain (Ty.field_mem_parts rfl (List.mem_of_getElem? field))
  have promised : (m.peek 0).HasTy m.heap u := typed.peek rfl
  have live := balanced.live_peek 0
  obtain ⟨stored, read⟩ := read_of_accepts promised live fits
  simp only [read]
  -- the field takes what was read, and all other fields stay
  have refilled := Object.filled_setField filled (balanced.sound a _ found) field (kind_of_read? read)
    (addresses.storable live read) (promised.read typed.heap fits known read)
  have changed := (typed.dropped 1).update (f := (·.setField i stored)) found (Object.ty_setField _ _ _)
    refilled
  exact (changed.release _).discarded 1

/-! ### All instructions -/

/-- A checked instruction that neither calls, returns nor chooses meets no value of the wrong type. -/
theorem Typed.effect {c : Scope} {path path' : Path} {inst : Instruction} {frame : Frame}
    {callers : List Frame} {below : List Ty} {size next : Nat} (typed : m.Typed T (path.stack ++ below))
    (transfer : c.Transfers T inst path path') (no_call : inst.opcode ≠ .call)
    (no_ret : inst.opcode ≠ .ret) (no_select : inst.opcode ≠ .select) (program : m.program = c.program)
    (plain : c.program.Plain) (globals : ∀ i, T.get? i ≠ some .ref) (frames : m.frames = frame :: callers)
    (base : frame.base = below.length) (above : c.floor ≤ path.stack.length) (balanced : m.Balanced [])
    (addresses : m.Addressable) :
    Sure (fun m' => m'.Typed T (path'.stack ++ below)) (m.effect inst size next) := by
  have declared {i : Nat} {t : Ty} (found : c.program.types[i]? = some t) :
      m.program.types[i]? = some t ∧ Ty.ref ∉ t.parts :=
    ⟨program ▸ found, plain.types t (Array.mem_of_getElem? found)⟩
  have known {i : Nat} {expected : Ty} (found : T.get? i = some expected) : expected ≠ .ref := by
    rintro rfl
    exact globals i found
  cases transfer with
  | nop => exact typed
  | unreachable => nofun
  | br => exact sure_jumped fun ip => typed.setIp ip
  | brIf above =>
    refine Sure.bind need_no_mismatch fun _ _ => ?_
    refine Sure.bind (typed.kinded.int32At balanced rfl) fun condition _ => ?_
    split
    · exact sure_branched fun ip => (typed.setIp ip).discarded 1
    · exact typed.discarded 1
  | brTable above =>
    refine Sure.bind need_no_mismatch fun _ _ => ?_
    refine Sure.bind (typed.kinded.int32At balanced rfl) fun selector _ => ?_
    exact sure_branched fun ip => (typed.setIp ip).discarded 1
  | drop above =>
    refine Sure.bind need_no_mismatch fun _ _ => ?_
    exact typed.discarded 1
  | dup above room =>
    refine Sure.bind need_no_mismatch fun _ _ => ?_
    exact sure_copied ((typed.retain _).pushed (promised_retain (typed.peek rfl) _))
  | swap above room =>
    refine Sure.bind need_no_mismatch fun _ _ => ?_
    exact typed.withStack (.cons (typed.peek rfl) (.cons (typed.peek rfl) (typed.dropped 2).stack))
  | select joined above room => exact absurd rfl no_select
  | call arguments above room => exact absurd rfl no_call
  | ret results => exact absurd rfl no_ret
  | @globalGet ops t stack w i index recorded at_i room =>
    refine Sure.bind lookup_no_mismatch fun v found => ?_
    have found := lookup_eq_ok found
    rw [index] at found
    obtain ⟨t', same, promised⟩ := typed.globals _ v found
    rw [at_i] at same
    cases same
    exact sure_copied ((typed.retain _).pushed (promised_retain promised _))
  | @globalSet ops t expected rest w i index at_i fits above =>
    refine Sure.bind need_no_mismatch fun _ _ => ?_
    have promised := (typed.peek (d := 0) rfl).accepted typed.heap fits (known at_i)
    change Typed ((m.dropped 1).setGlobal (Instruction.operand ⟨.globalSet, ops⟩ 0) _) T _
    rw [index]
    exact (typed.dropped 1).setGlobal at_i promised
  | @globalTee ops t expected rest w i index at_i fits above room =>
    refine Sure.bind need_no_mismatch fun _ _ => ?_
    have promised := (typed.peek (d := 0) rfl).accepted typed.heap fits (known at_i)
    change Typed ((m.retain _).setGlobal (Instruction.operand ⟨.globalTee, ops⟩ 0) _) T _
    rw [index]
    exact (typed.retain _).setGlobal at_i (promised_retain promised _)
  | @localGet ops t stack w i index inside found room =>
    refine Sure.bind localAt_no_mismatch fun place answer => ?_
    have here := localAt_eq_ok frames answer
    rw [index] at here
    have tall : c.floor ≤ stack.length := above
    -- counted from the top, the local lies as deep in the frame as in its stack of types
    have depth : m.fromTop place = stack.length - 1 - i := by
      rw [fromTop, typed.stack.length_eq, List.length_append, here, base]
      change stack.length + below.length - 1 - (below.length + i) = _
      omega
    refine sure_copied ((typed.retain _).pushed (promised_retain (typed.peek ?_) _))
    rw [depth, List.getElem?_append_left (by change _ < stack.length; omega)]
    exact found
  | @localSet ops t rest w i index inside tall =>
    refine Sure.bind localAt_no_mismatch fun place answer => ?_
    refine Sure.bind need_no_mismatch fun _ _ => ?_
    have here := localAt_eq_ok frames answer
    rw [index] at here
    have stored := (typed.dropped 1).setPlace (typed.peek (d := 0) rfl) place
    have depth : (rest ++ below).length - 1 - place = rest.length - 1 - i := by
      rw [List.length_append, here, base]
      omega
    change Typed _ T ((rest ++ below).set ((rest ++ below).length - 1 - place) t) at stored
    rwa [depth, List.set_append_left _ _ (by omega)] at stored
  | @localTee ops t rest w i index inside tall room =>
    refine Sure.bind localAt_no_mismatch fun place answer => ?_
    refine Sure.bind need_no_mismatch fun _ _ => ?_
    have here := localAt_eq_ok frames answer
    rw [index] at here
    have promised : (m.peek 0).HasTy m.heap t := typed.peek rfl
    have stored := (typed.retain (m.peek 0)).setPlace (promised_retain promised _) place
    have depth : ((t :: rest) ++ below).length - 1 - place = (t :: rest).length - 1 - i := by
      rw [List.length_append, here, base]
      omega
    simp only at stored
    rwa [depth, List.set_append_left _ _ (by rw [List.length_cons]; omega)] at stored
  | @constGet ops k stack w i index found room =>
    refine Sure.bind lookup_no_mismatch fun v answer => ?_
    have answer := lookup_eq_ok answer
    rw [index] at answer
    obtain ⟨k', same, promised⟩ := balanced.constant_hasTy answer
    rw [program, found] at same
    cases same
    exact sure_copied ((typed.retain _).pushed (promised_retain promised _))
  | refNull room =>
    refine Sure.bind room_no_mismatch fun _ _ => ?_
    exact typed.pushed (.null rfl)
  | const room =>
    refine Sure.bind room_no_mismatch fun _ _ => ?_
    exact typed.pushedRead balanced (.number (Value.kind_ofRaw _ _))
  | @operation op ops ts rest w operands above room =>
    rw [List.append_assoc] at typed
    have length := operands.length_eq
    rw [List.length_replicate] at length
    refine typed.kinded.sure_operating balanced operands fun v promised => ?_
    have drop : (ts ++ (rest ++ below)).drop op.shape.arity = rest ++ below := by
      rw [← length, List.drop_left]
    have done := typed.replaced balanced promised op.shape.arity
    rwa [drop] at done
  | stringLen text above room => exact typed.measuringString balanced text
  | stringConcat first second above room => exact typed.joiningStrings balanced first second
  | stringEq first second above room => exact typed.comparingStrings balanced first second
  | stringNe first second above room => exact typed.comparingStrings balanced first second
  | arrayNew found array operands above room =>
    rw [List.append_assoc] at typed
    exact typed.makingArray balanced (declared found).1 (declared found).2 array operands
  | arrayNewDefault found array above room =>
    exact typed.makingZeroArray balanced (declared found).1 (declared found).2 array
  | arrayLen array above room => exact typed.measuringArray balanced array
  | arrayGet array above room => exact typed.readingElement balanced array
  | arraySet array fits above => exact typed.storingElement balanced array fits
  | structNew found operands above room =>
    rw [List.append_assoc] at typed
    exact typed.makingStruct balanced addresses (declared found).1 (declared found).2 operands
  | structNewDefault found room =>
    exact typed.makingZeroStruct balanced (declared found).1 (declared found).2
  | structGet found above room => exact typed.readingField balanced found
  | structSet found fits above => exact typed.storingField balanced addresses found fits

end Machine

end StackVM
