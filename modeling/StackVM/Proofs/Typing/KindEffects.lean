import StackVM.Proofs.Typing.Kinds

/-!
# Checked instructions on machines that agree with kinds

Main statement: an instruction of the entry code other than a call, a return or a read from an object,
on a machine that agrees with the kinds before its rule, leaves a machine that agrees with the kinds
after its rule. It meets a value of the wrong type only where it looks at the type of an object, for
what the verifier knows about references need not be true (`Kinded.effect`).
-/

namespace StackVM

open Verifier

/-- Opcodes of instructions that look at the type of an object. Reads from an object are not among them. -/
def Opcode.inspecting : List Opcode :=
  [.stringLen, .stringConcat, .stringEq, .stringNe, .arrayLen, .arraySet, .structSet]

/-- The outcome is a type mismatch only where that is allowed, and an answer has the property. -/
def SureUnless {α : Type} (allowed : Prop) (P : α → Prop) : Except Cause α → Prop
  | .ok a => P a
  | .error c => c = .typeMismatch → allowed

theorem Sure.unless {α : Type} {allowed : Prop} {P : α → Prop} {x : Except Cause α} (sure : Sure P x) :
    SureUnless allowed P x := by
  cases x with
  | ok a => exact sure
  | error c =>
    intro same
    exact absurd same sure

theorem sureUnless_of_ok {α : Type} {allowed : Prop} {P : α → Prop} {x : Except Cause α}
    (allow : allowed) (kept : ∀ a, x = .ok a → P a) : SureUnless allowed P x := by
  cases x with
  | ok a => exact kept a rfl
  | error c => exact fun _ => allow

namespace Machine

variable {m m' : Machine} {T : Table Ty} {ts : List Ty} {t u : Ty} {o : Object} {hand : List Value}
  {i : Nat}

theorem Kinded.pushedObject (kinded : m.Kinded T ts) (balanced : m.Balanced hand)
    (same : o.ty.kind = t.kind) : (m.pushedObject o).Kinded T (t :: ts) := by
  apply Agrees.pushedObject kinded balanced
  apply Value.HasKind.of_object (balanced.heap.alloc_fresh o).1 _ same
  rw [balanced.heap.get?_alloc, if_pos rfl]

/-! ### Instructions that look at objects -/

theorem Kinded.measuringString (kinded : m.Kinded T (t :: ts)) (balanced : m.Balanced [])
    (done : m.measuringString = .ok m') : m'.Kinded T (.i32 :: ts) := by
  obtain ⟨_, _, done⟩ := bind_eq_ok done
  obtain ⟨o, _, done⟩ := bind_eq_ok done
  split at done
  · cases done
    exact kinded.replaced balanced (.number rfl) 1
  · cases done

theorem Kinded.joiningStrings (kinded : m.Kinded T (u :: t :: ts)) (balanced : m.Balanced [])
    (done : m.joiningStrings = .ok m') : m'.Kinded T (.string :: ts) := by
  obtain ⟨_, _, done⟩ := bind_eq_ok done
  obtain ⟨_, _, done⟩ := bind_eq_ok done
  cases done
  exact Kinded.pushedObject (kinded.discarded 2) (balanced.discarded 2) rfl

theorem Kinded.comparingStrings {equal : Bool} (kinded : m.Kinded T (u :: t :: ts))
    (balanced : m.Balanced []) (done : m.comparingStrings equal = .ok m') :
    m'.Kinded T (.i32 :: ts) := by
  obtain ⟨_, _, done⟩ := bind_eq_ok done
  obtain ⟨_, _, done⟩ := bind_eq_ok done
  cases done
  exact kinded.replaced balanced (.number rfl) 2

theorem Kinded.measuringArray (kinded : m.Kinded T (t :: ts)) (balanced : m.Balanced [])
    (done : m.measuringArray = .ok m') : m'.Kinded T (.i32 :: ts) := by
  obtain ⟨_, _, done⟩ := bind_eq_ok done
  obtain ⟨o, _, done⟩ := bind_eq_ok done
  split at done
  · cases done
    exact kinded.replaced balanced (.number rfl) 1
  · cases done

/-- Whatever the array is at run time, it keeps its type. -/
theorem Kinded.storingElement {w : Ty} (kinded : m.Kinded T (w :: u :: t :: ts))
    (done : m.storingElement = .ok m') : m'.Kinded T ts := by
  obtain ⟨_, _, done⟩ := bind_eq_ok done
  obtain ⟨i, _, done⟩ := bind_eq_ok done
  obtain ⟨a, address, done⟩ := bind_eq_ok done
  obtain ⟨o, object, done⟩ := bind_eq_ok done
  have found := get?_of_objectAt address object
  split at done
  · cases done
  split at done
  · cases done
  obtain ⟨old, _, done⟩ := bind_eq_ok done
  cases done
  have changed (w : Value) :=
    (kinded.dropped 1).update (f := (·.setElement i w)) found (Object.ty_setElement _ _ _)
  exact ((changed _).release _).discarded 2

theorem Kinded.storingField (kinded : m.Kinded T (u :: t :: ts)) (done : m.storingField i = .ok m') :
    m'.Kinded T ts := by
  obtain ⟨_, _, done⟩ := bind_eq_ok done
  obtain ⟨a, address, done⟩ := bind_eq_ok done
  obtain ⟨o, object, done⟩ := bind_eq_ok done
  have found := get?_of_objectAt address object
  split at done
  · obtain ⟨t', _, done⟩ := bind_eq_ok done
    obtain ⟨old, _, done⟩ := bind_eq_ok done
    split at done
    · cases done
    · cases done
      have changed (w : Value) :=
        (kinded.dropped 1).update (f := (·.setField i w)) found (Object.ty_setField _ _ _)
      exact ((changed _).release _).discarded 1
  · cases done

/-! ### All instructions -/

/-- A choice between values of one kind. -/
theorem Kinded.choosing {j : Ty} (kinded : m.Kinded T (.i32 :: u :: t :: ts))
    (balanced : m.Balanced []) (kinds : t.kind = j.kind ∧ u.kind = j.kind) :
    Sure (fun m' => m'.Kinded T (j :: ts)) (do
      m.need 3
      let condition ← m.int32At 0
      reject (!m.sameKind (m.peek 2) (m.peek 1)) .typeMismatch
      let (kept, other) := if condition != 0 then (m.peek 2, m.peek 1) else (m.peek 1, m.peek 2)
      return ((m.dropped 3).release other).pushed kept) := by
  have first : (m.peek 2).HasKind m.heap j := (kinded.peek (d := 2) rfl).congr kinds.1
  have second : (m.peek 1).HasKind m.heap j := (kinded.peek (d := 1) rfl).congr kinds.2
  refine Sure.bind need_no_mismatch fun _ _ => ?_
  refine Sure.bind (kinded.int32At balanced rfl) fun condition _ => ?_
  refine Sure.bind ?_ fun _ _ => ?_
  · intro refused
    have alike := sameKind_of_hasKind first second (balanced.live_peek 2) (balanced.live_peek 1)
    simp [reject, alike] at refused
  -- either of the two is kept, and the other one is released
  have chosen (kept other : Value) (promised : kept.HasKind m.heap j) :
      (((m.dropped 3).release other).pushed kept).Kinded T (j :: ts) := by
    apply ((kinded.dropped 3).release other).pushed
    apply Lasting.within promised
    exact Heap.within_of_subset fun _ _ => @Heap.get?_of_releaseValues _ [other] _ _
  by_cases nonzero : (condition != 0) = true
  · simp only [nonzero, if_true]
    exact chosen _ _ first
  · simp only [nonzero]
    exact chosen _ _ second

/-- Types that a choice joins have one kind, which is that of the result. -/
theorem kind_of_joined {j : Ty}
    (joined : (t = u ∧ j = t) ∨ (t ≠ u ∧ (t.isRef && u.isRef) = true ∧ j = .ref)) :
    t.kind = j.kind ∧ u.kind = j.kind := by
  rcases joined with ⟨rfl, rfl⟩ | ⟨-, references, rfl⟩
  · exact ⟨rfl, rfl⟩
  · rw [Bool.and_eq_true] at references
    exact ⟨eq_of_beq references.1, eq_of_beq references.2⟩

/-- A checked instruction of code without locals keeps to the kinds of its rule. -/
theorem Kinded.effect {c : Scope} {path path' : Path} {inst : Instruction} {size next : Nat}
    (kinded : m.Kinded T path.stack) (transfer : c.Transfers T inst path path')
    (no_locals : c.floor = 0) (no_call : inst.opcode ≠ .call) (no_ret : inst.opcode ≠ .ret)
    (no_read : inst.opcode ≠ .arrayGet ∧ inst.opcode ≠ .structGet) (program : m.program = c.program)
    (balanced : m.Balanced []) :
    SureUnless (inst.opcode ∈ Opcode.inspecting) (fun m' => m'.Kinded T path'.stack)
      (m.effect inst size next) := by
  have declared {i : Nat} {t : Ty} (found : c.program.types[i]? = some t) :
      m.program.types[i]? = some t := program ▸ found
  cases transfer with
  | nop => exact kinded
  | unreachable => nofun
  | br => exact (sure_jumped fun ip => kinded.setIp ip).unless
  | brIf above =>
    refine Sure.unless (Sure.bind need_no_mismatch fun _ _ => ?_)
    refine Sure.bind (kinded.int32At balanced rfl) fun condition _ => ?_
    split
    · exact sure_branched fun ip => (kinded.setIp ip).discarded 1
    · exact kinded.discarded 1
  | brTable above =>
    refine Sure.unless (Sure.bind need_no_mismatch fun _ _ => ?_)
    refine Sure.bind (kinded.int32At balanced rfl) fun selector _ => ?_
    exact sure_branched fun ip => (kinded.setIp ip).discarded 1
  | drop above => exact Sure.unless (Sure.bind need_no_mismatch fun _ _ => kinded.discarded 1)
  | dup above room =>
    refine Sure.unless (Sure.bind need_no_mismatch fun _ _ => ?_)
    exact sure_copied ((kinded.retain _).pushed (promised_retain (kinded.peek rfl) _))
  | swap above room =>
    refine Sure.unless (Sure.bind need_no_mismatch fun _ _ => ?_)
    exact kinded.withStack (.cons (kinded.peek rfl) (.cons (kinded.peek rfl) (kinded.dropped 2).stack))
  | select joined above room =>
    have chosen := Kinded.choosing kinded balanced (kind_of_joined joined)
    exact Sure.unless chosen
  | call arguments above room => exact absurd rfl no_call
  | ret results => exact absurd rfl no_ret
  | @globalGet ops t stack w i index recorded at_i room =>
    refine Sure.unless (Sure.bind lookup_no_mismatch fun v found => ?_)
    have found := lookup_eq_ok found
    rw [index] at found
    obtain ⟨t', same, promised⟩ := kinded.globals _ v found
    rw [at_i] at same
    cases same
    exact sure_copied ((kinded.retain _).pushed (promised_retain promised _))
  | @globalSet ops t expected rest w i index at_i fits above =>
    refine Sure.unless (Sure.bind need_no_mismatch fun _ _ => ?_)
    have promised := (kinded.peek (d := 0) rfl).accepted fits
    change Kinded ((m.dropped 1).setGlobal (Instruction.operand ⟨.globalSet, ops⟩ 0) _) T _
    rw [index]
    exact (kinded.dropped 1).setGlobal at_i promised
  | @globalTee ops t expected rest w i index at_i fits above room =>
    refine Sure.unless (Sure.bind need_no_mismatch fun _ _ => ?_)
    have promised := (kinded.peek (d := 0) rfl).accepted fits
    change Kinded ((m.retain _).setGlobal (Instruction.operand ⟨.globalTee, ops⟩ 0) _) T _
    rw [index]
    exact (kinded.retain _).setGlobal at_i (promised_retain promised _)
  | localGet index inside => omega
  | localSet index inside => omega
  | localTee index inside => omega
  | @constGet ops k stack w i index found room =>
    refine Sure.unless (Sure.bind lookup_no_mismatch fun v answer => ?_)
    have answer := lookup_eq_ok answer
    rw [index] at answer
    obtain ⟨k', same, promised⟩ := balanced.constant_hasTy answer
    rw [program, found] at same
    cases same
    exact sure_copied ((kinded.retain _).pushed (promised_retain promised.hasKind _))
  | refNull room =>
    refine Sure.unless (Sure.bind room_no_mismatch fun _ _ => ?_)
    exact kinded.pushed (Value.HasTy.null rfl).hasKind
  | const room =>
    refine Sure.unless (Sure.bind room_no_mismatch fun _ _ => ?_)
    exact kinded.pushedRead balanced (.number (Value.kind_ofRaw _ _))
  | @operation op ops ts rest w operands above room =>
    have length := operands.length_eq
    rw [List.length_replicate] at length
    refine Sure.unless (Kinded.sure_operating kinded balanced operands fun v promised => ?_)
    have drop : (ts ++ rest).drop op.shape.arity = rest := by rw [← length, List.drop_left]
    have done := kinded.replaced balanced promised.hasKind op.shape.arity
    rwa [drop] at done
  | stringLen text above room =>
    exact sureUnless_of_ok (show Opcode.stringLen ∈ _ by decide) fun _ => Kinded.measuringString kinded balanced
  | stringConcat first second above room =>
    exact sureUnless_of_ok (show Opcode.stringConcat ∈ _ by decide) fun _ => Kinded.joiningStrings kinded balanced
  | stringEq first second above room =>
    exact sureUnless_of_ok (show Opcode.stringEq ∈ _ by decide) fun _ => Kinded.comparingStrings kinded balanced
  | stringNe first second above room =>
    exact sureUnless_of_ok (show Opcode.stringNe ∈ _ by decide) fun _ => Kinded.comparingStrings kinded balanced
  | @arrayNew ops t elem ts rest w found array operands above room =>
    have length := operands.length_eq
    rw [List.length_replicate] at length
    have drop : (ts ++ rest).drop (Instruction.operand ⟨.arrayNew, ops⟩ 1) = rest := by
      rw [← length, List.drop_left]
    refine Sure.unless (Kinded.sure_makingArray kinded balanced (declared found) array operands
      (fun s numbers packed => ?_) fun boxed => ?_)
    · rw [← drop]
      exact Kinded.pushedObject (kinded.discarded _) (balanced.discarded _) (by rw [packed]; rfl)
    · rw [← drop]
      exact Kinded.pushedObject (kinded.dropped _) (balanced.dropped _) (by rw [boxed]; rfl)
  | arrayNewDefault found array above room =>
    refine Sure.unless (Kinded.sure_makingZeroArray kinded balanced (declared found) array
      fun o length made => ?_)
    have ty := (@Object.filled_zeroArray m.heap _ _ _ made).1
    exact Kinded.pushedObject (kinded.discarded 1) (balanced.discarded 1) (by rw [ty])
  | arrayLen array above room =>
    exact sureUnless_of_ok (show Opcode.arrayLen ∈ _ by decide) fun _ => Kinded.measuringArray kinded balanced
  | arrayGet array above room => exact absurd rfl no_read.1
  | arraySet array fits above =>
    exact sureUnless_of_ok (show Opcode.arraySet ∈ _ by decide) fun _ => Kinded.storingElement kinded
  | @structNew ops fields ts rest w found operands above room =>
    have length := operands.length_eq
    rw [List.length_reverse] at length
    have drop : (ts ++ rest).drop fields.length = rest := by rw [← length, List.drop_left]
    refine Sure.unless (Kinded.sure_makingStruct kinded balanced (declared found) operands
      fun values enough read => ?_)
    have taken := balanced.fields_taken enough read
    rw [← drop]
    exact Kinded.pushedObject ((kinded.dropped fields.length).releaseAll _) taken rfl
  | structNewDefault found room =>
    exact Sure.unless (sure_makingZeroStruct (declared found) (Kinded.pushedObject kinded balanced rfl))
  | structGet found above room => exact absurd rfl no_read.2
  | structSet found fits above =>
    exact sureUnless_of_ok (show Opcode.structSet ∈ _ by decide) fun _ => Kinded.storingField kinded

end Machine

end StackVM
