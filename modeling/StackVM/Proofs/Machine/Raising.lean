import StackVM.Proofs.ReferenceCounts

/-!
# Machines under other limits

A limit only ever stands on one side of a comparison that refuses to go on, so under wider limits every
question has the same answer or is no longer refused. Main statements: an instruction (`raised_effect`) and
a turn (`raised_next`) come to the same under wider limits, unless they failed at a limit that was raised.
-/

namespace StackVM

/-- No limit of `o` lies above that of `o'`. Initial capacities are no limits. -/
structure Options.Within (o o' : Options) : Prop where
  stack : o.stackSize ≤ o'.stackSize
  frame : o.frameSize ≤ o'.frameSize
  array : o.arraySize ≤ o'.arraySize

namespace Machine

/-- The same machine under other options. -/
def under (m : Machine) (o : Options) : Machine := { m with options := o }

/-- What `x` comes to when the limits `o` are raised to `o'`: the same, unless it failed and some limit
was really raised. -/
def Raised (o o' : Options) (x y : Except Cause Machine) : Prop :=
  y = x.map (·.under o') ∨ ¬o'.Within o ∧ ∃ c, x = .error c

namespace Raised

variable {α : Type} {o o' : Options} {m : Machine} {c : Cause}

theorem pure : Raised o o' (.ok m) (.ok (m.under o')) := .inl rfl

theorem error : Raised o o' (.error c) (.error c) := .inl rfl

/-- A question about something else than limits. -/
theorem ask {x : Except Cause α} {f g : α → Except Cause Machine}
    (rest : ∀ a, x = .ok a → Raised o o' (f a) (g a)) : Raised o o' (x >>= f) (x >>= g) := by
  cases x with
  | error c => exact error
  | ok a => exact rest a rfl

/-- A limit that refuses less when it is raised. -/
theorem reject {bad bad' : Prop} [Decidable bad] [Decidable bad'] {x y : Except Cause Machine}
    (wider : bad' → bad) (raised : bad → ¬bad' → ¬o'.Within o) (rest : Raised o o' x y) :
    Raised o o' (Machine.reject bad c >>= fun _ => x) (Machine.reject bad' c >>= fun _ => y) := by
  unfold Machine.reject
  by_cases refused' : bad'
  · rw [if_pos refused', if_pos (wider refused')]
    exact error
  rw [if_neg refused']
  by_cases refused : bad
  · rw [if_pos refused]
    exact .inr ⟨raised refused refused', c, rfl⟩
  · rw [if_neg refused]
    exact rest

theorem room {n : Nat} {x y : Except Cause Machine} (within : m.options.Within o')
    (rest : Raised m.options o' x y) :
    Raised m.options o' (m.room n >>= fun _ => x) ((m.under o').room n >>= fun _ => y) := by
  have stack := within.stack
  change Raised _ _ (Machine.reject (m.options.stackSize < m.stack.length + n) _ >>= fun _ => x)
    (Machine.reject (o'.stackSize < m.stack.length + n) _ >>= fun _ => y)
  apply reject (fun full => by omega) _ rest
  intro full spare back
  have stack' := back.stack
  omega

theorem copied (within : m.options.Within o') (v : Value) :
    Raised m.options o' (m.copied v) ((m.under o').copied v) := room within pure

end Raised

variable {m : Machine} {o' : Options}

theorem under_heap : (m.under o').heap = m.heap := rfl

theorem under_frames : (m.under o').frames = m.frames := rfl

theorem under_read? (k : Kind) (d : Nat) :
    (m.under o').read? k ((m.under o').peek d) = m.read? k (m.peek d) := rfl

theorem under_pushedRead (v : Value) : (m.under o').pushedRead v = (m.pushedRead v).under o' := by
  unfold pushedRead
  cases v with
  | i64 n =>
    by_cases fits : Value.fitsPayload n = true
    · simp only [fits, if_true]
      rfl
    · simp only [fits]
      rfl
  | _ => rfl

theorem under_replaced (n : Nat) (v : Value) : (m.under o').replaced n v = (m.replaced n v).under o' :=
  under_pushedRead (m := m.discarded n) v

theorem under_setGlobal (i : Nat) (v : Value) :
    (m.under o').setGlobal i v = (m.setGlobal i v).under o' := by
  unfold setGlobal
  simp only [under]
  cases m.globals.get? i <;> rfl

theorem under_setIp (ip : Nat) : (m.under o').setIp ip = (m.setIp ip).under o' := by
  obtain ⟨program, options, stack, frames, globals, constants, heap⟩ := m
  cases frames <;> rfl

/-! ### Calls -/

/-- Functions and closures are entered alike. -/
theorem raised_entering (within : m.options.Within o') (f : Function) (captures : List Value)
    (callee : Nat) :
    Raised m.options o' (m.entering f captures callee) ((m.under o').entering f captures callee) := by
  have stack := within.stack
  have frame := within.frame
  refine .reject (fun many => many) (fun many few => absurd many few) ?_
  refine .ask fun _ _ => ?_
  refine .reject (fun deep : o'.frameSize ≤ m.frames.length => by omega) ?_ ?_
  · intro deep (spare : ¬o'.frameSize ≤ m.frames.length) back
    have frame' := back.frame
    omega
  refine .reject (fun full : o'.stackSize < m.stack.length - 1 + f.locals => by omega) ?_ .pure
  intro full (spare : ¬o'.stackSize < m.stack.length - 1 + f.locals) back
  have stack' := back.stack
  omega

theorem raised_calling (within : m.options.Within o') :
    Raised m.options o' m.calling (m.under o').calling := by
  refine .ask fun _ _ => ?_
  refine .ask fun callee _ => ?_
  rw [under_heap]
  cases m.heap.get? callee with
  | none => exact .error
  | some o =>
    cases o with
    | function f => exact raised_entering within f [] callee
    | closure f captures => exact raised_entering within f captures callee
    | _ => exact .error

theorem raised_returning : Raised m.options o' m.returning (m.under o').returning := by
  unfold returning
  rw [under_frames]
  cases m.frames with
  | nil => exact .error
  | cons frame callers => exact .ask fun _ _ => .pure

/-! ### Jumps, strings, arrays and structs -/

theorem raised_jumped (size next : Nat) (displacement : Int) :
    Raised m.options o' (m.jumped size next displacement) ((m.under o').jumped size next displacement) := by
  unfold jumped
  cases Code.jumpTarget? next displacement with
  | none => exact .error
  | some target =>
    by_cases inside : target < size
    · simp only [inside, if_true, under_setIp]
      exact .pure
    · simp only [inside, if_false]
      exact .error

/-- A jump on which the top operand goes. -/
theorem raised_branch (size next : Nat) (displacement : Int) :
    Raised m.options o' (m.jumped size next displacement >>= fun moved => .ok (moved.discarded 1))
      ((m.under o').jumped size next displacement >>= fun moved => .ok (moved.discarded 1)) := by
  unfold jumped
  cases Code.jumpTarget? next displacement with
  | none => exact .error
  | some target =>
    by_cases inside : target < size
    · simp only [inside, if_true, under_setIp]
      exact .pure
    · simp only [inside, if_false]
      exact .error

theorem raised_measuringString : Raised m.options o' m.measuringString (m.under o').measuringString := by
  refine .ask fun _ _ => ?_
  refine .ask fun o _ => ?_
  cases o with
  | string s =>
    simp only [under_replaced]
    exact .pure
  | _ => exact .error

theorem raised_comparingStrings (equal : Bool) :
    Raised m.options o' (m.comparingStrings equal) ((m.under o').comparingStrings equal) := by
  refine .ask fun _ _ => ?_
  refine .ask fun strings _ => ?_
  simp only [under_replaced]
  exact .pure

/-- Room that an empty array or struct needs. -/
theorem Raised.roomAfter {count : Nat} {x y : Except Cause Machine} (within : m.options.Within o')
    (rest : Raised m.options o' x y) :
    Raised m.options o' (m.roomAfter count >>= fun _ => x) ((m.under o').roomAfter count >>= fun _ => y) := by
  unfold Machine.roomAfter
  by_cases empty : count = 0
  · simp only [empty, if_true]
    exact .room within rest
  · simp only [empty, if_false]
    exact rest

theorem raised_makingArray (within : m.options.Within o') (index count : Nat) :
    Raised m.options o' (m.makingArray index count) ((m.under o').makingArray index count) := by
  refine .ask fun t _ => ?_
  cases t.elem? with
  | none => exact .error
  | some elem =>
    refine .ask fun _ _ => ?_
    refine .ask (x := m.readAll _ _) fun numbers _ => ?_
    refine .roomAfter within ?_
    cases t <;> exact .pure

theorem raised_makingZeroArray (within : m.options.Within o') (index : Nat) :
    Raised m.options o' (m.makingZeroArray index) ((m.under o').makingZeroArray index) := by
  have array := within.array
  refine .ask fun t _ => ?_
  refine .ask fun _ _ => ?_
  refine .ask fun length _ => ?_
  refine .reject (fun long : o'.arraySize < length => by omega) ?_ ?_
  · intro long (short : ¬o'.arraySize < length) back
    have array' := back.array
    omega
  exact .ask fun o _ => .pure

theorem raised_measuringArray : Raised m.options o' m.measuringArray (m.under o').measuringArray := by
  refine .ask fun _ _ => ?_
  refine .ask fun o _ => ?_
  cases o.length? with
  | none => exact .error
  | some n =>
    simp only [under_replaced]
    exact .pure

theorem raised_readingElement : Raised m.options o' m.readingElement (m.under o').readingElement := by
  refine .ask fun _ _ => ?_
  refine .ask fun i _ => ?_
  refine .ask fun o _ => ?_
  refine .ask fun _ _ => ?_
  refine .ask fun v _ => ?_
  exact .inl (congrArg Except.ok (under_replaced (m := m.retain v) 2 v))

theorem raised_storingElement : Raised m.options o' m.storingElement (m.under o').storingElement := by
  refine .ask fun _ _ => ?_
  refine .ask fun i _ => ?_
  refine .ask fun a _ => ?_
  refine .ask fun o _ => ?_
  cases o.ty.elem? with
  | none => exact .error
  | some elem =>
    simp only [under_read?]
    cases m.read? elem.kind (m.peek 0) with
    | none => exact .error
    | some number => exact .ask fun old _ => .pure

theorem raised_makingStruct (within : m.options.Within o') (index : Nat) :
    Raised m.options o' (m.makingStruct index) ((m.under o').makingStruct index) := by
  refine .ask fun fields _ => ?_
  refine .ask fun _ _ => ?_
  refine .ask (x := m.readAll _ _) fun values _ => ?_
  exact .roomAfter within .pure

theorem raised_readingField (field : Nat) :
    Raised m.options o' (m.readingField field) ((m.under o').readingField field) := by
  refine .ask fun _ _ => ?_
  refine .ask fun o _ => ?_
  cases o with
  | struct r =>
    refine .ask fun v _ => ?_
    exact .inl (congrArg Except.ok (under_replaced (m := m.retain v) 1 v))
  | _ => exact .error

theorem raised_storingField (field : Nat) :
    Raised m.options o' (m.storingField field) ((m.under o').storingField field) := by
  refine .ask fun _ _ => ?_
  refine .ask fun a _ => ?_
  refine .ask fun o _ => ?_
  cases o with
  | struct r =>
    refine .ask fun t _ => ?_
    refine .ask fun old _ => ?_
    rw [under_read?]
    cases m.read? t.kind (m.peek 0) with
    | none => exact .error
    | some stored => exact .pure
  | _ => exact .error

/-! ### All instructions -/

/-- Under wider limits an instruction comes to the same, unless it failed at a limit that was raised. -/
theorem raised_effect (within : m.options.Within o') (inst : Instruction) (size next : Nat) :
    Raised m.options o' (m.effect inst size next) ((m.under o').effect inst size next) := by
  unfold effect
  cases inst.opcode with
  | nop => exact .pure
  | unreachable => exact .error
  | drop => exact .ask fun _ _ => .pure
  | dup => exact .ask fun _ _ => .copied within _
  | swap => exact .ask fun _ _ => .pure
  | select =>
    refine .ask fun _ _ => ?_
    refine .ask fun condition _ => ?_
    refine .ask fun _ _ => ?_
    cases condition != 0 <;> exact .pure
  | br => exact raised_jumped size next _
  | brIf =>
    refine .ask fun _ _ => ?_
    refine .ask fun condition _ => ?_
    cases condition != 0 with
    | true => exact raised_branch size next _
    | false => exact .pure
  | brTable =>
    refine .ask fun _ _ => ?_
    refine .ask fun selector _ => ?_
    exact raised_branch size next _
  | call => exact raised_calling within
  | ret => exact raised_returning
  | globalGet => exact .ask fun v _ => .copied within v
  | globalSet =>
    refine .ask fun _ _ => ?_
    exact .inl (congrArg Except.ok (under_setGlobal (m := m.dropped 1) _ _))
  | globalTee =>
    refine .ask fun _ _ => ?_
    exact .inl (congrArg Except.ok (under_setGlobal (m := m.retain (m.peek 0)) _ _))
  | localGet => exact .ask fun place _ => .copied within _
  | localSet =>
    refine .ask fun place _ => ?_
    exact .ask fun _ _ => .pure
  | localTee =>
    refine .ask fun place _ => ?_
    exact .ask fun _ _ => .pure
  | constGet => exact .ask fun v _ => .copied within v
  | refNull => exact .room within .pure
  | const s =>
    refine .room within ?_
    exact .inl (congrArg Except.ok (under_pushedRead _))
  | operation op =>
    refine .ask fun _ _ => ?_
    refine .ask fun operands _ => ?_
    refine .ask fun result _ => ?_
    exact .inl (congrArg Except.ok (under_replaced _ result))
  | stringLen => exact raised_measuringString
  | stringConcat =>
    refine .ask fun _ _ => ?_
    exact .ask fun strings _ => .pure
  | stringEq => exact raised_comparingStrings true
  | stringNe => exact raised_comparingStrings false
  | arrayNew => exact raised_makingArray within _ _
  | arrayNewDefault => exact raised_makingZeroArray within _
  | arrayLen => exact raised_measuringArray
  | arrayGet => exact raised_readingElement
  | arraySet => exact raised_storingElement
  | structNew => exact raised_makingStruct within _
  | structNewDefault =>
    refine .ask fun fields _ => ?_
    exact .room within .pure
  | structGet => exact raised_readingField _
  | structSet => exact raised_storingField _

end Machine

end StackVM
