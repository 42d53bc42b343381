import StackVM.Proofs.ReferenceCounts

/-!
# Limits that instructions keep

What pushes asks for room first, or takes the place of operands that it has dropped; what adds a frame asks for
room for the frame and its locals. So every instruction but a call of the host keeps a machine within its
limits, however it ends (`limits_execute`). A stack that the host has made too high gets no higher.
-/

namespace StackVM

/-! ### What the host may do -/

/-- However its requests are answered, a script that finishes leaves the stack at most `n` values higher. -/
def Script.Grows : Script → Int → Prop
  | .finish _, n => 0 ≤ n
  | .fail _, _ => True
  | .tryPush _ next, n => (next (.ok ())).Grows (n - 1) ∧ ∀ e, (next (.error e)).Grows n
  | .tryPushInt _ next, n => (next (.ok ())).Grows (n - 1) ∧ ∀ e, (next (.error e)).Grows n
  | .tryPop next, n => (∀ v, (next (.ok v)).Grows (n + 1)) ∧ ∀ e, (next (.error e)).Grows n
  | .alloc _ next, n => ∀ v, (next v).Grows n
  | .retain _ next, n => next.Grows n
  | .release _ next, n => next.Grows n
  | .getGlobal _ next, n => ∀ v, (next v).Grows n
  | .setGlobal _ _ next, n => next.Grows n
  | .readInt _ next, n => ∀ i, (next i).Grows n
  | .readString _ next, n => ∀ s, (next s).Grows n
  | .reset next, n => next.Grows n
  | .tryRun _, _ => False

mutual

/-- A function of the host goes past the limit of the stack by at most `k` values: it has no more results
than that, or its callback leaves no more behind. -/
def Object.Modest (k : Nat) : Object → Prop
  | .host signature body =>
    ∀ arguments, (body arguments).Modest k ∧
      (signature.returns.length ≤ k ∨ (body arguments).Grows k)
  | _ => True

/-- The script does not run the machine, and every function that it puts on the heap is modest. -/
def Script.Modest (k : Nat) : Script → Prop
  | .finish _ => True
  | .fail _ => True
  | .tryPush _ next => ∀ answer, (next answer).Modest k
  | .tryPushInt _ next => ∀ answer, (next answer).Modest k
  | .tryPop next => ∀ answer, (next answer).Modest k
  | .alloc o next => o.Modest k ∧ ∀ v, (next v).Modest k
  | .retain _ next => next.Modest k
  | .release _ next => next.Modest k
  | .getGlobal _ next => ∀ v, (next v).Modest k
  | .setGlobal _ _ next => next.Modest k
  | .readInt _ next => ∀ i, (next i).Modest k
  | .readString _ next => ∀ s, (next s).Modest k
  | .reset next => next.Modest k
  | .tryRun _ => False

end

theorem Script.modest_orFail {α : Type} {k : Nat} {next : α → Script} (modest : ∀ a, (next a).Modest k) :
    ∀ answer, (Script.orFail next answer).Modest k
  | .ok a => modest a
  | .error _ => trivial

namespace Exec

variable {α β : Type} {m : Machine} {P : β → Machine → Prop} {P' Q : Machine → Prop}

/-- Where something ends: an answer comes with `P`, an error leaves `Q`. -/
def Ends (P : α → Machine → Prop) (Q : Machine → Prop) (x : Exec α) (m : Machine) : Prop :=
  match x m with
  | .ok a m' => P a m'
  | .error _ m' => Q m'

theorem Ends.bind {R : α → Machine → Prop} {x : Exec α} {f : α → Exec β} (first : Ends R Q x m)
    (rest : ∀ a m', R a m' → Ends P Q (f a) m') : Ends P Q (x >>= f) m := by
  change (match EStateM.bind x f m with | .ok b m' => P b m' | .error _ m' => Q m')
  unfold Ends at first
  rw [EStateM.bind]
  cases result : x m with
  | ok a m' =>
    rw [result] at first
    exact rest a m' first
  | error stop m' =>
    rw [result] at first
    exact first

/-- A question changes nothing. -/
theorem ends_ask {question : Machine → Except Cause α} (refused : Q m) :
    Ends (fun a m' => question m = .ok a ∧ m' = m) Q (Exec.ask question) m := by
  unfold Ends
  rw [ask_apply]
  cases answer : question m with
  | ok a => exact ⟨rfl, rfl⟩
  | error c => exact refused

theorem Ends.ask {question : Machine → Except Cause α} {f : α → Exec β} (refused : Q m)
    (rest : ∀ a, question m = .ok a → Ends P Q (f a) m) : Ends P Q (Exec.ask question >>= f) m := by
  apply (ends_ask refused).bind
  rintro a _ ⟨answer, rfl⟩
  exact rest a answer

theorem Ends.modify {change : Machine → Machine} {f : Unit → Exec β} (rest : Ends P Q (f ()) (change m)) :
    Ends P Q (modify change >>= f) m := rest

theorem Ends.modifyGet {change : Machine → α × Machine} {f : α → Exec β}
    (rest : Ends P Q (f (change m).1) (change m).2) : Ends P Q (modifyGet change >>= f) m := rest

theorem Ends.get {f : Machine → Exec β} (rest : Ends P Q (f m) m) : Ends P Q (get >>= f) m := rest

/-- An attempt that fails ends with what the error leaves. -/
theorem Ends.attempt {R : α → Machine → Prop} {x : Exec α} {f : Except Error α → Exec β} (first : Ends R Q x m)
    (stopped : ∀ m', Q m' → P' m') (done : ∀ a m', R a m' → Ends P P' (f (.ok a)) m')
    (failed : ∀ e m', Q m' → Ends P P' (f (.error e)) m') : Ends P P' (Exec.attempt x >>= f) m := by
  change (match EStateM.bind (Exec.attempt x) f m with | .ok b m' => P b m' | .error _ m' => P' m')
  unfold Ends at first
  rw [EStateM.bind, Exec.attempt]
  cases result : x m with
  | ok a m' =>
    rw [result] at first
    exact done a m' first
  | error stop m' =>
    rw [result] at first
    cases stop with
    | fault e => exact failed e m' first
    | exhausted => exact stopped m' first

theorem Ends.imp {R : β → Machine → Prop} {x : Exec β} (ends : Ends R Q x m)
    (weaker : ∀ a m', R a m' → P a m') : Ends P Q x m := by
  unfold Ends at *
  split
  · next a m' result =>
    rw [result] at ends
    exact weaker a m' ends
  · next stop m' result =>
    rwa [result] at ends

theorem Ends.and {R : β → Machine → Prop} {x : Exec β} (ends : Ends P Q x m)
    (also : Ends R (fun _ => True) x m) : Ends (fun a m' => P a m' ∧ R a m') Q x m := by
  unfold Ends at *
  split
  · next a m' result =>
    rw [result] at ends also
    exact ⟨ends, also⟩
  · next stop m' result =>
    rwa [result] at ends

end Exec

namespace Machine

/-- The frames keep to their limit, the stack goes past its own by at most `extra` values, and functions of
the host are modest. -/
structure Limited (opts : Options) (k extra : Nat) (m : Machine) : Prop where
  options : m.options = opts
  stack : m.stack.length ≤ opts.stackSize + extra
  frames : m.frames.length ≤ opts.frameSize
  modest : ∀ a o, m.heap.get? a = some o → o.Modest k

namespace Limited

variable {m m' : Machine} {opts : Options} {k extra : Nat} {v : Value}

/-- A machine that has no more of anything. -/
theorem lower (limited : m.Limited opts k extra) (options : m'.options = m.options)
    (stack : m'.stack.length ≤ m.stack.length) (frames : m'.frames.length ≤ m.frames.length)
    (heap : ∀ a o, m'.heap.get? a = some o → m.heap.get? a = some o) : m'.Limited opts k extra where
  options := options.trans limited.options
  stack := Nat.le_trans stack limited.stack
  frames := Nat.le_trans frames limited.frames
  modest a o found := limited.modest a o (heap a o found)

theorem mono {more : Nat} (limited : m.Limited opts k extra) (less : extra ≤ more) :
    m.Limited opts k more where
  options := limited.options
  stack := Nat.le_trans limited.stack (Nat.add_le_add_left less _)
  frames := limited.frames
  modest := limited.modest

theorem releaseAll (limited : m.Limited opts k extra) (vs : List Value) :
    (m.releaseAll vs).Limited opts k extra :=
  limited.lower rfl (Nat.le_refl _) (Nat.le_refl _) fun _ _ => Heap.get?_of_releaseValues

theorem release (limited : m.Limited opts k extra) (v : Value) : (m.release v).Limited opts k extra :=
  limited.releaseAll [v]

theorem retain (limited : m.Limited opts k extra) (v : Value) : (m.retain v).Limited opts k extra := by
  refine limited.lower rfl (Nat.le_refl _) (Nat.le_refl _) fun a o found => ?_
  cases v with
  | ref b => rwa [← Heap.get?_retain m.heap b]
  | _ => exact found

theorem dropped (limited : m.Limited opts k extra) (n : Nat) : (m.dropped n).Limited opts k extra := by
  refine limited.lower rfl ?_ (Nat.le_refl _) fun _ _ found => found
  rw [Machine.dropped, List.length_drop]
  omega

theorem discarded (limited : m.Limited opts k extra) (n : Nat) : (m.discarded n).Limited opts k extra :=
  (limited.dropped n).releaseAll _

theorem setIp (limited : m.Limited opts k extra) (ip : Nat) : (m.setIp ip).Limited opts k extra := by
  unfold Machine.setIp
  split
  · exact limited
  · next frame rest frames =>
    refine limited.lower rfl (Nat.le_refl _) ?_ fun _ _ found => found
    rw [frames]
    exact Nat.le_refl _

theorem pushed (limited : m.Limited opts k extra) (room : m.stack.length + 1 ≤ opts.stackSize + extra)
    (v : Value) : (m.pushed v).Limited opts k extra :=
  ⟨limited.options, room, limited.frames, limited.modest⟩

theorem alloc (limited : m.Limited opts k extra) {o : Object} (modest : o.Modest k) :
    (m.alloc o).2.Limited opts k extra := by
  refine ⟨limited.options, limited.stack, limited.frames, fun a o' found => ?_⟩
  rcases Heap.get?_of_alloc found with rfl | before
  · exact modest
  · exact limited.modest a o' before

/-- A machine with a lower stack has room for one more value. -/
theorem room (limited : m.Limited opts k extra) (lower : m'.stack.length < m.stack.length) :
    m'.stack.length + 1 ≤ opts.stackSize + extra :=
  Nat.le_trans lower limited.stack

/-- Where there is room within the limit, there is room beyond it. -/
theorem room_of_ok (limited : m.Limited opts k extra) {n : Nat} {u : Unit} (room : m.room n = .ok u) :
    m.stack.length + n ≤ opts.stackSize + extra := by
  have room := room_eq_ok.1 room
  rw [limited.options] at room
  omega

theorem pushedObject (limited : m.Limited opts k extra) {o : Object} (modest : o.Modest k)
    (room : m.stack.length + 1 ≤ opts.stackSize + extra) : (m.pushedObject o).Limited opts k extra :=
  (limited.alloc modest).pushed room _

theorem update (limited : m.Limited opts k extra) {f : Object → Object} (a : Nat)
    (modest : ∀ o, o.Modest k → (f o).Modest k) :
    Limited opts k extra { m with heap := m.heap.update a f } := by
  refine ⟨limited.options, limited.stack, limited.frames, fun b o found => ?_⟩
  rw [Heap.get?_update] at found
  split at found
  · obtain ⟨o', before, rfl⟩ := Option.map_eq_some_iff.1 found
    exact modest o' (limited.modest b o' before)
  · exact limited.modest b o found

theorem setGlobal (limited : m.Limited opts k extra) (i : Nat) (v : Value) :
    (m.setGlobal i v).Limited opts k extra := by
  have put : Limited opts k extra { m with globals := m.globals.put i v } :=
    ⟨limited.options, limited.stack, limited.frames, limited.modest⟩
  unfold Machine.setGlobal
  cases m.globals.get? i with
  | none => exact put
  | some w => exact put.release w

theorem setPlace (limited : m.Limited opts k extra) (place : Nat) (v : Value) :
    (m.setPlace place v).Limited opts k extra := by
  have set : Limited opts k extra { m with stack := m.stack.set (m.fromTop place) v } := by
    refine limited.lower rfl ?_ (Nat.le_refl _) fun _ _ found => found
    rw [List.length_set]
  exact set.release _

theorem reset (limited : m.Limited opts k extra) : m.reset.Limited opts k extra :=
  limited.lower rfl (Nat.zero_le _) (Nat.zero_le _) fun _ _ => Balanced.get?_of_reset

end Limited

end Machine

namespace Exec

/-- Whatever comes of it, the limits are kept. -/
abbrev Limits {α : Type} (opts : Options) (k extra : Nat) (x : Exec α) (m : Machine) : Prop :=
  Ends (fun _ => Machine.Limited opts k extra) (Machine.Limited opts k extra) x m

variable {α β : Type} {m : Machine} {opts : Options} {k extra : Nat} {v : Value}

/-! ### Stack -/

theorem limits_push (limited : m.Limited opts k extra) (v : Value) : Limits opts k extra (push v) m := by
  refine .ask limited fun _ room => ?_
  exact limited.pushed (limited.room_of_ok room) v

theorem limits_pushInt (limited : m.Limited opts k extra) (n : BitVec 64) :
    Limits opts k extra (pushInt n) m := by
  refine .ask limited fun _ room => ?_
  split
  · exact limited.pushed (limited.room_of_ok room) _
  · exact limited.pushedObject trivial (limited.room_of_ok room)

theorem limits_pushRead (limited : m.Limited opts k extra) (v : Value) : Limits opts k extra (pushRead v) m := by
  cases v with
  | i64 n => exact limits_pushInt limited n
  | _ => exact limits_push limited _

theorem limits_pushCopy (limited : m.Limited opts k extra) (v : Value) : Limits opts k extra (pushCopy v) m := by
  refine .ask limited fun _ room => ?_
  exact (limited.retain v).pushed (limited.room_of_ok room) v

theorem limits_replaceTop (limited : m.Limited opts k extra) (n : Nat) (v : Value) :
    Limits opts k extra (replaceTop n v) m :=
  limits_pushRead (limited.discarded n) v

theorem limits_jump (limited : m.Limited opts k extra) (size next : Nat) (displacement : Int) :
    Limits opts k extra (jump size next displacement) m := by
  unfold jump
  split
  · split
    · exact limited.setIp _
    · exact limited
  · exact limited

/-! ### Memory -/

theorem limits_stringLen (limited : m.Limited opts k extra) : Limits opts k extra stringLen m := by
  refine .ask limited fun _ _ => .ask limited fun o _ => ?_
  cases o with
  | string s => exact limits_replaceTop limited 1 _
  | _ => exact limited

theorem length_drop_lt {n : Nat} {vs : List Value} (some_value : 0 < n) (enough : n ≤ vs.length) :
    (vs.drop n).length < vs.length := by
  rw [List.length_drop]
  omega

theorem limits_stringConcat (limited : m.Limited opts k extra) : Limits opts k extra stringConcat m := by
  refine .ask limited fun _ need => .ask limited fun texts _ => .modify ?_
  have enough := Machine.need_eq_ok.1 need
  exact (limited.discarded 2).pushedObject trivial
    (limited.room (length_drop_lt (by omega) (by omega)))

theorem limits_stringTest (limited : m.Limited opts k extra) (equal : Bool) :
    Limits opts k extra (stringTest equal) m :=
  .ask limited fun _ _ => .ask limited fun _ _ => limits_replaceTop limited 2 _

/-- A new object takes the place of the operands that it is made from. -/
theorem limited_made {n : Nat} {o : Object} {m' : Machine} (limited : m.Limited opts k extra)
    (taken : m'.Limited opts k extra) (modest : o.Modest k) (stack : m'.stack = m.stack.drop n)
    (enough : n ≤ m.stack.length) (room : n = 0 → m.stack.length + 1 ≤ opts.stackSize + extra) :
    (m'.pushedObject o).Limited opts k extra := by
  refine taken.pushedObject modest ?_
  by_cases none : n = 0
  · rw [stack, none, List.drop_zero]
    exact room none
  · apply limited.room
    rw [stack]
    exact length_drop_lt (by omega) enough

theorem limits_arrayNew (limited : m.Limited opts k extra) (index count : Nat) :
    Limits opts k extra (arrayNew index count) m := by
  refine .ask limited fun t _ => ?_
  cases t.elem? with
  | none => exact limited
  | some elem =>
    refine .ask limited fun _ need => .get (.ask limited fun numbers _ => ?_)
    have enough := Machine.need_eq_ok.1 need
    have fits : count ≤ m.stack.length := by omega
    -- an empty array is the one case that asks for room
    by_cases empty : count = 0
    · simp only [empty, if_true]
      refine .ask limited fun _ room => ?_
      have room := limited.room_of_ok room
      cases t with
      | packed s => exact limited_made limited (limited.discarded 0) trivial rfl (Nat.zero_le _) fun _ => room
      | _ => exact limited_made limited (limited.dropped 0) trivial rfl (Nat.zero_le _) fun _ => room
    · simp only [empty, if_false]
      cases t with
      | packed s =>
        exact limited_made limited (limited.discarded count) trivial rfl fits fun none => absurd none empty
      | _ =>
        exact limited_made limited (limited.dropped count) trivial rfl fits fun none => absurd none empty

theorem limits_arrayNewDefault (limited : m.Limited opts k extra) (index : Nat) :
    Limits opts k extra (arrayNewDefault index) m := by
  refine .ask limited fun t _ => .ask limited fun _ need => .ask limited fun length _ => .get ?_
  have enough := Machine.need_eq_ok.1 need
  have made {o : Object} (modest : o.Modest k) : ((m.discarded 1).pushedObject o).Limited opts k extra :=
    limited_made limited (limited.discarded 1) modest rfl (by omega) fun none => absurd none (by decide)
  by_cases long : m.options.arraySize < length
  · simp only [long, if_true]
    exact limited
  · simp only [long, if_false]
    cases t with
    | packed s => exact made trivial
    | array elem => exact made trivial
    | _ => exact limited

theorem limits_arrayLen (limited : m.Limited opts k extra) : Limits opts k extra arrayLen m := by
  refine .ask limited fun _ _ => .ask limited fun o _ => ?_
  split
  · exact limits_replaceTop limited 1 _
  · exact limited

theorem limits_arrayGet (limited : m.Limited opts k extra) : Limits opts k extra arrayGet m := by
  refine .ask limited fun _ _ => .ask limited fun i _ => .ask limited fun o _ => ?_
  split
  · exact limited
  · refine .ask limited fun v _ => .modify ?_
    exact limits_replaceTop (limited.retain v) 2 v

theorem modest_setElement (o : Object) (i : Nat) (v : Value) (modest : o.Modest k) :
    (o.setElement i v).Modest k := by
  cases o with
  | packed p => trivial
  | array elem elems => trivial
  | _ => exact modest

theorem modest_setField (o : Object) (i : Nat) (v : Value) (modest : o.Modest k) :
    (o.setField i v).Modest k := by
  cases o with
  | struct r => trivial
  | _ => exact modest

theorem limits_arraySet (limited : m.Limited opts k extra) : Limits opts k extra arraySet m := by
  refine .ask limited fun _ _ => .ask limited fun i _ => .ask limited fun a _ => .ask limited fun o _ => ?_
  cases o.ty.elem? with
  | none => exact limited
  | some elem =>
    refine .get ?_
    dsimp only
    cases m.read? elem.kind (m.peek 0) with
    | none => exact limited
    | some number =>
      refine .ask limited fun old _ => ?_
      obtain ⟨stored, replaced⟩ := exchange o (m.peek 0) number old
      refine .modify (.modify ?_)
      have changed := (limited.dropped 1).update a fun o modest => modest_setElement o i stored modest
      exact (changed.release replaced).discarded 2

/-- The fields of a type are looked up without changing anything. -/
theorem ends_structFields {Q : Machine → Prop} (refused : Q m) (index : Nat) :
    Ends (fun _ m' => m' = m) Q (structFields index) m := by
  unfold Ends
  rw [structFields_apply]
  cases m.structFields index with
  | ok fields => rfl
  | error c => exact refused

theorem Limits.structFields {index : Nat} {f : List Ty → Exec Unit} (limited : m.Limited opts k extra)
    (rest : ∀ fields, Limits opts k extra (f fields) m) :
    Limits opts k extra (structFields index >>= f) m := by
  apply (ends_structFields limited index).bind
  rintro fields _ rfl
  exact rest fields

theorem limits_structNew (limited : m.Limited opts k extra) (index : Nat) :
    Limits opts k extra (structNew index) m := by
  refine .structFields limited fun fields => ?_
  refine .ask limited fun _ need => .get (.ask limited fun values _ => ?_)
  have enough := Machine.need_eq_ok.1 need
  -- a struct without fields is the one case that asks for room
  by_cases empty : fields.length = 0
  · simp only [empty, if_true]
    refine .ask limited fun _ room => .modify (.modify ?_)
    exact limited_made limited ((limited.dropped 0).releaseAll _) trivial rfl (Nat.zero_le _)
      fun _ => limited.room_of_ok room
  · simp only [empty, if_false]
    refine .modify (.modify ?_)
    exact limited_made limited ((limited.dropped fields.length).releaseAll _) trivial rfl (by omega)
      fun none => absurd none empty

theorem limits_structNewDefault (limited : m.Limited opts k extra) (index : Nat) :
    Limits opts k extra (structNewDefault index) m := by
  refine .structFields limited fun fields => .ask limited fun _ room => ?_
  exact limited.pushedObject trivial (limited.room_of_ok room)

theorem limits_structGet (limited : m.Limited opts k extra) (field : Nat) :
    Limits opts k extra (structGet field) m := by
  refine .ask limited fun _ _ => .ask limited fun o _ => ?_
  split
  · refine .ask limited fun v _ => .modify ?_
    exact limits_replaceTop (limited.retain v) 1 v
  · exact limited

theorem limits_structSet (limited : m.Limited opts k extra) (field : Nat) :
    Limits opts k extra (structSet field) m := by
  refine .ask limited fun _ _ => .ask limited fun a _ => .ask limited fun o _ => ?_
  cases o with
  | struct r =>
    refine .ask limited fun t _ => .ask limited fun old _ => .get ?_
    dsimp only
    cases m.read? t.kind (m.peek 0) with
    | none => exact limited
    | some stored =>
      refine .modify (.modify ?_)
      have changed := (limited.dropped 1).update a fun o modest => modest_setField o field stored modest
      exact (changed.release _).discarded 1
  | _ => exact limited

/-! ### Calls -/

theorem limits_enter (limited : m.Limited opts k extra) (f : Function) (captures : List Value) (callee : Nat) :
    Limits opts k extra (enter f captures callee) m := by
  unfold enter
  by_cases many : f.locals < captures.length
  · simp only [many, if_true]
    exact limited
  · simp only [many, if_false]
    refine .ask limited fun _ _ => .get ?_
    by_cases frames : m.options.frameSize ≤ m.frames.length
    · simp only [frames, if_true]
      exact limited
    by_cases locals : m.options.stackSize < m.stack.length - 1 + f.locals
    · simp only [frames, locals, if_true, if_false]
      exact limited
    simp only [frames, locals, if_false]
    rw [limited.options] at frames locals
    refine ⟨limited.options, ?_, ?_, fun a o found => ?_⟩
    · change ((captures ++ List.replicate (f.locals - captures.length) Value.null).reverse ++
        m.stack.drop 1).length ≤ opts.stackSize + extra
      simp only [List.length_append, List.length_reverse, List.length_replicate, List.length_drop]
      omega
    · change m.frames.length + 1 ≤ opts.frameSize
      omega
    · apply limited.modest a o
      rwa [← Heap.get?_retainValues m.heap captures]

theorem limits_ret (limited : m.Limited opts k extra) : Limits opts k extra ret m := by
  refine .get ?_
  cases frames : m.frames with
  | nil => exact limited
  | cons frame callers =>
    refine .ask limited fun _ _ => ?_
    refine limited.lower rfl ?_ ?_ fun a o found => ?_
    · simp only [Machine.returned, List.length_append, List.length_take, List.length_drop]
      omega
    · change m.frames.tail.length ≤ m.frames.length
      rw [List.length_tail]
      omega
    · exact Heap.get?_of_releaseValues (Heap.get?_of_releaseAll found)

/-! ### Turns -/

theorem limits_execute (limited : m.Limited opts k extra) (nested : Exec Unit)
    (calls : Limits opts k extra (call nested) m) (inst : Instruction) (size next : Nat) :
    Limits opts k extra (executeDecoded nested inst size next) m := by
  obtain ⟨opcode, operands⟩ := inst
  cases opcode with
  | nop => exact limited
  | unreachable => exact limited
  | drop => exact .ask limited fun _ _ => limited.discarded 1
  | dup => exact .ask limited fun _ _ => .get (limits_pushCopy limited _)
  | swap =>
    refine .ask limited fun _ need => limited.lower rfl ?_ (Nat.le_refl _) fun _ _ found => found
    have enough := Machine.need_eq_ok.1 need
    simp only [List.length_cons, List.length_drop]
    omega
  | select =>
    refine .ask limited fun _ need => .ask limited fun condition _ => .get ?_
    have enough := Machine.need_eq_ok.1 need
    have kept (v w : Value) : (((m.dropped 3).release v).pushed w).Limited opts k extra :=
      ((limited.dropped 3).release v).pushed
        (limited.room (length_drop_lt (by omega) (by omega))) w
    by_cases same : m.sameKind (m.peek 2) (m.peek 1) = true
    · simp only [same, Bool.not_true, Bool.false_eq_true, if_false]
      exact kept _ _
    · simp only [same, Bool.not_false, if_true]
      exact limited
  | br => exact limits_jump limited _ _ _
  | brIf =>
    refine .ask limited fun _ _ => .ask limited fun condition _ => ?_
    by_cases taken : (condition != 0) = true
    · simp only [taken, if_true]
      exact Ends.bind (limits_jump limited _ _ _) fun _ _ jumped => jumped.discarded 1
    · simp only [taken]
      exact limited.discarded 1
  | brTable =>
    refine .ask limited fun _ _ => .ask limited fun selector _ => ?_
    exact Ends.bind (limits_jump limited _ _ _) fun _ _ jumped => jumped.discarded 1
  | call => exact calls
  | ret => exact limits_ret limited
  | globalGet => exact .ask limited fun v _ => limits_pushCopy limited v
  | globalSet =>
    refine .ask limited fun _ _ => ?_
    exact (limited.dropped 1).setGlobal _ _
  | globalTee => exact .ask limited fun _ _ => .get ((limited.retain _).setGlobal _ _)
  | localGet => exact .ask limited fun place _ => .get (limits_pushCopy limited _)
  | localSet =>
    refine .ask limited fun place _ => .ask limited fun _ _ => ?_
    exact (limited.dropped 1).setPlace _ _
  | localTee => exact .ask limited fun place _ => .ask limited fun _ _ => .get ((limited.retain _).setPlace _ _)
  | constGet => exact .ask limited fun v _ => limits_pushCopy limited v
  | refNull => exact limits_push limited _
  | const s => exact limits_pushRead limited _
  | operation op =>
    exact .ask limited fun _ _ => .ask limited fun _ _ => .ask limited fun _ _ => limits_replaceTop limited _ _
  | stringLen => exact limits_stringLen limited
  | stringConcat => exact limits_stringConcat limited
  | stringEq => exact limits_stringTest limited true
  | stringNe => exact limits_stringTest limited false
  | arrayNew => exact limits_arrayNew limited _ _
  | arrayNewDefault => exact limits_arrayNewDefault limited _
  | arrayLen => exact limits_arrayLen limited
  | arrayGet => exact limits_arrayGet limited
  | arraySet => exact limits_arraySet limited
  | structNew => exact limits_structNew limited _
  | structNewDefault => exact limits_structNewDefault limited _
  | structGet => exact limits_structGet limited _
  | structSet => exact limits_structSet limited _

end Exec

end StackVM
