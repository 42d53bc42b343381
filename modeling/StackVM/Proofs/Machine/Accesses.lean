import StackVM.Proofs.Machine.Guarded
import StackVM.Proofs.Machine.Layers
import StackVM.Proofs.Machine.Limits

/-!
# Instructions use what is there

An instruction asks how many operands there are before it looks at them, and the floor of a frame lies above
its locals, so whatever an instruction uses is there. Main statement: on a machine whose frames are in layers
every instruction but a call does what the guarded machine does, and leaves the frames in layers
(`inRange_execute`).
-/

namespace StackVM

namespace Guarded

variable {α β : Type} {m : Machine} {v : Value} {p : Prop} [Decidable p] {n k depth place : Nat}

/-- The guarded machine does what the machine does, so that nothing is out of range, and however that ends
the frames are in layers. -/
def InRange (c : Guarded α) (x : Exec α) (m : Machine) : Prop :=
  c m = lift x m ∧ Exec.Ends (fun _ => Machine.Layered) Machine.Layered x m

/-- Both are done alike, or stop alike. -/
theorem InRange.result {c : Guarded α} {x : Exec α} (inRange : InRange c x m) :
    (∃ a m', c m = .ok a m' ∧ x m = .ok a m' ∧ m'.Layered) ∨
      ∃ stop m', c m = .error (.stop stop) m' ∧ x m = .error stop m' ∧ m'.Layered := by
  obtain ⟨same, ends⟩ := inRange
  unfold Exec.Ends at ends
  rw [same, lift]
  cases result : x m with
  | ok a m' =>
    rw [result] at ends
    exact .inl ⟨a, m', rfl, rfl, ends⟩
  | error stop m' =>
    rw [result] at ends
    exact .inr ⟨stop, m', rfl, rfl, ends⟩

/-! ### One thing after the other -/

theorem InRange.of_bind {c : Guarded α} {x : Exec α} {f : α → Guarded β} {g : α → Exec β}
    {R : α → Machine → Prop} (same : c m = lift x m) (ends : Exec.Ends R Machine.Layered x m)
    (rest : ∀ a m', R a m' → InRange (f a) (g a) m') : InRange (c >>= f) (x >>= g) m := by
  refine ⟨?_, ends.bind fun a m' after => (rest a m' after).2⟩
  change EStateM.bind c f m = lift (EStateM.bind x g) m
  unfold lift at same ⊢
  unfold Exec.Ends at ends
  rw [EStateM.bind, EStateM.bind, same]
  cases result : x m with
  | ok a m' =>
    rw [result] at ends
    exact (rest a m' ends).1
  | error stop m' => rfl

theorem InRange.bind {c : Guarded α} {x : Exec α} {f : α → Guarded β} {g : α → Exec β}
    (first : InRange c x m) (rest : ∀ a m', m'.Layered → InRange (f a) (g a) m') :
    InRange (c >>= f) (x >>= g) m := .of_bind first.1 first.2 rest

/-- What the machine does without looking at anything. -/
theorem InRange.lift {x : Exec α} (ends : Exec.Ends (fun _ => Machine.Layered) Machine.Layered x m) :
    InRange (lift x) x m := ⟨rfl, ends⟩

theorem InRange.fault {c : Cause} (layered : m.Layered) : InRange (fault c : Guarded α) (Exec.fault c) m :=
  ⟨rfl, layered⟩

/-- Both change the machine, to the same. -/
theorem InRange.alike {change change' : Machine → Machine} (same : change m = change' m)
    (layered : (change' m).Layered) : InRange (modify change) (modify change') m :=
  ⟨congrArg (EStateM.Result.ok ()) same, layered⟩

theorem InRange.changed {change : Machine → Machine} (layered : (change m).Layered) :
    InRange (modify change) (modify change) m := .alike rfl layered

theorem InRange.modify {change : Machine → Machine} {f : Unit → Guarded β} {g : Unit → Exec β}
    (rest : InRange (f ()) (g ()) (change m)) : InRange (modify change >>= f) (modify change >>= g) m :=
  rest

theorem InRange.modifyGet {change : Machine → α × Machine} {f : α → Guarded β} {g : α → Exec β}
    (rest : InRange (f (change m).1) (g (change m).1) (change m).2) :
    InRange (modifyGet change >>= f) (modifyGet change >>= g) m := rest

/-- A question is answered alike, and changes nothing. -/
theorem InRange.ask {question : Machine → Except Cause α} {f : α → Guarded β} {g : α → Exec β}
    (layered : m.Layered) (rest : ∀ a, question m = .ok a → InRange (f a) (g a) m) :
    InRange (ask question >>= f) (Exec.ask question >>= g) m := by
  apply InRange.of_bind rfl (Exec.ends_ask layered)
  rintro a _ ⟨answer, rfl⟩
  exact rest a answer

theorem InRange.of_eq {c c' : Guarded α} {x : Exec α} (same : c m = c' m) (rest : InRange c' x m) :
    InRange c x m := ⟨same.trans rest.1, rest.2⟩

/-- A question is asked that is known to have an answer. -/
theorem InRange.answered {question : Machine → Except Cause α} {a : α} {f : α → Guarded β} {x : Exec β}
    (answer : question m = .ok a) (rest : InRange (f a) x m) : InRange (Guarded.ask question >>= f) x m := by
  refine .of_eq ?_ rest
  change EStateM.bind (Guarded.ask question) f m = _
  simp only [EStateM.bind, Guarded.ask, Guarded.lift, Exec.ask_apply, answer]

/-- The machine asks a question that is known to have an answer. -/
theorem InRange.skip {question : Machine → Except Cause α} {a : α} {c : Guarded β} {g : α → Exec β}
    (answer : question m = .ok a) (rest : InRange c (g a) m) : InRange c (Exec.ask question >>= g) m := by
  have same : (Exec.ask question >>= g) m = g a m := by
    change EStateM.bind (Exec.ask question) g m = _
    simp only [EStateM.bind, Exec.ask_apply, answer]
  simp only [InRange, Guarded.lift, Exec.Ends, same] at rest ⊢
  exact rest

/-- Both ask questions that are answered with the same error. -/
theorem InRange.refused {question : Machine → Except Cause α} {question' : Machine → Except Cause β} {γ : Type}
    {c : Cause} {f : α → Guarded γ} {g : β → Exec γ} (layered : m.Layered) (refuse : question m = .error c)
    (refuse' : question' m = .error c) : InRange (Guarded.ask question >>= f) (Exec.ask question' >>= g) m := by
  have failed : (Exec.ask question' >>= g) m = .error (.fault c) m := by
    change EStateM.bind (Exec.ask question') g m = _
    simp only [EStateM.bind, Exec.ask_apply, refuse']
  simp only [InRange, Guarded.lift, Exec.Ends, failed]
  refine ⟨?_, layered⟩
  change EStateM.bind (Guarded.ask question) f m = _
  simp only [EStateM.bind, Guarded.ask, Guarded.lift, Exec.ask_apply, refuse]

/-- The guarded machine looks at itself where the other does not. -/
theorem InRange.look {f : Machine → Guarded β} {x : Exec β} (rest : InRange (f m) x m) :
    InRange (get >>= f) x m := rest

/-- The machine looks at itself where the guarded one looks at places. -/
theorem InRange.read {c : Guarded β} {g : Machine → Exec β} (rest : InRange c (g m) m) :
    InRange c (get >>= g) m := rest

theorem InRange.get {f : Machine → Guarded β} {g : Machine → Exec β} (rest : InRange (f m) (g m) m) :
    InRange (get >>= f) (get >>= g) m := rest

/-- When something is bad both stop alike. -/
theorem InRange.unless {bad : Prop} [Decidable bad] {c : Cause} {f : Unit → Guarded α} {g : Unit → Exec α}
    (layered : m.Layered) (rest : ¬bad → InRange (f ()) (g ()) m) :
    InRange (if bad then Guarded.fault c >>= f else f ()) (if bad then Exec.fault c >>= g else g ()) m := by
  split
  · exact ⟨rfl, layered⟩
  · next good => exact rest good

/-- A question that is asked in some cases only. -/
theorem InRange.askIf {question : Machine → Except Cause Unit} {f : Unit → Guarded α} {g : Unit → Exec α}
    (layered : m.Layered) (rest : InRange (f ()) (g ()) m) :
    InRange (if p then Guarded.ask question >>= f else f ())
      (if p then Exec.ask question >>= g else g ()) m := by
  split
  · exact .ask layered fun _ _ => rest
  · exact rest

/-! ### Checks -/

theorem within_of (inRange : p) : within p = pure () := if_pos inRange

theorem sub_of (le : k ≤ n) : sub n k = pure (n - k) := by rw [sub, within_of le, pure_bind]

theorem slot_apply (inside : place < m.stack.length) : slot place m = .ok (m.peek (m.fromTop place)) m := by
  change (within (place < m.stack.length) >>= fun _ => pure (m.peek (m.fromTop place)) : Guarded Value) m = _
  rw [within_of inside]
  rfl

theorem peek_apply (inside : depth < m.stack.length) : peek depth m = .ok (m.peek depth) m := by
  change (sub m.stack.length 1 >>= fun top => sub top depth >>= slot : Guarded Value) m = _
  rw [sub_of (by omega), pure_bind, sub_of (by omega), pure_bind, slot_apply (by omega)]
  have same : m.fromTop (m.stack.length - 1 - depth) = depth := by
    unfold Machine.fromTop
    omega
  rw [same]

theorem InRange.within {f : Unit → Guarded α} {x : Exec α} (inRange : p) (rest : InRange (f ()) x m) :
    InRange (within p >>= f) x m := by
  rwa [within_of inRange, pure_bind]

theorem InRange.sub {f : Nat → Guarded α} {x : Exec α} (le : k ≤ n) (rest : InRange (f (n - k)) x m) :
    InRange (sub n k >>= f) x m := by
  rwa [sub_of le, pure_bind]

theorem InRange.height {f : Nat → Guarded α} {x : Exec α} (rest : InRange (f m.stack.length) x m) :
    InRange (height >>= f) x m := rest

/-- What is found without changing anything can be used. -/
theorem InRange.found {c : Guarded β} {b : β} {f : β → Guarded α} {x : Exec α} (found : c m = .ok b m)
    (rest : InRange (f b) x m) : InRange (c >>= f) x m := by
  refine .of_eq ?_ rest
  change EStateM.bind c f m = _
  rw [EStateM.bind, found]

theorem InRange.slot {f : Value → Guarded α} {x : Exec α} (inside : place < m.stack.length)
    (rest : InRange (f (m.peek (m.fromTop place))) x m) : InRange (slot place >>= f) x m :=
  .found (slot_apply inside) rest

theorem InRange.peek {f : Value → Guarded α} {x : Exec α} (inside : depth < m.stack.length)
    (rest : InRange (f (m.peek depth)) x m) : InRange (peek depth >>= f) x m :=
  .found (peek_apply inside) rest

theorem peekAll_apply (n : Nat) (inside : n ≤ m.stack.length) : peekAll n m = .ok () m := by
  induction n with
  | zero => rfl
  | succ n ih =>
    change EStateM.bind (peekAll n) _ m = _
    rw [EStateM.bind, ih (by omega)]
    change EStateM.bind (peek n) _ m = _
    rw [EStateM.bind, peek_apply inside]
    rfl

theorem InRange.askAt {question : Machine → Except Cause β} {f : β → Guarded α} {g : β → Exec α}
    (layered : m.Layered) (inside : depth < m.stack.length)
    (rest : ∀ a, question m = .ok a → InRange (f a) (g a) m) :
    InRange (askAt depth question >>= f) (Exec.ask question >>= g) m := by
  unfold Guarded.askAt
  rw [bind_assoc]
  exact .peek inside (.ask layered rest)

theorem askTop_apply {question : Machine → Except Cause α} (inside : n ≤ m.stack.length) :
    askTop n question m = ask question m := by
  change EStateM.bind (peekAll n) (fun _ => ask question) m = _
  rw [EStateM.bind, peekAll_apply n inside]

theorem InRange.askTop {question : Machine → Except Cause β} {f : β → Guarded α} {g : β → Exec α}
    (layered : m.Layered) (inside : n ≤ m.stack.length)
    (rest : ∀ a, question m = .ok a → InRange (f a) (g a) m) :
    InRange (askTop n question >>= f) (Exec.ask question >>= g) m := by
  apply InRange.of_bind (askTop_apply inside) (Exec.ends_ask layered)
  rintro a _ ⟨answer, rfl⟩
  exact rest a answer

/-- A question that begins with the number of operands is asked when they are there. -/
theorem askNeeded_apply {question : Machine → Except Cause α}
    (refused : ∀ c, m.need n = .error c → question m = .error c) :
    askNeeded n question m = lift (Exec.ask question) m := by
  change EStateM.bind (ask (·.need n)) (fun _ => askTop n question) m = _
  simp only [EStateM.bind, ask, lift, Exec.ask_apply]
  cases need : m.need n with
  | error c => simp only [refused c need]
  | ok u =>
    have enough := Machine.need_eq_ok.1 need
    have asked := @askTop_apply _ m n question (by omega)
    simpa only [ask, lift, Exec.ask_apply] using asked

theorem InRange.askNeeded {question : Machine → Except Cause β} {f : β → Guarded α} {g : β → Exec α}
    (layered : m.Layered) (refused : ∀ c, m.need n = .error c → question m = .error c)
    (rest : ∀ a, m.floor + n ≤ m.stack.length → InRange (f a) (g a) m) :
    InRange (askNeeded n question >>= f) (Exec.ask question >>= g) m := by
  apply InRange.of_bind (askNeeded_apply refused) (Exec.ends_ask layered)
  rintro a m' ⟨answer, rfl⟩
  cases need : m'.need n with
  | error c => cases answer.symm.trans (refused c need)
  | ok u => exact rest a (Machine.need_eq_ok.1 need)

/-- The value that was on top is in the hand. -/
theorem inRange_take {f : Value → Guarded β} {g : Value → Exec β}
    (rest : InRange (f (m.peek 0)) (g (m.peek 0)) (m.dropped 1)) :
    InRange (lift Exec.take >>= f) (Exec.take >>= g) m := rest

/-! ### Freeing -/

theorem covers_of_field {r : Record} {i : Nat} {v : Value} (value : r.get? i = some v) : r.covers i = true := by
  obtain ⟨t, offset, at_field, at_i, inside, -⟩ := Record.get?_eq_some value
  simp only [Record.covers, at_field, at_i]
  exact decide_eq_true inside

theorem covers_of_wellFormed {r : Record} {i : Nat} (wf : r.WellFormed) (inside : i < r.fields.length) :
    r.covers i = true := by
  obtain ⟨v, value⟩ := Option.isSome_iff_exists.1 ((Record.get?_isSome wf i).2 inside)
  exact covers_of_field value

/-- Where all structs fill their buffers, whatever is freed can be traced. -/
theorem traced_of_tame (layered : m.Layered) (after : Heap) : m.heap.traced after = true := by
  refine List.all_eq_true.2 fun a _ => ?_
  split
  · next r found =>
    have wf : r.WellFormed := layered.tame a _ found
    have traceable : r.traceable = true :=
      List.all_eq_true.2 fun i mem => covers_of_wellFormed wf (List.mem_range.1 mem)
    rw [traceable, Bool.or_true]
  · rfl

theorem freeing_apply (layered : m.Layered) (change : Machine → Machine) :
    freeing change m = .ok () (change m) := by
  change (within (m.heap.traced (change m).heap) >>= fun _ => modify change : Guarded Unit) m = _
  rw [within_of (traced_of_tame layered _)]
  rfl

theorem inRange_freeing {change : Machine → Machine} {f : Unit → Guarded β} {g : Unit → Exec β}
    (layered : m.Layered) (rest : InRange (f ()) (g ()) (change m)) :
    InRange (freeing change >>= f) (modify change >>= g) m := by
  have freed : (freeing change >>= f) m = f () (change m) := by
    change EStateM.bind (freeing change) f m = _
    rw [EStateM.bind, freeing_apply layered]
  exact ⟨freed.trans rest.1, rest.2⟩

theorem inRange_freed {change : Machine → Machine} (layered : m.Layered) (after : (change m).Layered) :
    InRange (freeing change) (modify change) m :=
  .of_eq (freeing_apply layered change) (.changed after)

/-! ### Pushes -/

theorem freeSlot_apply (layered : m.Layered) : freeSlot m = .ok () m := by
  have inside : ∀ a ∈ m.heap.free.head?, a < m.heap.size := fun a first =>
    layered.heap.lt_size_of_mem_free (List.mem_of_mem_head? first)
  change within (∀ a ∈ m.heap.free.head?, a < m.heap.size) m = _
  rw [within_of inside]
  rfl

theorem inRange_pushObject (layered : m.Layered) {o : Object} (tame : o.Tame) :
    InRange (pushObject o) (modify (·.pushedObject o)) m :=
  .found (freeSlot_apply layered) (.changed (layered.pushedObject tame))

theorem inRange_push (layered : m.Layered) (v : Value) : InRange (lift (Exec.push v)) (Exec.push v) m :=
  .lift (.ask layered fun _ _ => layered.pushed v)

theorem inRange_pushCopy (layered : m.Layered) (v : Value) :
    InRange (lift (Exec.pushCopy v)) (Exec.pushCopy v) m :=
  .lift (.ask layered fun _ _ => (layered.retain v).pushed v)

theorem inRange_pushInt (layered : m.Layered) (n : BitVec 64) : InRange (pushInt n) (Exec.pushInt n) m := by
  refine .ask layered fun _ _ => ?_
  split
  · exact .changed (layered.pushed _)
  · exact inRange_pushObject layered trivial

theorem inRange_pushRead (layered : m.Layered) (v : Value) : InRange (pushRead v) (Exec.pushRead v) m := by
  cases v with
  | i64 n => exact inRange_pushInt layered n
  | _ => exact inRange_push layered _

theorem inRange_replaceTop (layered : m.Layered) (enough : m.floor + n ≤ m.stack.length) (v : Value) :
    InRange (replaceTop n v) (Exec.replaceTop n v) m :=
  inRange_freeing layered (inRange_pushRead (layered.discarded enough) v)

/-- A jump changes the offset of the innermost frame only. -/
theorem ends_jump {Q : Machine → Prop} (refused : Q m) (size next : Nat) (displacement : Int) :
    Exec.Ends (fun _ m' => ∃ ip, m' = m.setIp ip) Q (Exec.jump size next displacement) m := by
  unfold Exec.jump
  split
  · split
    · exact ⟨_, rfl⟩
    · exact refused
  · exact refused

theorem ends_branch {Q : Machine → Prop} (refused : Q m) (code : Code) (offset next : Nat) :
    Exec.Ends (fun _ m' => ∃ ip, m' = m.setIp ip) Q (Exec.branch code offset next) m :=
  .ask refused fun displacement _ => ends_jump refused _ _ displacement

/-- After a jump the operand is still there. -/
theorem inRange_branch (layered : m.Layered) (enough : m.floor + 1 ≤ m.stack.length) (code : Code)
    (offset next : Nat) :
    InRange (lift (Exec.branch code offset next) >>= fun _ => freeing (·.discarded 1))
      (Exec.branch code offset next >>= fun _ => modify (·.discarded 1)) m := by
  apply InRange.of_bind rfl (ends_branch layered code offset next)
  rintro _ _ ⟨ip, rfl⟩
  refine inRange_freed (layered.setIp ip) ((layered.setIp ip).discarded ?_)
  rwa [Machine.setIp_floor, Machine.setIp_stack]

/-! ### Strings -/

theorem inRange_stringLen (layered : m.Layered) : InRange stringLen Exec.stringLen m := by
  refine .ask layered fun _ need => ?_
  have enough := Machine.need_eq_ok.1 need
  refine .askAt layered (by omega) fun o _ => ?_
  cases o with
  | string s => exact inRange_replaceTop layered enough _
  | _ => exact .fault layered

theorem inRange_stringConcat (layered : m.Layered) : InRange stringConcat Exec.stringConcat m := by
  refine .ask layered fun _ need => ?_
  have enough := Machine.need_eq_ok.1 need
  refine .askTop layered (by omega) fun strings _ => ?_
  exact inRange_freeing layered (inRange_pushObject (layered.discarded enough) trivial)

theorem inRange_stringTest (layered : m.Layered) (equal : Bool) :
    InRange (stringTest equal) (Exec.stringTest equal) m := by
  refine .ask layered fun _ need => ?_
  have enough := Machine.need_eq_ok.1 need
  refine .askTop layered (by omega) fun strings _ => ?_
  exact inRange_replaceTop layered enough _

/-! ### Arrays -/

theorem inRange_arrayNew (layered : m.Layered) (index count : Nat) :
    InRange (arrayNew index count) (Exec.arrayNew index count) m := by
  refine .ask layered fun t _ => ?_
  cases t.elem? with
  | none => exact .fault layered
  | some elem =>
    refine .ask layered fun _ need => .get ?_
    have enough := Machine.need_eq_ok.1 need
    refine .askTop layered (by omega) fun numbers _ => ?_
    refine .askIf layered (.height (.sub (by omega) ?_))
    cases t with
    | packed s => exact inRange_freeing layered (inRange_pushObject (layered.discarded enough) (by trivial))
    | _ => exact .modify (inRange_pushObject (layered.dropped enough) (by trivial))

theorem inRange_arrayNewDefault (layered : m.Layered) (index : Nat) :
    InRange (arrayNewDefault index) (Exec.arrayNewDefault index) m := by
  refine .ask layered fun t _ => .ask layered fun _ need => ?_
  have enough := Machine.need_eq_ok.1 need
  refine .askAt layered (by omega) fun length _ => .get (.unless layered fun _ => ?_)
  have made (o : Object) (tame : o.Tame) :
      InRange (freeing (·.discarded 1) >>= fun _ => pushObject o)
        (modify (·.discarded 1) >>= fun _ => modify (·.pushedObject o)) m :=
    inRange_freeing layered (inRange_pushObject (layered.discarded enough) tame)
  cases t with
  | packed s => exact made (.packed (.zeros s length)) trivial
  | array elem => exact made (.array elem (Array.replicate length (.zero elem.kind))) trivial
  | _ => exact ⟨rfl, layered⟩

theorem inRange_arrayLen (layered : m.Layered) : InRange arrayLen Exec.arrayLen m := by
  refine .ask layered fun _ need => ?_
  have enough := Machine.need_eq_ok.1 need
  refine .askAt layered (by omega) fun o _ => ?_
  cases o.length? with
  | some n => exact inRange_replaceTop layered enough _
  | none => exact .fault layered

theorem inRange_arrayGet (layered : m.Layered) : InRange arrayGet Exec.arrayGet m := by
  refine .ask layered fun _ need => ?_
  have enough := Machine.need_eq_ok.1 need
  refine .askAt layered (by omega) fun i _ => .askAt layered (by omega) fun o _ => .unless layered fun _ => ?_
  refine .ask layered fun v _ => .modify ?_
  exact inRange_replaceTop (layered.retain v) enough v

theorem tame_setElement {o : Object} (tame : o.Tame) (i : Nat) (v : Value) : (o.setElement i v).Tame := by
  cases o with
  | packed p => trivial
  | array elem elems => trivial
  | _ => exact tame

/-- An element that is found lies inside the array. -/
theorem inside_of_element {o : Object} {i : Nat} {v : Value} (element : o.element? i = some v) :
    (o.length?.any (i < ·)) = true := by
  cases o with
  | packed p =>
    obtain ⟨bits, at_i, -⟩ := Option.map_eq_some_iff.1 element
    exact decide_eq_true (Array.getElem?_eq_some_iff.1 at_i).1
  | array elem elems => exact decide_eq_true (Array.getElem?_eq_some_iff.1 element).1
  | _ => cases element

/-- After one value is taken there is one less above the floor. -/
theorem length_drop_one (enough : m.floor + (n + 1) ≤ m.stack.length) :
    m.floor + n ≤ (m.stack.drop 1).length := by
  rw [List.length_drop]
  omega

theorem inRange_arraySet (layered : m.Layered) : InRange arraySet Exec.arraySet m := by
  refine .ask layered fun _ need => ?_
  have enough := Machine.need_eq_ok.1 need
  refine .peek (by omega) (.askAt layered (by omega) fun i _ => .askAt layered (by omega) fun a address =>
    .askAt layered (by omega) fun o object => ?_)
  have found := Machine.get?_of_objectAt address object
  cases o.ty.elem? with
  | none => exact .fault layered
  | some elem =>
    refine .look (.get ?_)
    dsimp only
    cases m.read? elem.kind (m.peek 0) with
    | none => exact .fault layered
    | some number =>
      refine .ask layered fun old element => .within (inside_of_element (Machine.lookup_eq_ok element)) ?_
      have dropped : (m.dropped 1).Layered := layered.dropped (by omega)
      have changed := dropped.update (f := (·.setElement i (Exec.exchange o (m.peek 0) number old).1)) found
        (tame_setElement (layered.tame a o found) i _)
      have released := changed.release (Exec.exchange o (m.peek 0) number old).2
      exact .modify (inRange_freeing changed (inRange_freed released (released.discarded (length_drop_one enough))))

/-! ### Structs -/

theorem inRange_structFields (layered : m.Layered) {index : Nat} {f : List Ty → Guarded β}
    {g : List Ty → Exec β} (rest : ∀ fields, InRange (f fields) (g fields) m) :
    InRange (lift (Exec.structFields index) >>= f) (Exec.structFields index >>= g) m := by
  apply InRange.of_bind rfl (Exec.ends_structFields layered index)
  rintro fields _ rfl
  exact rest fields

theorem inRange_structNew (layered : m.Layered) (index : Nat) :
    InRange (structNew index) (Exec.structNew index) m := by
  refine inRange_structFields layered fun fields => .ask layered fun _ need => .get ?_
  have enough := Machine.need_eq_ok.1 need
  refine .askTop layered (by omega) fun values read => .askIf layered (.height (.sub (by omega) (.within ?_ ?_)))
  · intro i inside
    exact ⟨by omega, covers_of_wellFormed (Record.wellFormed_zero fields) inside⟩
  · have dropped := layered.dropped enough
    refine .modify (inRange_freeing dropped (inRange_pushObject (dropped.releaseAll _) ?_))
    -- every field holds what was read for it
    obtain ⟨-, each⟩ := Machine.getElem?_readAll read (by simp; omega)
    refine (Record.wellFormed_ofValues fun i w at_i => ?_).1
    obtain ⟨t, v, at_field, -, read⟩ := each i w at_i
    exact ⟨t, at_field, Machine.kind_of_read? read⟩

theorem inRange_structNewDefault (layered : m.Layered) (index : Nat) :
    InRange (structNewDefault index) (Exec.structNewDefault index) m :=
  inRange_structFields layered fun fields => .ask layered fun _ _ =>
    inRange_pushObject layered (Record.wellFormed_zero fields)

theorem inRange_structGet (layered : m.Layered) (field : Nat) :
    InRange (structGet field) (Exec.structGet field) m := by
  refine .ask layered fun _ need => ?_
  have enough := Machine.need_eq_ok.1 need
  refine .askAt layered (by omega) fun o object => ?_
  obtain ⟨a, -, found⟩ := Machine.objectAt_eq_ok object
  cases o with
  | struct r =>
    have filled : r.WellFormed := layered.tame a _ found
    by_cases inside : field < r.fields.length
    · obtain ⟨v, value⟩ := Option.isSome_iff_exists.1 ((Record.get?_isSome filled field).2 inside)
      have at_field := List.getElem?_eq_getElem inside
      refine .answered (congrArg Machine.lookup at_field) (.within (covers_of_field value) ?_)
      exact .ask layered fun v _ => .modify (inRange_replaceTop (layered.retain v) enough v)
    -- a field that the type does not have is a fault of both
    · have no_value : r.get? field = none := by simpa using (Record.get?_isSome filled field).not.2 inside
      have no_field := List.getElem?_eq_none (Nat.not_lt.1 inside)
      exact .refused layered (congrArg Machine.lookup no_field) (congrArg Machine.lookup no_value)
  | _ => exact .fault layered

theorem inRange_structSet (layered : m.Layered) (field : Nat) :
    InRange (structSet field) (Exec.structSet field) m := by
  refine .ask layered fun _ need => ?_
  have enough := Machine.need_eq_ok.1 need
  refine .peek (by omega) (.askAt layered (by omega) fun a address =>
    .askAt layered (by omega) fun o object => ?_)
  have found := Machine.get?_of_objectAt address object
  cases o with
  | struct r =>
    refine .ask layered fun t at_field => ?_
    have at_field := Machine.lookup_eq_ok at_field
    have filled : r.WellFormed := layered.tame a _ found
    have inside := (List.getElem?_eq_some_iff.1 at_field).1
    obtain ⟨old, value⟩ := Option.isSome_iff_exists.1 ((Record.get?_isSome filled field).2 inside)
    refine .skip (congrArg Machine.lookup value) (.look (.get ?_))
    dsimp only
    cases read : m.read? t.kind (m.peek 0) with
    | none => exact .fault layered
    | some stored =>
      refine .within (covers_of_field value) (.answered (congrArg Machine.lookup value) (.modify ?_))
      have dropped : (m.dropped 1).Layered := layered.dropped (by omega)
      have kept : (r.set field stored).WellFormed := filled.set at_field (Machine.kind_of_read? read)
      have changed := dropped.update (f := (·.setField field stored)) found kept
      have released := changed.release (if t.isRef then old else m.peek 0)
      exact inRange_freeing changed (inRange_freed released (released.discarded (length_drop_one enough)))
  | _ => exact .fault layered

/-! ### Calls and returns -/

theorem checkArguments_refused {params : List Ty} {c : Cause} (few : m.need (params.length + 1) = .error c) :
    m.checkArguments params = .error c := by
  unfold Machine.checkArguments
  rw [few]
  rfl

theorem checkResults_refused {returns : List Ty} {c : Cause} (few : m.need returns.length = .error c) :
    m.checkResults returns = .error c := by
  unfold Machine.checkResults
  rw [few]
  rfl

theorem inRange_enter (layered : m.Layered) (f : Function) (captures : List Value) (callee : Nat) :
    InRange (enter f captures callee) (Exec.enter f captures callee) m := by
  unfold enter Exec.enter
  refine .unless layered fun captured => ?_
  refine .askNeeded layered (fun _ => checkArguments_refused) fun _ enough => ?_
  refine .get (.unless layered fun _ => .sub (by omega) (.unless layered fun _ => .sub (by omega) ?_))
  exact .changed (layered.entered enough (Nat.not_lt.1 captured))

theorem inRange_ret (layered : m.Layered) : InRange ret Exec.ret m := by
  refine .get ?_
  cases frames : m.frames with
  | nil => exact .fault layered
  | cons frame callers =>
    have floor : m.floor = frame.floor := by rw [Machine.floor, frames]
    have stacked := layered.stacked
    rw [frames] at stacked
    obtain ⟨sunk, -, -⟩ := stacked
    refine .askNeeded layered (fun _ => checkResults_refused) fun _ enough => ?_
    refine .height (.sub (by omega) (.within (by omega) (inRange_freed layered ?_)))
    exact layered.returned frames enough

/-! ### All instructions -/

/-- An instruction uses what is there, if a call does. -/
theorem inRange_execute (layered : m.Layered) (nested : Guarded Unit) (nested' : Exec Unit)
    (calls : InRange (call nested) (Exec.call nested') m) (code : Code) (ip : Nat) (opcode : Opcode) (next : Nat) :
    InRange (execute nested code ip opcode next) (Exec.execute nested' code ip opcode next) m := by
  unfold execute Exec.execute
  cases opcode with
  | nop => exact .lift layered
  | unreachable => exact .lift layered
  | drop =>
    refine .ask layered fun _ need => ?_
    exact inRange_freed layered (layered.discarded (Machine.need_eq_ok.1 need))
  | dup =>
    refine .ask layered fun _ need => ?_
    have enough := Machine.need_eq_ok.1 need
    exact .peek (by omega) (inRange_pushCopy layered _)
  | swap =>
    refine .ask layered fun _ need => ?_
    have enough := Machine.need_eq_ok.1 need
    refine .height (.sub (by omega) (.slot (by omega) (.height (.sub (by omega) (.slot (by omega) ?_)))))
    have top : m.fromTop (m.stack.length - 1) = 0 := by
      unfold Machine.fromTop
      omega
    have second : m.fromTop (m.stack.length - 2) = 1 := by
      unfold Machine.fromTop
      omega
    rw [top, second]
    refine .changed (layered.withStack ?_)
    simp only [List.length_cons, List.length_drop]
    omega
  | select =>
    refine .ask layered fun _ need => ?_
    have enough := Machine.need_eq_ok.1 need
    refine .askAt layered (by omega) fun condition _ => .peek (by omega) (.peek (by omega) (.get ?_))
    refine .unless layered fun _ => .height (.sub (by omega) ?_)
    have dropped : (m.dropped 3).Layered := layered.dropped enough
    cases condition != 0 with
    | true => exact inRange_freed layered ((dropped.release _).pushed _)
    | false => exact inRange_freed layered ((dropped.release _).pushed _)
  | br => exact .lift ((ends_branch layered _ _ _).imp fun _ _ ⟨ip, same⟩ => same ▸ layered.setIp ip)
  | brIf =>
    refine .ask layered fun _ need => ?_
    have enough := Machine.need_eq_ok.1 need
    refine .askAt layered (by omega) fun condition _ => ?_
    split
    · exact inRange_branch layered enough _ _ _
    · exact inRange_freed layered (layered.discarded enough)
  | brTable =>
    refine .ask layered fun _ need => ?_
    have enough := Machine.need_eq_ok.1 need
    exact .askAt layered (by omega) fun selector _ => .ask layered fun count _ =>
      inRange_branch layered enough _ _ _
  | call => exact calls
  | ret => exact inRange_ret layered
  | globalGet =>
    exact .lift (.ask layered fun i _ => .ask layered fun v _ => .ask layered fun _ _ => (layered.retain v).pushed v)
  | globalSet =>
    refine .ask layered fun i _ => .ask layered fun _ need => ?_
    have dropped := layered.dropped (Machine.need_eq_ok.1 need)
    exact inRange_take (inRange_freed dropped (dropped.setGlobal _ _))
  | globalTee =>
    refine .ask layered fun i _ => .ask layered fun _ need => ?_
    have enough := Machine.need_eq_ok.1 need
    exact .read (.peek (by omega) (inRange_freed layered ((layered.retain _).setGlobal _ _)))
  | localGet =>
    refine .ask layered fun i _ => .ask layered fun place here => .read (.slot ?_ (inRange_pushCopy layered _))
    exact Nat.lt_of_lt_of_le (Machine.lt_floor_of_localAt here) layered.stacked.floor_le
  | localSet =>
    refine .ask layered fun i _ => .ask layered fun place here => .ask layered fun _ need => ?_
    have enough := Machine.need_eq_ok.1 need
    have below := Machine.lt_floor_of_localAt here
    have dropped : (m.dropped 1).Layered := layered.dropped enough
    have length : (m.dropped 1).stack.length = m.stack.length - 1 := List.length_drop
    exact inRange_take (.slot (by omega) (inRange_freed dropped (dropped.setPlace _ _)))
  | localTee =>
    refine .ask layered fun i _ => .ask layered fun place here => .ask layered fun _ need => ?_
    have enough := Machine.need_eq_ok.1 need
    have below := Machine.lt_floor_of_localAt here
    exact .read (.peek (by omega) (.slot (by omega) (inRange_freed layered ((layered.retain _).setPlace _ _))))
  | constGet =>
    exact .lift (.ask layered fun i _ => .ask layered fun v _ => .ask layered fun _ _ => (layered.retain v).pushed v)
  | refNull => exact inRange_push layered _
  | const s => exact .ask layered fun n _ => inRange_pushRead layered _
  | operation op =>
    refine .ask layered fun _ need => ?_
    have enough := Machine.need_eq_ok.1 need
    refine .askTop layered (by omega) fun operands _ => .ask layered fun result _ => ?_
    exact inRange_replaceTop layered enough result
  | stringLen => exact inRange_stringLen layered
  | stringConcat => exact inRange_stringConcat layered
  | stringEq => exact inRange_stringTest layered true
  | stringNe => exact inRange_stringTest layered false
  | arrayNew => exact .ask layered fun i _ => .ask layered fun count _ => inRange_arrayNew layered i count
  | arrayNewDefault => exact .ask layered fun i _ => inRange_arrayNewDefault layered i
  | arrayLen => exact inRange_arrayLen layered
  | arrayGet => exact inRange_arrayGet layered
  | arraySet => exact inRange_arraySet layered
  | structNew => exact .ask layered fun i _ => inRange_structNew layered i
  | structNewDefault => exact .ask layered fun i _ => inRange_structNewDefault layered i
  | structGet => exact .ask layered fun i _ => inRange_structGet layered i
  | structSet => exact .ask layered fun i _ => inRange_structSet layered i

end Guarded

end StackVM
