import StackVM.Proofs.FrameIsolation

/-!
# What an instruction makes new

An instruction releases and changes objects first and allocates at most one object last, whose reference
it pushes. So every object after it was there before, up to elements and fields, but for one that nothing
but the top of the stack refers to. Main statement: `renews_effect`, with what it says of objects that are
held elsewhere (`Renews.inherited`).
-/

namespace StackVM

/-- Every object of the second heap was in the first one, up to elements and fields. -/
def Heap.Inherits (h h' : Heap) : Prop :=
  ∀ a o', h'.get? a = some o' → ∃ o, h.get? a = some o ∧ o'.blank = o.blank

namespace Heap

variable {h h' h'' : Heap}

theorem inherits_of_subset (subset : ∀ a o, h'.get? a = some o → h.get? a = some o) : h.Inherits h' :=
  fun a o found => ⟨o, subset a o found, rfl⟩

theorem Inherits.refl (h : Heap) : h.Inherits h := inherits_of_subset fun _ _ found => found

theorem Inherits.trans (first : h.Inherits h') (second : h'.Inherits h'') : h.Inherits h'' := by
  intro a o found
  obtain ⟨o', found', like'⟩ := second a o found
  obtain ⟨o'', found'', like''⟩ := first a o' found'
  exact ⟨o'', found'', like'.trans like''⟩

theorem Inherits.retainValues (inherits : h.Inherits h') (vs : List Value) :
    h.Inherits (h'.retainValues vs) :=
  inherits.trans (inherits_of_subset fun a _ found => (get?_retainValues h' vs a).symm.trans found)

theorem Inherits.retainValue (inherits : h.Inherits h') (v : Value) : h.Inherits (h'.retainValue v) :=
  inherits.retainValues [v]

theorem Inherits.releaseValues (inherits : h.Inherits h') (vs : List Value) :
    h.Inherits (h'.releaseValues vs) :=
  inherits.trans (inherits_of_subset fun _ _ found => get?_of_releaseValues found)

theorem Inherits.releaseValue (inherits : h.Inherits h') (v : Value) : h.Inherits (h'.releaseValue v) :=
  inherits.releaseValues [v]

/-- Changes of elements and fields are not looked at. -/
theorem Inherits.update (inherits : h.Inherits h') (a : Nat) {f : Object → Object}
    (blank : ∀ o, (f o).blank = o.blank) : h.Inherits (h'.update a f) := by
  apply inherits.trans
  intro b o found
  rw [get?_update] at found
  split at found
  · obtain ⟨old, at_b, rfl⟩ := Option.map_eq_some_iff.1 found
    exact ⟨old, at_b, blank old⟩
  · exact ⟨o, found, rfl⟩

end Heap

/-- Integers have no elements and no fields, so they are inherited as they are. -/
theorem Object.eq_int64_of_blank {o : Object} {n : BitVec 64} (like : o.blank = (Object.int64 n).blank) :
    o = .int64 n := by
  cases o <;> simp_all [Object.blank]

namespace Machine

variable {h : Heap} {m m' : Machine} {v : Value} {o : Object} {n a : Nat}

/-- All objects of the machine are inherited from the heap, but for one at most that was pushed last, above
the floor. -/
def Renews (m : Machine) (h : Heap) : Prop :=
  h.Inherits m.heap ∨
    ∃ (before : Machine) (o : Object), m = before.pushedObject o ∧ before.heap.WellFormed ∧
      h.Inherits before.heap ∧ before.floor ≤ before.stack.length

/-! ### One change at a time -/

theorem renews_pushedObject (wf : m.heap.WellFormed) (inherits : h.Inherits m.heap)
    (deep : m.floor ≤ m.stack.length) (o : Object) : (m.pushedObject o).Renews h :=
  .inr ⟨m, o, rfl, wf, inherits, deep⟩

theorem renews_pushedRead (wf : m.heap.WellFormed) (inherits : h.Inherits m.heap)
    (deep : m.floor ≤ m.stack.length) (v : Value) : (m.pushedRead v).Renews h := by
  unfold Machine.pushedRead
  split
  · split
    · exact .inl inherits
    · exact renews_pushedObject wf inherits deep _
  · exact .inl inherits

/-- Operands that are taken off lie above the floor. -/
theorem floor_dropped {u : Unit} (need : m.need n = .ok u) : m.floor ≤ (m.dropped n).stack.length := by
  have enough := need_eq_ok.1 need
  have length : (m.dropped n).stack.length = m.stack.length - n := List.length_drop
  omega

theorem renews_replaced {u : Unit} (wf : m.heap.WellFormed) (inherits : h.Inherits m.heap)
    (need : m.need n = .ok u) (v : Value) : (m.replaced n v).Renews h :=
  renews_pushedRead (wf.releaseValues _) (inherits.releaseValues _) (floor_dropped need) v

theorem inherits_copied (done : m.copied v = .ok m') : m.heap.Inherits m'.heap := by
  obtain ⟨_, _, done⟩ := bind_eq_ok done
  cases done
  exact (Heap.Inherits.refl _).retainValue v

theorem inherits_jumped {size next : Nat} {displacement : Int}
    (done : m.jumped size next displacement = .ok m') : m.heap.Inherits m'.heap := by
  obtain ⟨target, -, -, rfl⟩ := jumped_eq_ok done
  rw [heap_setIp]
  exact .refl _

theorem inherits_setGlobal (inherits : h.Inherits m.heap) (i : Nat) (v : Value) :
    h.Inherits (m.setGlobal i v).heap := by
  unfold Machine.setGlobal
  cases m.globals.get? i with
  | none => exact inherits
  | some w => exact inherits.releaseValue w

theorem inherits_entering {f : Function} {captures : List Value} {callee : Nat}
    (done : m.entering f captures callee = .ok m') : m.heap.Inherits m'.heap := by
  obtain ⟨_, _, done⟩ := bind_eq_ok done
  obtain ⟨_, _, done⟩ := bind_eq_ok done
  obtain ⟨_, _, done⟩ := bind_eq_ok done
  obtain ⟨_, _, done⟩ := bind_eq_ok done
  cases done
  exact (Heap.Inherits.refl _).retainValues captures

theorem inherits_calling (done : m.calling = .ok m') : m.heap.Inherits m'.heap := by
  obtain ⟨_, _, done⟩ := bind_eq_ok done
  obtain ⟨callee, _, done⟩ := bind_eq_ok done
  split at done
  · exact inherits_entering done
  · exact inherits_entering done
  · cases done
  · cases done

theorem inherits_returning (done : m.returning = .ok m') : m.heap.Inherits m'.heap := by
  unfold Machine.returning at done
  split at done
  · cases done
  · obtain ⟨_, _, done⟩ := bind_eq_ok done
    cases done
    exact Heap.inherits_of_subset fun _ _ found => heap_returned found

/-! ### Instructions -/

theorem renews_measuringString (wf : m.heap.WellFormed) (done : m.measuringString = .ok m') :
    m'.Renews m.heap := by
  obtain ⟨_, need, done⟩ := bind_eq_ok done
  obtain ⟨o, _, done⟩ := bind_eq_ok done
  split at done
  · cases done
    exact renews_replaced wf (.refl _) need _
  · cases done

theorem renews_joiningStrings (wf : m.heap.WellFormed) (done : m.joiningStrings = .ok m') :
    m'.Renews m.heap := by
  obtain ⟨_, need, done⟩ := bind_eq_ok done
  obtain ⟨strings, _, done⟩ := bind_eq_ok done
  cases done
  exact renews_pushedObject (wf.releaseValues _) ((Heap.Inherits.refl _).releaseValues _)
    (floor_dropped need) _

theorem renews_comparingStrings {equal : Bool} (wf : m.heap.WellFormed)
    (done : m.comparingStrings equal = .ok m') : m'.Renews m.heap := by
  obtain ⟨_, need, done⟩ := bind_eq_ok done
  obtain ⟨strings, _, done⟩ := bind_eq_ok done
  cases done
  exact renews_replaced wf (.refl _) need _

theorem renews_makingArray {index count : Nat} (wf : m.heap.WellFormed)
    (done : m.makingArray index count = .ok m') : m'.Renews m.heap := by
  obtain ⟨t, _, done⟩ := bind_eq_ok done
  split at done
  · cases done
  · obtain ⟨_, need, done⟩ := bind_eq_ok done
    obtain ⟨numbers, _, done⟩ := bind_eq_ok done
    obtain ⟨_, _, done⟩ := bind_eq_ok done
    have same := Heap.Inherits.refl m.heap
    split at done
    · cases done
      exact renews_pushedObject (m := m.discarded count) (wf.releaseValues _) (same.releaseValues _)
        (floor_dropped need) _
    · cases done
      exact renews_pushedObject (m := m.dropped count) wf same (floor_dropped need) _

theorem renews_makingZeroArray {index : Nat} (wf : m.heap.WellFormed)
    (done : m.makingZeroArray index = .ok m') : m'.Renews m.heap := by
  obtain ⟨t, _, done⟩ := bind_eq_ok done
  obtain ⟨_, need, done⟩ := bind_eq_ok done
  obtain ⟨size, _, done⟩ := bind_eq_ok done
  obtain ⟨_, _, done⟩ := bind_eq_ok done
  obtain ⟨o, _, done⟩ := bind_eq_ok done
  cases done
  exact renews_pushedObject (wf.releaseValues _) ((Heap.Inherits.refl _).releaseValues _)
    (floor_dropped need) _

theorem renews_measuringArray (wf : m.heap.WellFormed) (done : m.measuringArray = .ok m') :
    m'.Renews m.heap := by
  obtain ⟨_, need, done⟩ := bind_eq_ok done
  obtain ⟨o, _, done⟩ := bind_eq_ok done
  split at done
  · cases done
    exact renews_replaced wf (.refl _) need _
  · cases done

theorem renews_readingElement (balanced : m.Balanced []) (done : m.readingElement = .ok m') :
    m'.Renews m.heap := by
  obtain ⟨_, need, done⟩ := bind_eq_ok done
  obtain ⟨i, _, done⟩ := bind_eq_ok done
  obtain ⟨o, object, done⟩ := bind_eq_ok done
  obtain ⟨_, _, done⟩ := bind_eq_ok done
  obtain ⟨v, element, done⟩ := bind_eq_ok done
  cases done
  obtain ⟨b, _, found⟩ := objectAt_eq_ok object
  have retained := balanced.retain (balanced.live_element found (lookup_eq_ok element))
  exact renews_replaced (m := m.retain v) retained.heap ((Heap.Inherits.refl _).retainValue v) need v

theorem inherits_storingElement (done : m.storingElement = .ok m') : m.heap.Inherits m'.heap := by
  obtain ⟨_, _, done⟩ := bind_eq_ok done
  obtain ⟨i, _, done⟩ := bind_eq_ok done
  obtain ⟨a, _, done⟩ := bind_eq_ok done
  obtain ⟨o, _, done⟩ := bind_eq_ok done
  split at done
  · cases done
  · split at done
    · cases done
    · next number _ =>
      obtain ⟨old, _, done⟩ := bind_eq_ok done
      cases done
      have changed := (Heap.Inherits.refl m.heap).update a
        fun o' => o'.blank_setElement i (Exec.exchange o (m.peek 0) number old).1
      exact (changed.releaseValue _).releaseValues _

theorem renews_makingStruct {index : Nat} (wf : m.heap.WellFormed)
    (done : m.makingStruct index = .ok m') : m'.Renews m.heap := by
  obtain ⟨fields, _, done⟩ := bind_eq_ok done
  obtain ⟨_, need, done⟩ := bind_eq_ok done
  obtain ⟨values, _, done⟩ := bind_eq_ok done
  obtain ⟨_, _, done⟩ := bind_eq_ok done
  cases done
  exact renews_pushedObject (wf.releaseValues _) ((Heap.Inherits.refl _).releaseValues _)
    (floor_dropped need) _

theorem renews_makingZeroStruct {index : Nat} (wf : m.heap.WellFormed) (deep : m.floor ≤ m.stack.length)
    (done : m.makingZeroStruct index = .ok m') : m'.Renews m.heap := by
  obtain ⟨fields, _, done⟩ := bind_eq_ok done
  obtain ⟨_, _, done⟩ := bind_eq_ok done
  cases done
  exact renews_pushedObject wf (.refl _) deep _

theorem renews_readingField {field : Nat} (balanced : m.Balanced [])
    (done : m.readingField field = .ok m') : m'.Renews m.heap := by
  obtain ⟨_, need, done⟩ := bind_eq_ok done
  obtain ⟨o, object, done⟩ := bind_eq_ok done
  obtain ⟨b, _, found⟩ := objectAt_eq_ok object
  split at done
  · obtain ⟨v, value, done⟩ := bind_eq_ok done
    cases done
    have retained := balanced.retain (balanced.live_field found (lookup_eq_ok value))
    exact renews_replaced (m := m.retain v) retained.heap ((Heap.Inherits.refl _).retainValue v) need v
  · cases done

theorem inherits_storingField {field : Nat} (done : m.storingField field = .ok m') :
    m.heap.Inherits m'.heap := by
  obtain ⟨_, _, done⟩ := bind_eq_ok done
  obtain ⟨a, _, done⟩ := bind_eq_ok done
  obtain ⟨o, _, done⟩ := bind_eq_ok done
  split at done
  · obtain ⟨t, _, done⟩ := bind_eq_ok done
    obtain ⟨old, _, done⟩ := bind_eq_ok done
    split at done
    · cases done
    · next stored _ =>
      cases done
      have changed := (Heap.Inherits.refl m.heap).update a fun o => o.blank_setField field stored
      exact (changed.releaseValue _).releaseValues _
  · cases done

/-- An instruction makes at most one object, and pushes it. -/
theorem renews_effect {inst : Instruction} {size next : Nat} (balanced : m.Balanced [])
    (deep : m.floor ≤ m.stack.length) (done : m.effect inst size next = .ok m') : m'.Renews m.heap := by
  have wf := balanced.heap
  have same := Heap.Inherits.refl m.heap
  have succeeds := succeeds_of_effect done
  generalize inst.opcode = opcode at succeeds
  cases succeeds with
  | nop => exact .inl same
  | drop enough => exact .inl (same.releaseValues _)
  | dup enough done => exact .inl (inherits_copied done)
  | swap enough => exact .inl same
  | select enough number choice => exact .inl (same.releaseValue _)
  | br jump => exact .inl (inherits_jumped jump)
  | brIf enough jump => exact .inl ((inherits_jumped jump).releaseValues _)
  | brIfNot enough => exact .inl (same.releaseValues _)
  | brTable enough listed jump => exact .inl ((inherits_jumped jump).releaseValues _)
  | call done => exact .inl (inherits_calling done)
  | ret done => exact .inl (inherits_returning done)
  | globalGet found done => exact .inl (inherits_copied done)
  | globalSet enough => exact .inl (inherits_setGlobal (m := m.dropped 1) same _ _)
  | globalTee enough => exact .inl (inherits_setGlobal (m := m.retain _) (same.retainValue _) _ _)
  | localGet found done => exact .inl (inherits_copied done)
  | localSet found enough => exact .inl (same.releaseValue _)
  | localTee found enough => exact .inl ((same.retainValue _).releaseValue _)
  | constGet found done => exact .inl (inherits_copied done)
  | refNull room => exact .inl same
  | const room => exact renews_pushedRead wf same deep _
  | operation enough evaluated => exact renews_replaced wf same (need_eq_ok.2 enough) _
  | stringLen done => exact renews_measuringString wf done
  | stringConcat done => exact renews_joiningStrings wf done
  | stringEq done => exact renews_comparingStrings wf done
  | stringNe done => exact renews_comparingStrings wf done
  | arrayNew done => exact renews_makingArray wf done
  | arrayNewDefault done => exact renews_makingZeroArray wf done
  | arrayLen done => exact renews_measuringArray wf done
  | arrayGet done => exact renews_readingElement balanced done
  | arraySet done => exact .inl (inherits_storingElement done)
  | structNew done => exact renews_makingStruct wf done
  | structNewDefault done => exact renews_makingZeroStruct wf deep done
  | structGet done => exact renews_readingField balanced done
  | structSet done => exact .inl (inherits_storingField done)

/-! ### Turns -/

theorem Tidy.setIp (tidy : m.Tidy) (ip : Nat) : (m.setIp ip).Tidy :=
  ⟨tidy.steady.setIp ip, stacked_setIp tidy.stacked ip⟩

/-- Whatever a turn comes to, it makes at most one object, and pushes it. -/
theorem Turned.renews (turned : m.Turned m') (tidy : m.Tidy) : m'.Renews m.heap := by
  obtain ⟨-, nested, rfl⟩ := turned
  have turn := Exec.turn_cases nested tidy.steady.bounded tidy.steady.guest
  generalize Exec.turn nested m = result at turn
  have same (ip : Nat) : m.heap.Inherits (m.setIp ip).heap := by
    rw [heap_setIp]
    exact .refl _
  cases turn with
  | idle none => exact .inl (.refl _)
  | undecoded frames inside decoded => exact .inl (.refl _)
  | @stepped frame callers inst m' frames inside decoded done =>
    have tidy' := tidy.setIp (frame.ip + inst.width)
    have renews := renews_effect tidy'.steady.balanced tidy'.stacked.floor_le done
    rcases renews with kept | ⟨mid, o, new, wf, kept, deep⟩
    · exact .inl ((same _).trans kept)
    · exact .inr ⟨mid, o, new, wf, (same _).trans kept, deep⟩
  | failed frames inside decoded refused => exact .inl (same _)
  | ended frames past => exact .inl (.refl _)
  | returned frames called past done => exact .inl (inherits_returning done)
  | stuck frames called past refused => exact .inl (.refl _)

/-- An object to which anything but the top of the stack refers was there before. -/
theorem Renews.inherited (renews : m'.Renews m.heap) (balanced : m'.Balanced [])
    (held : ∀ rest, m'.stack = .ref a :: rest → m'.floor ≤ rest.length → 1 < m'.holders a)
    (found : m'.heap.get? a = some o) : ∃ old, m.heap.get? a = some old ∧ o.blank = old.blank := by
  rcases renews with kept | ⟨mid, new, rfl, wf, kept, deep⟩
  · exact kept a o found
  · have pos := balanced.heap.pos_of_get? found
    have counted := balanced.exact a pos
    change (mid.heap.alloc new).2.get? a = some o at found
    change (mid.heap.alloc new).2.refcount a = _ at counted
    rw [wf.refcount_alloc] at counted
    rw [wf.get?_alloc] at found
    split at found
    -- the new object is counted once, for the top of the stack
    · next fresh =>
      have more := held mid.stack (by rw [← fresh]; rfl) deep
      rw [if_pos fresh, List.count_nil] at counted
      omega
    · exact kept a o found

end Machine

end StackVM
