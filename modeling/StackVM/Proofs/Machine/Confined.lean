import StackVM.Proofs.Machine.Shape

/-!
# Instructions keep to their frame

An instruction that is no call and no return takes operands off above the floor of its frame and puts
results in their place, or it stores into a local, which lies between the base and the floor. Main
statements: whatever it leaves is `Confined` in this way (`effect_confined`), so what lies below the base
of the frame stays as it is (`Confined.suffix`) and the stack never sinks below the floor
(`Confined.floor_le`).
-/

namespace StackVM

namespace Machine

variable {m m' : Machine} {inst : Instruction} {size next : Nat} {stack below : List Value}
  {frame : Frame} {callers : List Frame}

/-- What an instruction of the innermost frame may leave on the stack. -/
inductive Confined (m : Machine) : List Value → Prop where
  | operands (n : Nat) (results : List Value) (enough : m.floor + n ≤ m.stack.length) :
    Confined m (results ++ m.stack.drop n)
  | store (n : Nat) {i place : Nat} (v : Value) (enough : m.floor + n ≤ m.stack.length)
    (here : m.localAt i = .ok place) :
    Confined m ((m.stack.drop n).set ((m.stack.drop n).length - 1 - place) v)

/-! ### What confinement gives -/

theorem Confined.floor_le (confined : m.Confined stack) : m.floor ≤ stack.length := by
  cases confined with
  | operands n results enough =>
    simp only [List.length_append, List.length_drop]
    omega
  | store n v enough here =>
    simp only [List.length_set, List.length_drop]
    omega

/-- The lower part of a list stays when something above it is taken off. -/
theorem suffix_drop {n : Nat} (suffix : below <:+ stack) (above : below.length + n ≤ stack.length) :
    below <:+ stack.drop n := by
  obtain ⟨upper, rfl⟩ := suffix
  rw [List.length_append] at above
  rw [List.drop_append_of_le_length (by omega)]
  exact List.suffix_append _ _

/-- The lower part of a list stays when something above it is exchanged. -/
theorem suffix_set {depth : Nat} (suffix : below <:+ stack) (v : Value)
    (above : below.length + depth < stack.length) : below <:+ stack.set depth v := by
  obtain ⟨upper, rfl⟩ := suffix
  rw [List.length_append] at above
  rw [List.set_append_left _ _ (by omega)]
  exact List.suffix_append _ _

theorem Confined.suffix (confined : m.Confined stack) (frames : m.frames = frame :: callers)
    (sunk : frame.base ≤ frame.floor) (short : below.length ≤ frame.base) (lies : below <:+ m.stack) :
    below <:+ stack := by
  have floor : m.floor = frame.floor := by rw [Machine.floor, frames]
  cases confined with
  | operands n results enough =>
    apply List.IsSuffix.trans _ (List.suffix_append _ _)
    exact suffix_drop lies (by omega)
  | store n v enough here =>
    have place := localAt_eq_ok frames here
    have inside := lt_floor_of_localAt here
    have length : (m.stack.drop n).length = m.stack.length - n := List.length_drop
    apply suffix_set (suffix_drop lies (by omega))
    omega

/-! ### What instructions leave -/

theorem Confined.replaced {n : Nat} {h : Heap} {v : Value} (enough : m.floor + n ≤ m.stack.length) :
    m.Confined (Machine.replaced { m with heap := h } n v).stack := by
  obtain ⟨w, h', pushed⟩ := pushedRead_eq (Machine.discarded { m with heap := h } n) v
  rw [Machine.replaced, pushed]
  exact .operands n [w] enough

theorem Confined.copied {v : Value} (deep : m.floor ≤ m.stack.length) (done : m.copied v = .ok m') :
    m.Confined m'.stack := by
  obtain ⟨_, _, done⟩ := bind_eq_ok done
  cases done
  exact .operands 0 [v] deep

theorem Confined.jumped {displacement : Int} (n : Nat) (enough : m.floor + n ≤ m.stack.length)
    (done : m.jumped size next displacement = .ok m') : m.Confined (m'.stack.drop n) := by
  obtain ⟨target, -, -, rfl⟩ := jumped_eq_ok done
  rw [setIp_stack]
  exact .operands n [] enough

theorem Confined.setGlobal {moved : Machine} {i : Nat} {v : Value} (confined : m.Confined moved.stack) :
    m.Confined (moved.setGlobal i v).stack := by
  obtain ⟨h, stored⟩ := setGlobal_eq moved i v
  rw [stored]
  exact confined

theorem Confined.measuringString (done : m.measuringString = .ok m') : m.Confined m'.stack := by
  obtain ⟨_, need, done⟩ := bind_eq_ok done
  obtain ⟨o, _, done⟩ := bind_eq_ok done
  split at done
  · cases done
    exact .replaced (need_eq_ok.1 need)
  · cases done

theorem Confined.joiningStrings (done : m.joiningStrings = .ok m') : m.Confined m'.stack := by
  obtain ⟨_, need, done⟩ := bind_eq_ok done
  obtain ⟨⟨first, second⟩, _, done⟩ := bind_eq_ok done
  cases done
  exact .operands 2 [_] (need_eq_ok.1 need)

theorem Confined.comparingStrings {equal : Bool} (done : m.comparingStrings equal = .ok m') :
    m.Confined m'.stack := by
  obtain ⟨_, need, done⟩ := bind_eq_ok done
  obtain ⟨⟨first, second⟩, _, done⟩ := bind_eq_ok done
  cases done
  exact .replaced (need_eq_ok.1 need)

theorem Confined.makingArray {index count : Nat} (done : m.makingArray index count = .ok m') :
    m.Confined m'.stack := by
  obtain ⟨t, _, done⟩ := bind_eq_ok done
  split at done
  · cases done
  · obtain ⟨_, need, done⟩ := bind_eq_ok done
    obtain ⟨numbers, _, done⟩ := bind_eq_ok done
    obtain ⟨_, _, done⟩ := bind_eq_ok done
    split at done
    · cases done
      exact .operands count [_] (need_eq_ok.1 need)
    · cases done
      exact .operands count [_] (need_eq_ok.1 need)

theorem Confined.makingZeroArray {index : Nat} (done : m.makingZeroArray index = .ok m') :
    m.Confined m'.stack := by
  obtain ⟨t, _, done⟩ := bind_eq_ok done
  obtain ⟨_, need, done⟩ := bind_eq_ok done
  obtain ⟨length, _, done⟩ := bind_eq_ok done
  obtain ⟨_, _, done⟩ := bind_eq_ok done
  obtain ⟨o, _, done⟩ := bind_eq_ok done
  cases done
  exact .operands 1 [_] (need_eq_ok.1 need)

theorem Confined.measuringArray (done : m.measuringArray = .ok m') : m.Confined m'.stack := by
  obtain ⟨_, need, done⟩ := bind_eq_ok done
  obtain ⟨o, _, done⟩ := bind_eq_ok done
  split at done
  · cases done
    exact .replaced (need_eq_ok.1 need)
  · cases done

theorem Confined.readingElement (done : m.readingElement = .ok m') : m.Confined m'.stack := by
  obtain ⟨_, need, done⟩ := bind_eq_ok done
  obtain ⟨i, _, done⟩ := bind_eq_ok done
  obtain ⟨o, _, done⟩ := bind_eq_ok done
  obtain ⟨_, _, done⟩ := bind_eq_ok done
  obtain ⟨v, _, done⟩ := bind_eq_ok done
  cases done
  exact .replaced (need_eq_ok.1 need)

/-- Operands that are taken off one by one. -/
theorem Confined.operands_after (k n : Nat) (enough : m.floor + (k + n) ≤ m.stack.length) :
    m.Confined ((m.stack.drop k).drop n) := by
  rw [List.drop_drop]
  exact .operands (k + n) [] enough

theorem Confined.storingElement (done : m.storingElement = .ok m') : m.Confined m'.stack := by
  obtain ⟨_, need, done⟩ := bind_eq_ok done
  obtain ⟨i, _, done⟩ := bind_eq_ok done
  obtain ⟨a, _, done⟩ := bind_eq_ok done
  obtain ⟨o, _, done⟩ := bind_eq_ok done
  split at done
  · cases done
  · split at done
    · cases done
    · obtain ⟨old, _, done⟩ := bind_eq_ok done
      cases done
      exact .operands_after 1 2 (need_eq_ok.1 need)

theorem Confined.makingStruct {index : Nat} (done : m.makingStruct index = .ok m') :
    m.Confined m'.stack := by
  obtain ⟨fields, _, done⟩ := bind_eq_ok done
  obtain ⟨_, need, done⟩ := bind_eq_ok done
  obtain ⟨values, _, done⟩ := bind_eq_ok done
  obtain ⟨_, _, done⟩ := bind_eq_ok done
  cases done
  exact .operands fields.length [_] (need_eq_ok.1 need)

theorem Confined.makingZeroStruct {index : Nat} (deep : m.floor ≤ m.stack.length)
    (done : m.makingZeroStruct index = .ok m') : m.Confined m'.stack := by
  obtain ⟨fields, _, done⟩ := bind_eq_ok done
  obtain ⟨_, _, done⟩ := bind_eq_ok done
  cases done
  exact .operands 0 [_] deep

theorem Confined.readingField {field : Nat} (done : m.readingField field = .ok m') :
    m.Confined m'.stack := by
  obtain ⟨_, need, done⟩ := bind_eq_ok done
  obtain ⟨o, _, done⟩ := bind_eq_ok done
  split at done
  · obtain ⟨v, _, done⟩ := bind_eq_ok done
    cases done
    exact .replaced (need_eq_ok.1 need)
  · cases done

theorem Confined.storingField {field : Nat} (done : m.storingField field = .ok m') :
    m.Confined m'.stack := by
  obtain ⟨_, need, done⟩ := bind_eq_ok done
  obtain ⟨a, _, done⟩ := bind_eq_ok done
  obtain ⟨o, _, done⟩ := bind_eq_ok done
  split at done
  · obtain ⟨t, _, done⟩ := bind_eq_ok done
    obtain ⟨old, _, done⟩ := bind_eq_ok done
    split at done
    · cases done
    · cases done
      exact .operands_after 1 1 (need_eq_ok.1 need)
  · cases done

/-- An instruction that is no call and no return keeps to its frame. -/
theorem effect_confined (plain : inst.opcode ≠ .call ∧ inst.opcode ≠ .ret)
    (deep : m.floor ≤ m.stack.length) (done : m.effect inst size next = .ok m') :
    m.Confined m'.stack := by
  obtain ⟨opcode, operands⟩ := inst
  have succeeds : m.Succeeds ⟨opcode, operands⟩ size next opcode m' := succeeds_of_effect done
  cases succeeds with
  | call => exact absurd rfl plain.1
  | ret => exact absurd rfl plain.2
  | nop => exact .operands 0 [] deep
  | drop enough => exact .operands 1 [] enough
  | dup enough done => exact .copied deep done
  | swap enough => exact .operands 2 [_, _] enough
  | select enough number choice => exact .operands 3 [_] enough
  | br jump => exact .jumped 0 deep jump
  | brIf enough jump => exact .jumped 1 enough jump
  | brIfNot enough => exact .operands 1 [] enough
  | brTable enough listed jump => exact .jumped 1 enough jump
  | globalGet found done => exact .copied deep done
  | globalSet enough => exact .setGlobal (.operands 1 [] enough)
  | globalTee enough => exact .setGlobal (.operands 0 [] deep)
  | localGet found done => exact .copied deep done
  | localSet found enough => exact .store 1 _ enough found
  | localTee found enough => exact .store 0 _ deep found
  | constGet found done => exact .copied deep done
  | refNull room => exact .operands 0 [_] deep
  | @const s room =>
    obtain ⟨w, h, pushed⟩ := pushedRead_eq m (.ofRaw (.scalar s) (Instruction.operand ⟨.const s, operands⟩ 0))
    rw [pushed]
    exact .operands 0 [w] deep
  | operation enough evaluated => exact .replaced enough
  -- the instructions on the heap have lemmas of their own
  | stringLen done => exact .measuringString done
  | stringConcat done => exact .joiningStrings done
  | stringEq done => exact .comparingStrings done
  | stringNe done => exact .comparingStrings done
  | arrayNew done => exact .makingArray done
  | arrayNewDefault done => exact .makingZeroArray done
  | arrayLen done => exact .measuringArray done
  | arrayGet done => exact .readingElement done
  | arraySet done => exact .storingElement done
  | structNew done => exact .makingStruct done
  | structNewDefault done => exact .makingZeroStruct deep done
  | structGet done => exact .readingField done
  | structSet done => exact .storingField done

end Machine

end StackVM
