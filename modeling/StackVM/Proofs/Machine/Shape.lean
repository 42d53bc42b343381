import StackVM.Proofs.Flow.Positions
import StackVM.Proofs.Machine.Effect
import StackVM.Proofs.Operation.Shapes

/-!
# How instructions change the height of the stack

Every instruction other than a call or a return takes a number of operands off the stack and leaves a
number of results, and both follow from the instruction and the types of the program. Main statements:
an instruction that goes through changes the height by exactly these numbers (`effect_ok`), and one that
fails has one of the reasons that `Blames` lists (`effect_error`).
-/

namespace StackVM

namespace Instruction

/-- Operands that the instruction takes off the stack. -/
def takes (types : Array Ty) (inst : Instruction) : Nat :=
  match inst.opcode with
  | .drop | .dup | .brIf | .brTable | .globalSet | .globalTee | .localSet | .localTee => 1
  | .swap | .stringConcat | .stringEq | .stringNe | .arrayGet | .structSet => 2
  | .select | .arraySet => 3
  | .operation op => op.shape.arity
  | .stringLen | .arrayNewDefault | .arrayLen | .structGet => 1
  | .arrayNew => inst.operand 1
  | .structNew =>
    match types[inst.operand 0]? with
    | some (.struct fields) => fields.length
    | _ => 0
  | _ => 0

/-- Results that the instruction leaves on the stack. -/
def gives (inst : Instruction) : Nat :=
  match inst.opcode with
  | .nop | .unreachable | .drop | .br | .brIf | .brTable | .globalSet | .localSet => 0
  | .arraySet | .structSet => 0
  | .dup | .swap => 2
  | _ => 1

/-- Whether the instruction writes global `i`. -/
def writes (inst : Instruction) (i : Nat) : Bool :=
  (inst.opcode == .globalSet || inst.opcode == .globalTee) && inst.operand 0 == i

end Instruction

/-- Instructions that find something by an index in the code. -/
def Opcode.indexed : List Opcode :=
  [.globalGet, .localGet, .localSet, .localTee, .constGet, .arrayNew, .structNew, .structNewDefault]

namespace Machine

/-- The index in the instruction names something. -/
def Names (m : Machine) (inst : Instruction) : Prop :=
  match inst.opcode with
  | .globalGet => (m.globals.get? (inst.operand 0)).isSome
  | .localGet | .localSet | .localTee => ∃ place, m.localAt (inst.operand 0) = .ok place
  | .constGet => m.constants[inst.operand 0]?.isSome
  | .arrayNew | .structNew | .structNewDefault => m.program.types[inst.operand 0]?.isSome
  | _ => False

/-- What an instruction that goes through does to the shape of a machine. -/
structure Moved (m : Machine) (inst : Instruction) (size next : Nat) (m' : Machine) : Prop where
  program : m'.program = m.program
  options : m'.options = m.options
  constants : m'.constants = m.constants
  enough : inst.takes m.program.types ≤ m.stack.length
  height : m'.stack.length + inst.takes m.program.types = m.stack.length + inst.gives
  bounded : m.stack.length ≤ m.options.stackSize → m'.stack.length ≤ m.options.stackSize
  globals : ∀ i, (m'.globals.get? i).isSome = ((m.globals.get? i).isSome || inst.writes i)
  frames : (inst.opcode.fallsThrough ∧ m'.frames = m.frames) ∨
    ∃ target, some target ∈ inst.jumps next ∧ target < size ∧ m'.frames = (m.setIp target).frames

/-- Why an instruction can fail. -/
inductive Blames (m : Machine) (inst : Instruction) (size next : Nat) : Cause → Prop where
  | mismatch : Blames m inst size next .typeMismatch
  | unreachable : Blames m inst size next .unreachableExecuted
  | division : Blames m inst size next .divideByZero
  | underflow (few : m.stack.length < m.floor + inst.takes m.program.types) :
    Blames m inst size next .stackUnderflow
  | overflow (full : m.options.stackSize < m.stack.length - inst.takes m.program.types + inst.gives) :
    Blames m inst size next .stackOverflow
  | outside (indexed : inst.opcode ∈ Opcode.indexed → ¬m.Names inst) :
    Blames m inst size next .segmentationFault
  | jump (astray : ∃ place ∈ inst.jumps next, ∀ target, place = some target → size ≤ target) :
    Blames m inst size next .invalidJump
  | frame (none : m.frames = []) : Blames m inst size next .frameUnderflow

variable {m m' : Machine} {inst : Instruction} {size next : Nat}

/-! ### Instructions that go through -/

theorem pushedRead_eq (m : Machine) (v : Value) :
    ∃ w h, m.pushedRead v = { m with stack := w :: m.stack, heap := h } := by
  unfold pushedRead
  split
  · split
    · exact ⟨_, _, rfl⟩
    · exact ⟨_, _, rfl⟩
  · exact ⟨_, _, rfl⟩

theorem setGlobal_eq (m : Machine) (i : Nat) (v : Value) :
    ∃ h, m.setGlobal i v = { m with globals := m.globals.put i v, heap := h } := by
  unfold setGlobal
  cases m.globals.get? i with
  | none => exact ⟨_, rfl⟩
  | some w => exact ⟨_, rfl⟩

/-- An instruction that changes only the stack and the heap. -/
theorem Moved.of_stack {s : List Value} {h : Heap} (n k : Nat)
    (takes : inst.takes m.program.types = n) (gives : inst.gives = k)
    (silent : ∀ i, inst.writes i = false)
    (falls : inst.opcode.fallsThrough) (enough : n ≤ m.stack.length)
    (height : s.length + n = m.stack.length + k)
    (bounded : m.stack.length ≤ m.options.stackSize → s.length ≤ m.options.stackSize) :
    m.Moved inst size next { m with stack := s, heap := h } where
  program := rfl
  options := rfl
  constants := rfl
  enough := by rwa [takes]
  height := by rwa [takes, gives]
  bounded := bounded
  globals i := by simp [silent]
  frames := .inl ⟨falls, rfl⟩

/-- Operands are replaced by one result; its reference may have been counted before. -/
theorem Moved.replaced {v : Value} {h : Heap} (n : Nat) (takes : inst.takes m.program.types = n)
    (gives : inst.gives = 1) (silent : ∀ i, inst.writes i = false)
    (falls : inst.opcode.fallsThrough) (some_operand : 0 < n) (enough : n ≤ m.stack.length) :
    m.Moved inst size next (Machine.replaced { m with heap := h } n v) := by
  obtain ⟨w, h', pushed⟩ := pushedRead_eq (Machine.discarded { m with heap := h } n) v
  unfold Machine.replaced
  rw [pushed]
  -- at least one operand goes, so the result always has room
  refine Moved.of_stack n 1 takes gives silent falls enough ?_ ?_
  · simp only [discarded, dropped, Machine.releaseAll, List.length_cons, List.length_drop]
    omega
  · intro _
    simp only [discarded, dropped, Machine.releaseAll, List.length_cons, List.length_drop]
    omega

theorem Moved.copied {v : Value} (n : Nat) (takes : inst.takes m.program.types = n)
    (gives : inst.gives = n + 1)
    (silent : ∀ i, inst.writes i = false)
    (falls : inst.opcode.fallsThrough) (enough : n ≤ m.stack.length)
    (done : m.copied v = .ok m') : m.Moved inst size next m' := by
  obtain ⟨_, room, done⟩ := bind_eq_ok done
  have room := room_eq_ok.1 room
  cases done
  refine Moved.of_stack n (n + 1) takes gives silent falls enough ?_ fun _ => ?_
  · simp only [List.length_cons, Machine.retain]
    omega
  · exact room

/-- A store in a global. -/
theorem Moved.setGlobal {v : Value} (k : Nat) {moved : Machine}
    (opcode : inst.opcode = .globalSet ∨ inst.opcode = .globalTee)
    (gives : inst.gives = k) (enough : 1 ≤ m.stack.length)
    (before : moved = { m with stack := m.stack.drop (1 - k), heap := moved.heap }) (few : k ≤ 1) :
    m.Moved inst size next (moved.setGlobal (inst.operand 0) v) := by
  have takes : inst.takes m.program.types = 1 := by
    rcases opcode with opcode | opcode <;> simp [Instruction.takes, opcode]
  obtain ⟨h, stored⟩ := setGlobal_eq moved (inst.operand 0) v
  rw [stored, before]
  refine
    { program := rfl
      options := rfl
      constants := rfl
      enough := by rwa [takes]
      height := ?_
      bounded := fun _ => ?_
      globals := fun i => ?_
      frames := .inl ⟨?_, rfl⟩ }
  · simp only [takes, gives, List.length_drop]
    omega
  · simp only [List.length_drop]
    omega
  -- the global that is stored is the one that the instruction names
  · have store : (inst.opcode == .globalSet || inst.opcode == .globalTee) = true := by
      rcases opcode with opcode | opcode <;> simp [opcode]
    simp only [Table.get?_put, Instruction.writes, store, Bool.true_and]
    by_cases here : inst.operand 0 = i
    · simp [here]
    · simp [here]
  · rcases opcode with opcode | opcode <;> simp [opcode, Opcode.fallsThrough]

theorem jumped_eq_ok {displacement : Int} (done : m.jumped size next displacement = .ok m') :
    ∃ target, Code.jumpTarget? next displacement = some target ∧ target < size ∧ m' = m.setIp target := by
  unfold Machine.jumped at done
  split at done
  · next target found =>
    split at done
    · next inside =>
      cases done
      exact ⟨target, found, inside, rfl⟩
    · cases done
  · cases done

theorem setIp_eq (m : Machine) (ip : Nat) : m.setIp ip = { m with frames := (m.setIp ip).frames } := by
  unfold Machine.setIp
  split <;> rfl

theorem setIp_stack (m : Machine) (ip : Nat) : (m.setIp ip).stack = m.stack := by rw [setIp_eq]

/-- A jump, after which `n` operands are gone. -/
theorem Moved.jumped {displacement : Int} (n : Nat) {h : Heap}
    (takes : inst.takes m.program.types = n) (gives : inst.gives = 0)
    (silent : ∀ i, inst.writes i = false)
    (enough : n ≤ m.stack.length)
    (place : Code.jumpTarget? next displacement ∈ inst.jumps next)
    (done : m.jumped size next displacement = .ok m') :
    m.Moved inst size next { m' with stack := m'.stack.drop n, heap := h } := by
  obtain ⟨target, found, inside, rfl⟩ := jumped_eq_ok done
  rw [setIp_eq]
  exact
    { program := rfl
      options := rfl
      constants := rfl
      enough := by rwa [takes]
      height := by
        simp only [takes, gives, List.length_drop]
        omega
      bounded := fun bounded => by
        simp only [List.length_drop]
        omega
      globals := fun i => by simp [silent]
      frames := .inr ⟨target, found ▸ place, inside, rfl⟩ }

/-- Whatever the selector, a branch table jumps to one of its entries. -/
theorem mem_jumps_of_listed {operands : List Nat} {case : Nat}
    (listed : case ≤ Instruction.operand ⟨.brTable, operands⟩ 0) :
    Code.jumpTarget? next (Instruction.signed ⟨.brTable, operands⟩ (case + 1)) ∈
      Instruction.jumps ⟨.brTable, operands⟩ next :=
  List.mem_map.2 ⟨case, List.mem_range.2 (Nat.lt_succ_of_le listed), rfl⟩

theorem Moved.measuringString {operands : List Nat} (done : m.measuringString = .ok m') :
    m.Moved ⟨.stringLen, operands⟩ size next m' := by
  obtain ⟨_, need, done⟩ := bind_eq_ok done
  obtain ⟨o, _, done⟩ := bind_eq_ok done
  have enough := need_eq_ok.1 need
  split at done
  · cases done
    exact Moved.replaced 1 rfl rfl (fun _ => rfl) rfl (by omega) (by omega)
  · cases done

theorem Moved.joiningStrings {operands : List Nat} (done : m.joiningStrings = .ok m') :
    m.Moved ⟨.stringConcat, operands⟩ size next m' := by
  obtain ⟨_, need, done⟩ := bind_eq_ok done
  obtain ⟨⟨first, second⟩, _, done⟩ := bind_eq_ok done
  have enough := need_eq_ok.1 need
  cases done
  refine Moved.of_stack 2 1 rfl rfl (fun _ => rfl) rfl (by omega) ?_ fun _ => ?_
  · simp only [List.length_cons, discarded, dropped, Machine.releaseAll, List.length_drop]
    omega
  · simp only [List.length_cons, discarded, dropped, Machine.releaseAll, List.length_drop]
    omega

theorem Moved.comparingStrings {equal : Bool} {inst : Instruction} (takes : inst.takes m.program.types = 2)
    (gives : inst.gives = 1) (silent : ∀ i, inst.writes i = false) (falls : inst.opcode.fallsThrough)
    (done : m.comparingStrings equal = .ok m') : m.Moved inst size next m' := by
  obtain ⟨_, need, done⟩ := bind_eq_ok done
  obtain ⟨⟨first, second⟩, _, done⟩ := bind_eq_ok done
  have enough := need_eq_ok.1 need
  cases done
  exact Moved.replaced 2 takes gives silent falls (by omega) (by omega)

theorem roomAfter_eq_ok {count : Nat} {u : Unit} (room : m.roomAfter count = .ok u) :
    m.stack.length ≤ m.options.stackSize → m.stack.length - count + 1 ≤ m.options.stackSize ∨
      m.stack.length < count := by
  intro bounded
  unfold roomAfter at room
  -- without operands the result needs room of its own
  split at room
  · have := room_eq_ok.1 room
    omega
  · omega

/-- Operands go into a new object. -/
theorem Moved.made {o : Object} (n : Nat) {moved : Machine} {u : Unit}
    (takes : inst.takes m.program.types = n) (gives : inst.gives = 1)
    (silent : ∀ i, inst.writes i = false) (falls : inst.opcode.fallsThrough)
    (enough : n ≤ m.stack.length) (room : m.roomAfter n = .ok u)
    (before : moved = { m with stack := m.stack.drop n, heap := moved.heap }) :
    m.Moved inst size next (moved.pushedObject o) := by
  rw [before]
  refine Moved.of_stack n 1 takes gives silent falls enough ?_ fun bounded => ?_
  · simp only [List.length_cons, List.length_drop]
    omega
  · have room := roomAfter_eq_ok room bounded
    simp only [List.length_cons, List.length_drop]
    omega

theorem Moved.makingArray {operands : List Nat}
    (done : m.makingArray (Instruction.operand ⟨.arrayNew, operands⟩ 0)
      (Instruction.operand ⟨.arrayNew, operands⟩ 1) = .ok m') :
    m.Moved ⟨.arrayNew, operands⟩ size next m' := by
  obtain ⟨t, _, done⟩ := bind_eq_ok done
  split at done
  · cases done
  · obtain ⟨_, need, done⟩ := bind_eq_ok done
    obtain ⟨numbers, _, done⟩ := bind_eq_ok done
    obtain ⟨_, room, done⟩ := bind_eq_ok done
    -- a packed array copies its operands and any other array takes them over
    have enough := need_eq_ok.1 need
    split at done
    · cases done
      exact Moved.made _ rfl rfl (fun _ => rfl) rfl (Nat.le_of_add_left_le enough) room rfl
    · cases done
      exact Moved.made _ rfl rfl (fun _ => rfl) rfl (Nat.le_of_add_left_le enough) room rfl

theorem Moved.makingZeroArray {operands : List Nat} {index : Nat}
    (done : m.makingZeroArray index = .ok m') : m.Moved ⟨.arrayNewDefault, operands⟩ size next m' := by
  obtain ⟨t, _, done⟩ := bind_eq_ok done
  obtain ⟨_, need, done⟩ := bind_eq_ok done
  obtain ⟨length, _, done⟩ := bind_eq_ok done
  obtain ⟨_, _, done⟩ := bind_eq_ok done
  obtain ⟨o, _, done⟩ := bind_eq_ok done
  have enough := need_eq_ok.1 need
  cases done
  exact @Moved.made m _ _ _ o 1 _ () rfl rfl (fun _ => rfl) rfl (by omega) rfl rfl

theorem Moved.measuringArray {operands : List Nat} (done : m.measuringArray = .ok m') :
    m.Moved ⟨.arrayLen, operands⟩ size next m' := by
  obtain ⟨_, need, done⟩ := bind_eq_ok done
  obtain ⟨o, _, done⟩ := bind_eq_ok done
  have enough := need_eq_ok.1 need
  split at done
  · cases done
    exact Moved.replaced 1 rfl rfl (fun _ => rfl) rfl (by omega) (by omega)
  · cases done

theorem Moved.readingElement {operands : List Nat} (done : m.readingElement = .ok m') :
    m.Moved ⟨.arrayGet, operands⟩ size next m' := by
  obtain ⟨_, need, done⟩ := bind_eq_ok done
  obtain ⟨i, _, done⟩ := bind_eq_ok done
  obtain ⟨o, _, done⟩ := bind_eq_ok done
  obtain ⟨_, _, done⟩ := bind_eq_ok done
  obtain ⟨v, _, done⟩ := bind_eq_ok done
  have enough := need_eq_ok.1 need
  cases done
  exact Moved.replaced 2 rfl rfl (fun _ => rfl) rfl (by omega) (by omega)

theorem Moved.storingElement {operands : List Nat} (done : m.storingElement = .ok m') :
    m.Moved ⟨.arraySet, operands⟩ size next m' := by
  obtain ⟨_, need, done⟩ := bind_eq_ok done
  obtain ⟨i, _, done⟩ := bind_eq_ok done
  obtain ⟨a, _, done⟩ := bind_eq_ok done
  obtain ⟨o, _, done⟩ := bind_eq_ok done
  have enough := need_eq_ok.1 need
  split at done
  · cases done
  · split at done
    · cases done
    · obtain ⟨old, _, done⟩ := bind_eq_ok done
      cases done
      exact Moved.of_stack 3 0 rfl rfl (fun _ => rfl) rfl (by omega)
        (by simp [dropped, Machine.release]; omega) fun _ => by simp [dropped, Machine.release]; omega

theorem Moved.makingStruct {operands : List Nat}
    (done : m.makingStruct (Instruction.operand ⟨.structNew, operands⟩ 0) = .ok m') :
    m.Moved ⟨.structNew, operands⟩ size next m' := by
  obtain ⟨fields, found, done⟩ := bind_eq_ok done
  obtain ⟨_, need, done⟩ := bind_eq_ok done
  obtain ⟨values, _, done⟩ := bind_eq_ok done
  obtain ⟨_, room, done⟩ := bind_eq_ok done
  have enough := need_eq_ok.1 need
  cases done
  have takes : Instruction.takes m.program.types ⟨.structNew, operands⟩ = fields.length := by
    simp only [Instruction.takes, structFields_eq_ok found]
  exact Moved.made _ takes rfl (fun _ => rfl) rfl (by omega) room rfl

theorem Moved.makingZeroStruct {operands : List Nat} {index : Nat}
    (done : m.makingZeroStruct index = .ok m') : m.Moved ⟨.structNewDefault, operands⟩ size next m' := by
  obtain ⟨fields, _, done⟩ := bind_eq_ok done
  obtain ⟨_, room, done⟩ := bind_eq_ok done
  cases done
  exact Moved.made 0 rfl rfl (fun _ => rfl) rfl (by omega) room rfl

theorem Moved.readingField {operands : List Nat} {field : Nat} (done : m.readingField field = .ok m') :
    m.Moved ⟨.structGet, operands⟩ size next m' := by
  obtain ⟨_, need, done⟩ := bind_eq_ok done
  obtain ⟨o, _, done⟩ := bind_eq_ok done
  have enough := need_eq_ok.1 need
  split at done
  · obtain ⟨v, _, done⟩ := bind_eq_ok done
    cases done
    exact Moved.replaced 1 rfl rfl (fun _ => rfl) rfl (by omega) (by omega)
  · cases done

theorem Moved.storingField {operands : List Nat} {field : Nat} (done : m.storingField field = .ok m') :
    m.Moved ⟨.structSet, operands⟩ size next m' := by
  obtain ⟨_, need, done⟩ := bind_eq_ok done
  obtain ⟨a, _, done⟩ := bind_eq_ok done
  obtain ⟨o, _, done⟩ := bind_eq_ok done
  have enough := need_eq_ok.1 need
  split at done
  · obtain ⟨t, _, done⟩ := bind_eq_ok done
    obtain ⟨old, _, done⟩ := bind_eq_ok done
    split at done
    · cases done
    · cases done
      exact Moved.of_stack 2 0 rfl rfl (fun _ => rfl) rfl (by omega)
        (by simp [dropped, Machine.release]; omega) fun _ => by simp [dropped, Machine.release]; omega
  · cases done

/-- An instruction that goes through takes and gives as many operands as its opcode says. -/
theorem effect_ok (plain : inst.opcode ≠ .call ∧ inst.opcode ≠ .ret)
    (done : m.effect inst size next = .ok m') : m.Moved inst size next m' := by
  obtain ⟨opcode, operands⟩ := inst
  have succeeds : m.Succeeds ⟨opcode, operands⟩ size next opcode m' := succeeds_of_effect done
  cases succeeds with
  | call => exact absurd rfl plain.1
  | ret => exact absurd rfl plain.2
  | nop => exact Moved.of_stack 0 0 rfl rfl (fun _ => rfl) rfl (by omega) rfl id
  | drop enough =>
    exact Moved.of_stack 1 0 rfl rfl (fun _ => rfl) rfl (by omega) (by simp [dropped]; omega)
      fun _ => by simp [dropped]; omega
  | dup enough done => exact Moved.copied 1 rfl rfl (fun _ => rfl) rfl (by omega) done
  | swap enough =>
    exact Moved.of_stack 2 2 rfl rfl (fun _ => rfl) rfl (by omega) (by simp; omega) fun _ => by simp; omega
  | select enough number choice =>
    exact Moved.of_stack 3 1 rfl rfl (fun _ => rfl) rfl (by omega)
      (by simp [dropped, Machine.release]; omega) fun _ => by simp [dropped, Machine.release]; omega
  | br jump => exact Moved.jumped 0 rfl rfl (fun _ => rfl) (by omega) (by simp [Instruction.jumps]) jump
  | brIf enough jump =>
    exact Moved.jumped 1 rfl rfl (fun _ => rfl) (by omega) (by simp [Instruction.jumps]) jump
  | brIfNot enough =>
    exact Moved.of_stack 1 0 rfl rfl (fun _ => rfl) rfl (by omega) (by simp [dropped]; omega)
      fun _ => by simp [dropped]; omega
  | brTable enough listed jump =>
    exact Moved.jumped 1 rfl rfl (fun _ => rfl) (by omega) (mem_jumps_of_listed listed) jump
  | globalGet found done => exact Moved.copied 0 rfl rfl (fun _ => rfl) rfl (by omega) done
  | globalSet enough => exact Moved.setGlobal 0 (.inl rfl) rfl (by omega) rfl (by omega)
  | globalTee enough => exact Moved.setGlobal 1 (.inr rfl) rfl (by omega) rfl (by omega)
  | localGet found done => exact Moved.copied 0 rfl rfl (fun _ => rfl) rfl (by omega) done
  | localSet found enough =>
    exact Moved.of_stack 1 0 rfl rfl (fun _ => rfl) rfl (by omega) (by simp [dropped]; omega)
      fun _ => by simp [dropped]; omega
  | localTee found enough =>
    exact Moved.of_stack 1 1 rfl rfl (fun _ => rfl) rfl (by omega) (by simp [Machine.retain])
      fun bounded => by simpa [Machine.retain] using bounded
  | constGet found done => exact Moved.copied 0 rfl rfl (fun _ => rfl) rfl (by omega) done
  | refNull room => exact Moved.of_stack 0 1 rfl rfl (fun _ => rfl) rfl (by omega) rfl fun _ => room
  | @const s room =>
    obtain ⟨w, h, pushed⟩ := pushedRead_eq m (.ofRaw (.scalar s) (Instruction.operand ⟨.const s, operands⟩ 0))
    rw [pushed]
    exact Moved.of_stack 0 1 rfl rfl (fun _ => rfl) rfl (by omega) rfl fun _ => room
  | @operation op _ _ enough evaluated =>
    exact Moved.replaced _ rfl rfl (fun _ => rfl) rfl op.arity_pos (by omega)
  -- the instructions on the heap have lemmas of their own
  | stringLen done => exact Moved.measuringString done
  | stringConcat done => exact Moved.joiningStrings done
  | stringEq done => exact Moved.comparingStrings rfl rfl (fun _ => rfl) rfl done
  | stringNe done => exact Moved.comparingStrings rfl rfl (fun _ => rfl) rfl done
  | arrayNew done => exact Moved.makingArray done
  | arrayNewDefault done => exact Moved.makingZeroArray done
  | arrayLen done => exact Moved.measuringArray done
  | arrayGet done => exact Moved.readingElement done
  | arraySet done => exact Moved.storingElement done
  | structNew done => exact Moved.makingStruct done
  | structNewDefault done => exact Moved.makingZeroStruct done
  | structGet done => exact Moved.readingField done
  | structSet done => exact Moved.storingField done

/-! ### Instructions that fail -/

section Refused

variable {c : Cause} {operands : List Nat}

theorem Blames.of_mismatch (is : c = .typeMismatch) : m.Blames inst size next c := is ▸ .mismatch

theorem Blames.of_need {n : Nat} (refused : m.need n = .error c) (takes : inst.takes m.program.types = n) :
    m.Blames inst size next c := by
  obtain ⟨rfl, few⟩ := need_eq_error refused
  exact .underflow (by rwa [takes])

theorem Blames.of_room {n : Nat} (refused : m.room 1 = .error c)
    (takes : inst.takes m.program.types = n) (gives : inst.gives = n + 1) (enough : n ≤ m.stack.length) :
    m.Blames inst size next c := by
  obtain ⟨rfl, full⟩ := room_eq_error refused
  refine .overflow ?_
  rw [takes, gives]
  omega

theorem Blames.of_roomAfter {n : Nat} (refused : m.roomAfter n = .error c)
    (takes : inst.takes m.program.types = n) (gives : inst.gives = 1) : m.Blames inst size next c := by
  unfold roomAfter at refused
  split at refused
  · next empty => exact of_room refused (takes.trans empty) gives (by omega)
  · cases refused

/-- An instruction that finds nothing by an index may fail on what it finds on the heap. -/
theorem Blames.of_heap (refused : c = .typeMismatch ∨ c = .segmentationFault)
    (free : Opcode.indexed.contains inst.opcode = false) : m.Blames inst size next c := by
  rcases refused with rfl | rfl
  · exact .mismatch
  · refine .outside fun indexed => ?_
    rw [List.contains_iff_mem.2 indexed] at free
    cases free

theorem Blames.of_copied {v : Value} {n : Nat} (refused : m.copied v = .error c)
    (takes : inst.takes m.program.types = n) (gives : inst.gives = n + 1) (enough : n ≤ m.stack.length) :
    m.Blames inst size next c := by
  rcases bind_eq_error refused with refused | ⟨_, _, refused⟩
  · exact of_room refused takes gives enough
  · cases refused

theorem Blames.of_jumped {displacement : Int} (refused : m.jumped size next displacement = .error c)
    (place : Code.jumpTarget? next displacement ∈ inst.jumps next) : m.Blames inst size next c := by
  unfold Machine.jumped at refused
  split at refused
  · next target found =>
    split at refused
    · cases refused
    -- the target lies past the end of the code
    · next outside =>
      cases refused
      refine .jump ⟨_, place, fun other same => ?_⟩
      rw [found] at same
      cases same
      omega
  -- the target lies before its start
  · next none =>
    cases refused
    refine .jump ⟨_, place, fun other same => ?_⟩
    rw [none] at same
    cases same

theorem Blames.of_localAt (refused : m.localAt (inst.operand 0) = .error c)
    (opcode : inst.opcode = .localGet ∨ inst.opcode = .localSet ∨ inst.opcode = .localTee) :
    m.Blames inst size next c := by
  have unnamed : ¬m.Names inst := by
    have named : m.Names inst ↔ ∃ place, m.localAt (inst.operand 0) = .ok place := by
      unfold Names
      rcases opcode with opcode | opcode | opcode <;> simp [opcode]
    rintro known
    obtain ⟨place, found⟩ := named.1 known
    rw [found] at refused
    cases refused
  -- without a frame there are no locals to look among
  rcases localAt_eq_error refused with ⟨rfl, none⟩ | rfl
  · exact .frame none
  · exact .outside fun _ => unnamed

theorem Blames.measuringString (failed : m.measuringString = .error c) :
    m.Blames ⟨.stringLen, operands⟩ size next c := by
  rcases bind_eq_error failed with refused | ⟨_, _, failed⟩
  · exact .of_need refused rfl
  rcases bind_eq_error failed with refused | ⟨o, _, failed⟩
  · exact .of_heap (objectAt_eq_error refused) rfl
  split at failed
  · cases failed
  · cases failed
    exact .mismatch

theorem Blames.joiningStrings (failed : m.joiningStrings = .error c) :
    m.Blames ⟨.stringConcat, operands⟩ size next c := by
  rcases bind_eq_error failed with refused | ⟨_, _, failed⟩
  · exact .of_need refused rfl
  rcases bind_eq_error failed with refused | ⟨⟨first, second⟩, _, failed⟩
  · exact .of_heap (stringsAt_eq_error refused) rfl
  cases failed

theorem Blames.comparingStrings {equal : Bool} (takes : inst.takes m.program.types = 2)
    (free : Opcode.indexed.contains inst.opcode = false) (failed : m.comparingStrings equal = .error c) :
    m.Blames inst size next c := by
  rcases bind_eq_error failed with refused | ⟨_, _, failed⟩
  · exact .of_need refused takes
  rcases bind_eq_error failed with refused | ⟨⟨first, second⟩, _, failed⟩
  · exact .of_heap (stringsAt_eq_error refused) free
  cases failed

theorem Blames.makingArray
    (failed : m.makingArray (Instruction.operand ⟨.arrayNew, operands⟩ 0)
      (Instruction.operand ⟨.arrayNew, operands⟩ 1) = .error c) :
    m.Blames ⟨.arrayNew, operands⟩ size next c := by
  rcases bind_eq_error failed with refused | ⟨t, _, failed⟩
  -- the type is looked up before anything else
  · obtain ⟨rfl, missing⟩ := lookup_eq_error refused
    exact .outside fun _ named => by simp [Names, missing] at named
  split at failed
  · cases failed
    exact .mismatch
  rcases bind_eq_error failed with refused | ⟨_, _, failed⟩
  · exact .of_need refused rfl
  rcases bind_eq_error failed with refused | ⟨numbers, _, failed⟩
  · exact .of_mismatch (readAll_eq_error refused)
  rcases bind_eq_error failed with refused | ⟨_, _, failed⟩
  · exact .of_roomAfter refused rfl rfl
  split at failed
  · cases failed
  · cases failed

theorem Blames.makingZeroArray {index : Nat} (failed : m.makingZeroArray index = .error c) :
    m.Blames ⟨.arrayNewDefault, operands⟩ size next c := by
  rcases bind_eq_error failed with refused | ⟨t, _, failed⟩
  · exact .of_heap (.inr (lookup_eq_error refused).1) rfl
  rcases bind_eq_error failed with refused | ⟨_, _, failed⟩
  · exact .of_need refused rfl
  rcases bind_eq_error failed with refused | ⟨length, _, failed⟩
  · exact .of_heap (indexAt_eq_error refused) rfl
  rcases bind_eq_error failed with refused | ⟨_, _, failed⟩
  -- an array longer than the options allow
  · exact .of_heap (.inr (reject_eq_error refused).1) rfl
  rcases bind_eq_error failed with refused | ⟨o, _, failed⟩
  · cases t <;> cases refused <;> exact .mismatch
  cases failed

theorem Blames.measuringArray (failed : m.measuringArray = .error c) :
    m.Blames ⟨.arrayLen, operands⟩ size next c := by
  rcases bind_eq_error failed with refused | ⟨_, _, failed⟩
  · exact .of_need refused rfl
  rcases bind_eq_error failed with refused | ⟨o, _, failed⟩
  · exact .of_heap (objectAt_eq_error refused) rfl
  split at failed
  · cases failed
  · cases failed
    exact .mismatch

theorem Blames.readingElement (failed : m.readingElement = .error c) :
    m.Blames ⟨.arrayGet, operands⟩ size next c := by
  rcases bind_eq_error failed with refused | ⟨_, _, failed⟩
  · exact .of_need refused rfl
  rcases bind_eq_error failed with refused | ⟨i, _, failed⟩
  · exact .of_heap (indexAt_eq_error refused) rfl
  rcases bind_eq_error failed with refused | ⟨o, _, failed⟩
  · exact .of_heap (objectAt_eq_error refused) rfl
  rcases bind_eq_error failed with refused | ⟨_, _, failed⟩
  · exact .of_mismatch (reject_eq_error refused).1
  rcases bind_eq_error failed with refused | ⟨v, _, failed⟩
  · exact .of_heap (.inr (lookup_eq_error refused).1) rfl
  cases failed

theorem Blames.storingElement (failed : m.storingElement = .error c) :
    m.Blames ⟨.arraySet, operands⟩ size next c := by
  rcases bind_eq_error failed with refused | ⟨_, _, failed⟩
  · exact .of_need refused rfl
  rcases bind_eq_error failed with refused | ⟨i, _, failed⟩
  · exact .of_heap (indexAt_eq_error refused) rfl
  rcases bind_eq_error failed with refused | ⟨a, _, failed⟩
  · exact .of_mismatch (addressAt_eq_error refused)
  rcases bind_eq_error failed with refused | ⟨o, _, failed⟩
  · exact .of_heap (objectAt_eq_error refused) rfl
  split at failed
  · cases failed
    exact .mismatch
  split at failed
  · cases failed
    exact .mismatch
  rcases bind_eq_error failed with refused | ⟨old, _, failed⟩
  · exact .of_heap (.inr (lookup_eq_error refused).1) rfl
  cases failed

theorem Blames.of_structFields (refused : m.structFields (inst.operand 0) = .error c)
    (opcode : inst.opcode = .structNew ∨ inst.opcode = .structNewDefault) : m.Blames inst size next c := by
  rcases structFields_eq_error refused with rfl | ⟨rfl, missing⟩
  · exact .mismatch
  · refine .outside fun _ named => ?_
    unfold Names at named
    rcases opcode with opcode | opcode <;> simp [opcode, missing] at named

theorem Blames.makingStruct
    (failed : m.makingStruct (Instruction.operand ⟨.structNew, operands⟩ 0) = .error c) :
    m.Blames ⟨.structNew, operands⟩ size next c := by
  rcases bind_eq_error failed with refused | ⟨fields, found, failed⟩
  · exact .of_structFields refused (.inl rfl)
  have takes : Instruction.takes m.program.types ⟨.structNew, operands⟩ = fields.length := by
    simp only [Instruction.takes, structFields_eq_ok found]
  rcases bind_eq_error failed with refused | ⟨_, _, failed⟩
  · exact .of_need refused takes
  rcases bind_eq_error failed with refused | ⟨values, _, failed⟩
  · exact .of_mismatch (readAll_eq_error refused)
  rcases bind_eq_error failed with refused | ⟨_, _, failed⟩
  · exact .of_roomAfter refused takes rfl
  cases failed

theorem Blames.makingZeroStruct
    (failed : m.makingZeroStruct (Instruction.operand ⟨.structNewDefault, operands⟩ 0) = .error c) :
    m.Blames ⟨.structNewDefault, operands⟩ size next c := by
  rcases bind_eq_error failed with refused | ⟨fields, _, failed⟩
  · exact .of_structFields refused (.inr rfl)
  rcases bind_eq_error failed with refused | ⟨_, _, failed⟩
  · exact .of_room (n := 0) refused rfl rfl (by omega)
  cases failed

theorem Blames.readingField {field : Nat} (failed : m.readingField field = .error c) :
    m.Blames ⟨.structGet, operands⟩ size next c := by
  rcases bind_eq_error failed with refused | ⟨_, _, failed⟩
  · exact .of_need refused rfl
  rcases bind_eq_error failed with refused | ⟨o, _, failed⟩
  · exact .of_heap (objectAt_eq_error refused) rfl
  split at failed
  · rcases bind_eq_error failed with refused | ⟨v, _, failed⟩
    · exact .of_heap (.inr (lookup_eq_error refused).1) rfl
    cases failed
  · cases failed
    exact .mismatch

theorem Blames.storingField {field : Nat} (failed : m.storingField field = .error c) :
    m.Blames ⟨.structSet, operands⟩ size next c := by
  rcases bind_eq_error failed with refused | ⟨_, _, failed⟩
  · exact .of_need refused rfl
  rcases bind_eq_error failed with refused | ⟨a, _, failed⟩
  · exact .of_mismatch (addressAt_eq_error refused)
  rcases bind_eq_error failed with refused | ⟨o, _, failed⟩
  · exact .of_heap (objectAt_eq_error refused) rfl
  split at failed
  · rcases bind_eq_error failed with refused | ⟨t, _, failed⟩
    · exact .of_heap (.inr (lookup_eq_error refused).1) rfl
    rcases bind_eq_error failed with refused | ⟨old, _, failed⟩
    · exact .of_heap (.inr (lookup_eq_error refused).1) rfl
    split at failed
    -- the operand cannot be read as the kind of the field
    · cases failed
      exact .mismatch
    · cases failed
  · cases failed
    exact .mismatch

/-- An instruction that fails has one of the reasons of `Blames`. -/
theorem effect_error (plain : inst.opcode ≠ .call ∧ inst.opcode ≠ .ret)
    (failed : m.effect inst size next = .error c) : m.Blames inst size next c := by
  obtain ⟨opcode, operands⟩ := inst
  cases opcode with
  | call => exact absurd rfl plain.1
  | ret => exact absurd rfl plain.2
  | nop => cases failed
  | unreachable =>
    cases failed
    exact .unreachable
  | drop =>
    rcases bind_eq_error failed with refused | ⟨_, _, failed⟩
    · exact .of_need refused rfl
    cases failed
  | dup =>
    rcases bind_eq_error failed with refused | ⟨_, need, failed⟩
    · exact .of_need refused rfl
    have enough := need_eq_ok.1 need
    exact .of_copied (n := 1) failed rfl rfl (by omega)
  | swap =>
    rcases bind_eq_error failed with refused | ⟨_, _, failed⟩
    · exact .of_need refused rfl
    cases failed
  | select =>
    rcases bind_eq_error failed with refused | ⟨_, _, failed⟩
    · exact .of_need refused rfl
    rcases bind_eq_error failed with refused | ⟨condition, _, failed⟩
    · exact .of_mismatch (int32At_eq_error refused)
    rcases bind_eq_error failed with refused | ⟨_, _, failed⟩
    · exact .of_mismatch (reject_eq_error refused).1
    cases failed
  | br => exact .of_jumped failed (by simp [Instruction.jumps])
  | brIf =>
    rcases bind_eq_error failed with refused | ⟨_, _, failed⟩
    · exact .of_need refused rfl
    rcases bind_eq_error failed with refused | ⟨condition, _, failed⟩
    · exact .of_mismatch (int32At_eq_error refused)
    -- the rest of the block, as one conditional
    replace failed : (if (condition != 0) = true then
        (m.jumped size next (Instruction.signed ⟨.brIf, operands⟩ 0) >>= fun moved => .ok (moved.discarded 1))
        else .ok (m.discarded 1)) = .error c := failed
    split at failed
    · rcases bind_eq_error failed with refused | ⟨moved, _, failed⟩
      · exact .of_jumped refused (by simp [Instruction.jumps])
      cases failed
    · cases failed
  | brTable =>
    rcases bind_eq_error failed with refused | ⟨_, _, failed⟩
    · exact .of_need refused rfl
    rcases bind_eq_error failed with refused | ⟨selector, _, failed⟩
    · exact .of_mismatch (int32At_eq_error refused)
    rcases bind_eq_error failed with refused | ⟨moved, _, failed⟩
    · refine .of_jumped refused (mem_jumps_of_listed ?_)
      -- a selector in range picks its own case, any other the last one
      split
      · omega
      · omega
    cases failed
  | globalGet =>
    rcases bind_eq_error failed with refused | ⟨v, _, failed⟩
    · obtain ⟨rfl, missing⟩ := lookup_eq_error refused
      exact .outside fun _ named => by simp [Names, missing] at named
    exact .of_copied (n := 0) failed rfl rfl (by omega)
  | globalSet =>
    rcases bind_eq_error failed with refused | ⟨_, _, failed⟩
    · exact .of_need refused rfl
    cases failed
  | globalTee =>
    rcases bind_eq_error failed with refused | ⟨_, _, failed⟩
    · exact .of_need refused rfl
    cases failed
  | localGet =>
    rcases bind_eq_error failed with refused | ⟨place, _, failed⟩
    · exact .of_localAt refused (.inl rfl)
    exact .of_copied (n := 0) failed rfl rfl (by omega)
  | localSet =>
    rcases bind_eq_error failed with refused | ⟨place, _, failed⟩
    · exact .of_localAt refused (.inr (.inl rfl))
    rcases bind_eq_error failed with refused | ⟨_, _, failed⟩
    · exact .of_need refused rfl
    cases failed
  | localTee =>
    rcases bind_eq_error failed with refused | ⟨place, _, failed⟩
    · exact .of_localAt refused (.inr (.inr rfl))
    rcases bind_eq_error failed with refused | ⟨_, _, failed⟩
    · exact .of_need refused rfl
    cases failed
  | constGet =>
    rcases bind_eq_error failed with refused | ⟨v, _, failed⟩
    · obtain ⟨rfl, missing⟩ := lookup_eq_error refused
      exact .outside fun _ named => by simp [Names, missing] at named
    exact .of_copied (n := 0) failed rfl rfl (by omega)
  | refNull =>
    rcases bind_eq_error failed with refused | ⟨_, _, failed⟩
    · exact .of_room (n := 0) refused rfl rfl (by omega)
    cases failed
  | const s =>
    rcases bind_eq_error failed with refused | ⟨_, _, failed⟩
    · exact .of_room (n := 0) refused rfl rfl (by omega)
    cases failed
  | operation op =>
    rcases bind_eq_error failed with refused | ⟨_, _, failed⟩
    · exact .of_need refused rfl
    rcases bind_eq_error failed with refused | ⟨vs, _, failed⟩
    · exact .of_mismatch (operands_eq_error refused)
    rcases bind_eq_error failed with refused | ⟨result, _, failed⟩
    -- the operation refuses its operands or divides by zero
    · rcases Operation.cause_eval refused with rfl | rfl
      · exact .mismatch
      · exact .division
    cases failed
  | stringLen => exact .measuringString failed
  | stringConcat => exact .joiningStrings failed
  | stringEq => exact .comparingStrings rfl rfl failed
  | stringNe => exact .comparingStrings rfl rfl failed
  | arrayNew => exact .makingArray failed
  | arrayNewDefault => exact .makingZeroArray failed
  | arrayLen => exact .measuringArray failed
  | arrayGet => exact .readingElement failed
  | arraySet => exact .storingElement failed
  | structNew => exact .makingStruct failed
  | structNewDefault => exact .makingZeroStruct failed
  | structGet => exact .readingField failed
  | structSet => exact .storingField failed

end Refused

end Machine

theorem Frame.setIp_frames {m : Machine} {frame : Frame} {callers : List Frame} {ip : Nat}
    (frames : m.frames = frame :: callers) : (m.setIp ip).frames = { frame with ip } :: callers := by
  simp only [Machine.setIp, frames]

theorem Frame.setIp_ip {m : Machine} {frame : Frame} {callers : List Frame}
    (frames : m.frames = frame :: callers) : m.setIp frame.ip = m := by
  simp only [Machine.setIp, frames]
  cases m
  cases frames
  rfl

end StackVM
