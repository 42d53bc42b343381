import StackVM.Machine.Step
import StackVM.Proofs.Code.Operands

/-!
# Operands at run time

A machine reads each operand from the code at the offset where the instruction needs it. Main statement:
these are the operands that decoding finds, so that executing an instruction from the code is executing it
decoded (`execute_eq_decoded`), and a machine can go on exactly where an instruction decodes
(`step_decoded`, `step_undecoded`).
-/

namespace StackVM

namespace Exec

/-- Executes an instruction whose operands were read beforehand, in code of the given size; `next` is the
offset after it. -/
def executeDecoded (nested : Exec Unit) (inst : Instruction) (size next : Nat) : Exec Unit :=
  match inst.opcode with
  | .nop => return
  | .unreachable => fault .unreachableExecuted
  | .drop => do
    ask (·.need 1)
    modify (·.discarded 1)
  | .dup => do
    ask (·.need 1)
    pushCopy ((← get).peek 0)
  | .swap => do
    ask (·.need 2)
    modify fun m => { m with stack := m.peek 1 :: m.peek 0 :: m.stack.drop 2 }
  | .select => do
    ask (·.need 3)
    let condition ← ask (·.int32At 0)
    let m ← get
    let first := m.peek 2
    let second := m.peek 1
    if !m.sameKind first second then fault .typeMismatch
    let (kept, other) := if condition != 0 then (first, second) else (second, first)
    modify fun m => ((m.dropped 3).release other).pushed kept
  | .br => jump size next (inst.signed 0)
  | .brIf => do
    ask (·.need 1)
    if (← ask (·.int32At 0)) != 0 then jump size next (inst.signed 0)
    modify (·.discarded 1)
  | .brTable => do
    ask (·.need 1)
    let selector := (← ask (·.int32At 0)).toInt
    let count := inst.operand 0
    let case := if 0 ≤ selector ∧ selector < count then selector.toNat else count
    jump size next (inst.signed (case + 1))
    modify (·.discarded 1)
  | .call => call nested
  | .ret => ret
  | .globalGet => do pushCopy (← ask fun m => Machine.lookup (m.globals.get? (inst.operand 0)))
  | .globalSet => do
    ask (·.need 1)
    let v ← take
    modify (·.setGlobal (inst.operand 0) v)
  | .globalTee => do
    ask (·.need 1)
    let v := (← get).peek 0
    modify fun m => (m.retain v).setGlobal (inst.operand 0) v
  | .localGet => do
    let place ← ask (·.localAt (inst.operand 0))
    let m ← get
    pushCopy (m.peek (m.fromTop place))
  | .localSet => do
    let place ← ask (·.localAt (inst.operand 0))
    ask (·.need 1)
    let v ← take
    modify (·.setPlace place v)
  | .localTee => do
    let place ← ask (·.localAt (inst.operand 0))
    ask (·.need 1)
    let v := (← get).peek 0
    modify fun m => (m.retain v).setPlace place v
  | .constGet => do pushCopy (← ask fun m => Machine.lookup m.constants[inst.operand 0]?)
  | .refNull => push .null
  | .const s => pushRead (.ofRaw (.scalar s) (inst.operand 0))
  | .operation op => do
    let n := op.shape.arity
    ask (·.need n)
    let operands ← ask (·.operands n op.shape.operand)
    let result ← ask fun _ => op.eval operands
    replaceTop n result
  | .stringLen => stringLen
  | .stringConcat => stringConcat
  | .stringEq => stringTest true
  | .stringNe => stringTest false
  | .arrayNew => arrayNew (inst.operand 0) (inst.operand 1)
  | .arrayNewDefault => arrayNewDefault (inst.operand 0)
  | .arrayLen => arrayLen
  | .arrayGet => arrayGet
  | .arraySet => arraySet
  | .structNew => structNew (inst.operand 0)
  | .structNewDefault => structNewDefault (inst.operand 0)
  | .structGet => structGet (inst.operand 0)
  | .structSet => structSet (inst.operand 0)

variable {m : Machine} {code : Code} {ip width : Nat} {inst : Instruction}

/-! ### Reading operands -/

theorem field_eq {offset n : Nat} (read : code.read? offset width = some n) : field code offset width = pure n := by
  unfold field
  rw [read]
  rfl

theorem branch_eq {offset n : Nat} (read : code.read? offset 4 = some n) (next : Nat) :
    branch code offset next = jump code.size next (Instruction.signed32 n) := by
  unfold branch Code.readSigned?
  rw [read]
  rfl

section Decodes

variable (decoded : Instruction.decode code ip = .ok inst)
include decoded

/-- The first field stands behind the opcode. -/
theorem field_first (at_0 : inst.widths[0]? = some width) : field code (ip + 1) width = pure (inst.operand 0) :=
  field_eq (Code.read?_operand decoded at_0)

theorem index_first (at_0 : inst.widths[0]? = some 2) : index code (ip + 1) = pure (inst.operand 0) :=
  field_first decoded at_0

theorem branch_first (at_0 : inst.widths[0]? = some 4) (next : Nat) :
    branch code (ip + 1) next = jump code.size next (inst.signed 0) :=
  branch_eq (Code.read?_operand decoded at_0) next

/-- A case of a table is read from its own place, the last one for all other selectors. -/
theorem branch_case (table : inst.opcode = .brTable) {i : Nat} (inside : i ≤ inst.operand 0) (next : Nat) :
    branch code (ip + 3 + 4 * i) next = jump code.size next (inst.signed (i + 1)) :=
  branch_eq (Code.read?_case decoded table inside) next

/-- Executing an instruction from the code is executing it decoded. -/
theorem execute_eq_decoded (nested : Exec Unit) (next : Nat) :
    execute nested code ip inst.opcode next = executeDecoded nested inst code.size next := by
  unfold execute executeDecoded
  have widths : inst.widths = Instruction.fieldWidths inst.opcode (inst.operand 0) := rfl
  cases opcode : inst.opcode with
  | br =>
    rw [opcode] at widths
    exact branch_first decoded (by rw [widths]; rfl) next
  | brIf =>
    rw [opcode] at widths
    simp only [branch_first decoded (by rw [widths]; rfl)]
  | brTable =>
    rw [opcode] at widths
    simp only [index_first decoded (by rw [widths]; rfl), pure_bind]
    -- the selected case is one of the table, or the one after them
    refine bind_congr fun _ => bind_congr fun selector => ?_
    rw [branch_case decoded opcode (by split <;> omega)]
  | globalGet | globalSet | globalTee | localGet | localSet | localTee | constGet | arrayNewDefault |
    structNew | structNewDefault | structGet | structSet =>
    rw [opcode] at widths
    simp only [index_first decoded (by rw [widths]; rfl), pure_bind]
  | arrayNew =>
    rw [opcode] at widths
    have second : code.read? (ip + 1 + (inst.widths.take 1).sum) 2 = some (inst.operand 1) :=
      Code.read?_operand decoded (by rw [widths]; rfl)
    rw [widths] at second
    have second : index code (ip + 3) = pure (inst.operand 1) := field_eq second
    simp only [index_first decoded (by rw [widths]; rfl), second, pure_bind]
  | const s =>
    rw [opcode] at widths
    simp only [field_first decoded (by rw [widths]; rfl), pure_bind]
  | _ => rfl

end Decodes

/-! ### Steps -/

variable {nested : Exec Unit} {frame : Frame} {callers : List Frame}

theorem get_bind {α : Type} (f : Machine → Exec α) : (get >>= f) m = f m m := rfl

theorem ask_lookup {α β : Type} (a : α) (f : α → Exec β) :
    (ask (fun _ => Machine.lookup (some a)) >>= f) = f a := rfl

/-- A step reads the opcode, and if it is known the width. -/
theorem step_read (frames : m.frames = frame :: callers) {byte : UInt8}
    (here : frame.function.code[frame.ip]? = some byte) :
    step nested m =
      match Opcode.ofByte? byte, frame.function.code.widthAt? frame.ip with
      | none, _ => .error (.fault Cause.unknownOpcode) m
      | some _, none => .error (.fault Cause.segmentationFault) m
      | some opcode, some width =>
        execute nested frame.function.code frame.ip opcode (frame.ip + width) (m.setIp (frame.ip + width)) := by
  rw [step, get_bind, frames]
  simp only [here, ask_lookup]
  cases Opcode.ofByte? byte <;> cases frame.function.code.widthAt? frame.ip <;> rfl

theorem step_decoded (frames : m.frames = frame :: callers)
    (decoded : Instruction.decode frame.function.code frame.ip = .ok inst) :
    step nested m = executeDecoded nested inst frame.function.code.size (frame.ip + inst.width)
      (m.setIp (frame.ip + inst.width)) := by
  have width : frame.function.code.widthAt? frame.ip = some inst.width := by
    rw [Code.widthAt?_eq, decoded]
    rfl
  rw [← execute_eq_decoded decoded, step_read frames (Code.byteAt_of_decode decoded),
    Opcode.ofByte?_eq_some_iff.2 rfl, width]

/-- Where nothing decodes, the step fails for the same reason and changes nothing. -/
theorem step_undecoded {e : Error} (frames : m.frames = frame :: callers)
    (failed : Instruction.decode frame.function.code frame.ip = .error e) :
    ∃ c : Cause, step nested m = .error (.fault c) m ∧ e = Error.atOffset c frame.ip := by
  have width : frame.function.code.widthAt? frame.ip = none := by
    rw [Code.widthAt?_eq, failed]
    rfl
  cases here : frame.function.code[frame.ip]? with
  | none =>
    rw [Instruction.decode, here] at failed
    cases failed
    refine ⟨.segmentationFault, ?_, rfl⟩
    rw [step, get_bind, frames]
    simp only [here]
    rfl
  | some byte =>
    rw [step_read frames here, width]
    cases known : Opcode.ofByte? byte with
    | none =>
      rw [Instruction.decode_unknown here known] at failed
      cases failed
      exact ⟨.unknownOpcode, rfl, rfl⟩
    | some opcode =>
      rw [← Opcode.ofByte?_eq_some_iff.1 known] at here
      rw [Instruction.decode_known here] at failed
      refine ⟨.segmentationFault, rfl, ?_⟩
      cases read : frame.function.code.fields? (frame.ip + 1)
          (Instruction.fieldWidths opcode (Instruction.casesAt frame.function.code frame.ip opcode)) with
      | none =>
        rw [read] at failed
        cases failed
        rfl
      | some operands =>
        rw [read] at failed
        cases failed

end Exec

end StackVM
