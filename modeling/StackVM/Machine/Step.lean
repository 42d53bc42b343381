import StackVM.Machine.Call
import StackVM.Machine.Memory
import StackVM.Operation.Eval
import StackVM.Word

/-!
# Steps and runs

`step` executes one instruction of the innermost frame, `turn` one instruction or one return at the end
of a function, and `run` turns until the frames are used up. A host function may run the machine it was
called from, so each of them takes that inner run as `nested`.
-/

namespace StackVM

namespace Exec

/-! ### Operands in the code -/

/-- The field of some bytes at an offset of the code. -/
def field (code : Code) (offset width : Nat) : Exec Nat :=
  ask fun _ => Machine.lookup (code.read? offset width)

/-- The index in the two bytes at an offset. -/
def index (code : Code) (offset : Nat) : Exec Nat := field code offset 2

/-- Goes on as far from `next` as the displacement in the four bytes at an offset says. -/
def branch (code : Code) (offset next : Nat) : Exec Unit := do
  let displacement ← ask fun _ => Machine.lookup (code.readSigned? offset)
  jump code.size next displacement

/-! ### Instructions -/

/-- Executes the instruction at `ip`, whose opcode is known; `next` is the offset after it. Each operand is
read from the code when it is needed. -/
def execute (nested : Exec Unit) (code : Code) (ip : Nat) (opcode : Opcode) (next : Nat) : Exec Unit :=
  match opcode with
  | .nop => return
  | .unreachable => fault .unreachableExecuted
  | .drop => do
    ask (·.need 1)
    modify (·.discarded 1)
  | .dup => do
    ask (·.need 1)
    pushCopy ((← get).peek 0)
  | .swap => do
    ask (·.need 2)
    modify fun m => { m with stack := m.peek 1 :: m.peek 0 :: m.stack.drop 2 }
  | .select => do
    ask (·.need 3)
    let condition ← ask (·.int32At 0)
    let m ← get
    let first := m.peek 2
    let second := m.peek 1
    if !m.sameKind first second then fault .typeMismatch
    let (kept, other) := if condition != 0 then (first, second) else (second, first)
    modify fun m => ((m.dropped 3).release other).pushed kept
  | .br => branch code (ip + 1) next
  | .brIf => do
    ask (·.need 1)
    if (← ask (·.int32At 0)) != 0 then branch code (ip + 1) next
    modify (·.discarded 1)
  | .brTable => do
    ask (·.need 1)
    let selector := (← ask (·.int32At 0)).toInt
    let count ← index code (ip + 1)
    let case := if 0 ≤ selector ∧ selector < count then selector.toNat else count
    branch code (ip + 3 + 4 * case) next
    modify (·.discarded 1)
  | .call => call nested
  | .ret => ret
  | .globalGet => do
    let i ← index code (ip + 1)
    pushCopy (← ask fun m => Machine.lookup (m.globals.get? i))
  | .globalSet => do
    let i ← index code (ip + 1)
    ask (·.need 1)
    let v ← take
    modify (·.setGlobal i v)
  | .globalTee => do
    let i ← index code (ip + 1)
    ask (·.need 1)
    let v := (← get).peek 0
    modify fun m => (m.retain v).setGlobal i v
  | .localGet => do
    let i ← index code (ip + 1)
    let place ← ask (·.localAt i)
    let m ← get
    pushCopy (m.peek (m.fromTop place))
  | .localSet => do
    let i ← index code (ip + 1)
    let place ← ask (·.localAt i)
    ask (·.need 1)
    let v ← take
    modify (·.setPlace place v)
  | .localTee => do
    let i ← index code (ip + 1)
    let place ← ask (·.localAt i)
    ask (·.need 1)
    let v := (← get).peek 0
    modify fun m => (m.retain v).setPlace place v
  | .constGet => do
    let i ← index code (ip + 1)
    pushCopy (← ask fun m => Machine.lookup m.constants[i]?)
  | .refNull => push .null
  | .const s => do pushRead (.ofRaw (.scalar s) (← field code (ip + 1) s.width))
  | .operation op => do
    let n := op.shape.arity
    ask (·.need n)
    let operands ← ask (·.operands n op.shape.operand)
    let result ← ask fun _ => op.eval operands
    replaceTop n result
  | .stringLen => stringLen
  | .stringConcat => stringConcat
  | .stringEq => stringTest true
  | .stringNe => stringTest false
  | .arrayNew => do arrayNew (← index code (ip + 1)) (← index code (ip + 3))
  | .arrayNewDefault => do arrayNewDefault (← index code (ip + 1))
  | .arrayLen => arrayLen
  | .arrayGet => arrayGet
  | .arraySet => arraySet
  | .structNew => do structNew (← index code (ip + 1))
  | .structNewDefault => do structNewDefault (← index code (ip + 1))
  | .structGet => do structGet (← index code (ip + 1))
  | .structSet => do structSet (← index code (ip + 1))

/-- Executes the instruction at the innermost frame's offset. The offset moves on before the instruction
takes effect. -/
def step (nested : Exec Unit) : Exec Unit := do
  match (← get).frames with
  | [] => fault .frameUnderflow
  | frame :: _ =>
    let code := frame.function.code
    let byte ← ask fun _ => Machine.lookup code[frame.ip]?
    match Opcode.ofByte? byte, code.widthAt? frame.ip with
    | none, _ => fault .unknownOpcode
    | some _, none => fault .segmentationFault
    | some opcode, some width =>
      let next := frame.ip + width
      modify (·.setIp next)
      execute nested code frame.ip opcode next

/-- One instruction, or the return at the end of a function; the answer is whether there is more to do.
When the entry runs off its end its operands stay on the stack. -/
def turn (nested : Exec Unit) : Exec Bool := do
  match (← get).frames with
  | [] => return false
  | frame :: callers =>
    if frame.ip < frame.function.code.size then
      located frame.ip (step nested)
      return true
    else if callers.isEmpty then
      modify fun m => { m with frames := [] }
      return false
    else
      located frame.ip ret
      return true

/-- Starts the entry code unless some function is running already. -/
def start : Exec Unit := do
  let m ← get
  if m.frames.isEmpty then
    if m.options.frameSize = 0 then fault .frameOverflow
    let height := m.stack.length
    let frame : Frame :=
      { function := m.program.entry, ip := 0, base := height, floor := height, callee := 0 }
    modify fun m => { m with frames := [frame] }

/-- Turns until the frames are used up, at most `fuel` times. A machine whose heap has outgrown the
addresses that a word can carry does not go on. -/
def loop : Nat → Exec Unit
  | 0 => throw .exhausted
  | fuel + 1 => do
    if Word.payloadSize < (← get).heap.size then throw .exhausted
    if ← turn (do start; loop fuel) then loop fuel

/-- Runs the entry code, or goes on where an error stopped the machine. -/
def run (fuel : Nat) : Exec Unit := do
  start
  loop fuel

end Exec

end StackVM
