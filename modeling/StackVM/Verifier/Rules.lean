import StackVM.Program
import StackVM.Table

/-!
# Typing rules of instructions

The verifier runs code on a stack of types. A rule says what an instruction asks of that stack and what
it leaves. The locals of the function lie at the bottom of the stack; nothing below its `floor` is ever
popped. The type of a global is fixed by the first instruction that is seen to write it. A path may read a
global only after it has written it, and reads the type that was fixed then.
-/

namespace StackVM

namespace Verifier

/-- One way through a function so far. -/
structure Path where
  /-- The types on the stack, the top first. -/
  stack : List Ty
  /-- The types of the globals that have been written on the way. -/
  recorded : Table Ty
deriving DecidableEq, Repr

/-- Whether the global has been written on the way. -/
def Path.written (p : Path) (i : Nat) : Bool := (p.recorded.get? i).isSome

/-- What rules read and change: a path, and the types of globals that are known. -/
structure State extends Path where
  globals : Table Ty
deriving DecidableEq, Repr

/-- The function under scrutiny and the limit for its stack. -/
structure Scope where
  program : Program
  function : Function
  maxStack : Nat

/-- A rule fails with a cause, or has an answer and changes the state. -/
abbrev Rule (α : Type) := StateT State (Except Cause) α

/-! ### Demands -/

/-- An entry that an index names. -/
def lookup {α : Type} : Option α → Rule α
  | some a => return a
  | none => throw .segmentationFault

/-- A part that only types of the right form have. -/
def part {α : Type} : Option α → Rule α
  | some a => return a
  | none => throw .typeMismatch

/-- A condition on types holds. -/
def demand (condition : Bool) : Rule Unit :=
  if condition then return else throw .typeMismatch

/-- A value of type `actual` may flow where `expected` is asked for. -/
def flow (expected actual : Ty) : Rule Unit := demand (expected.accepts actual)

/-- The type of a value that has one of two types: references of different types have no more in common
than that they are references. -/
def join (t t' : Ty) : Rule Ty :=
  if t = t' then return t
  else if t.isRef && t'.isRef then return .ref
  else throw .typeMismatch

/-! ### Globals -/

/-- The type of a global that the path has written. -/
def readGlobal (i : Nat) : Rule Ty := do lookup ((← get).recorded.get? i)

/-- The first write of a global fixes its type, and every further one has to agree with it. The answer is the
type that was fixed. -/
def recordGlobal (i : Nat) (t : Ty) : Rule Ty := do
  match (← get).globals.get? i with
  | some expected => do
    flow expected t
    return expected
  | none => do
    modify fun s => { s with globals := s.globals.put i t }
    return t

def writeGlobal (i : Nat) (t : Ty) : Rule Unit := do
  let fixed ← recordGlobal i t
  modify fun s => { s with recorded := s.recorded.put i fixed }

namespace Scope

/-! ### Stack -/

/-- Height of the stack below the first operand. -/
def floor (c : Scope) : Nat := c.function.signature.params.length + c.function.locals

/-- The stack on entry: parameters, and above them locals that hold null. -/
def entryStack (c : Scope) : List Ty :=
  (c.function.signature.params ++ List.replicate c.function.locals Ty.ref).reverse

def push (c : Scope) (t : Ty) : Rule Unit := fun s =>
  if s.stack.length < c.maxStack then .ok ((), { s with stack := t :: s.stack })
  else .error .stackOverflow

/-- Takes an operand off, whatever its type. -/
def popAny (c : Scope) : Rule Ty := fun s =>
  match s.stack with
  | t :: rest =>
    if c.floor < rest.length + 1 then .ok (t, { s with stack := rest }) else .error .stackUnderflow
  | [] => .error .stackUnderflow

/-- Takes an operand off that may stand for `expected`. -/
def pop (c : Scope) (expected : Ty) : Rule Unit := do flow expected (← c.popAny)

/-- Takes operands off, the top one for the head of the list. -/
def popAll (c : Scope) : List Ty → Rule Unit
  | [] => return
  | t :: ts => do
    c.pop t
    c.popAll ts

/-- A result of one type from an operand of one type. -/
def unary (c : Scope) (input output : Ty) : Rule Unit := do
  c.pop input
  c.push output

/-- A result of one type from two operands of one type. -/
def binary (c : Scope) (input output : Ty) : Rule Unit := do
  c.pop input
  c.pop input
  c.push output

theorem unary_eq (c : Scope) (input output : Ty) :
    c.unary input output = c.popAll [input] >>= fun _ => c.push output := by
  simp only [unary, popAll, bind_assoc, pure_bind]

theorem binary_eq (c : Scope) (input output : Ty) :
    c.binary input output = c.popAll [input, input] >>= fun _ => c.push output := by
  simp only [binary, popAll, bind_assoc, pure_bind]

/-- Pushes one after the other. -/
def pushAll (c : Scope) : List Ty → Rule Unit
  | [] => return
  | t :: ts => do
    c.push t
    c.pushAll ts

/-- Results that fit the signature lie on top of the stack, above `floor`. -/
def checkResults (c : Scope) (floor : Nat) (stack : List Ty) : Except Cause Unit :=
  let returns := c.function.signature.returns
  if stack.length < floor + returns.length then .error .stackUnderflow
  else if (returns.reverse.zip stack).all fun (expected, actual) => expected.accepts actual then .ok ()
  else .error .typeMismatch

/-! ### Locals -/

/-- The function has a local `i`. -/
def checkLocal (c : Scope) (i : Nat) : Rule Unit :=
  if i < c.floor then return else throw .segmentationFault

/-- The type of local `i`, which lies `i` places above the bottom. -/
def readLocal (i : Nat) : Rule Ty := do
  let s ← get
  lookup s.stack[s.stack.length - 1 - i]?

def writeLocal (i : Nat) (t : Ty) : Rule Unit :=
  modify fun s => { s with stack := s.stack.set (s.stack.length - 1 - i) t }

/-! ### Types of the program -/

def typeAt (c : Scope) (i : Nat) : Rule Ty := lookup c.program.types[i]?

def constantAt (c : Scope) (i : Nat) : Rule Ty := lookup (c.program.constants[i]?.map Constant.ty)

/-! ### Instructions -/

/-- The rule of an operation. -/
def operate (c : Scope) : Operation → Rule Unit
  | .refIsNull => c.unary .ref .i32
  | .refEq | .refNe => c.binary .ref .i32
  | .intEqz .w32 => c.unary .i32 .i32
  | .intTest .w32 _ => c.binary .i32 .i32
  | .intBinary .w32 _ => c.binary .i32 .i32
  | .convert (.extend _) => c.unary .i32 .i64
  | .convert (.intToFloat .w32 .w32 _) => c.unary .i32 .f32
  | .convert (.intToFloat .w32 .w64 _) => c.unary .i32 .f64
  | .intEqz .w64 => c.unary .i64 .i32
  | .intTest .w64 _ => c.binary .i64 .i32
  | .intBinary .w64 _ => c.binary .i64 .i64
  | .convert .wrap => c.unary .i64 .i32
  | .convert (.intToFloat .w64 .w32 _) => c.unary .i64 .f32
  | .convert (.intToFloat .w64 .w64 _) => c.unary .i64 .f64
  | .floatTest .w32 _ => c.binary .f32 .i32
  | .floatBinary .w32 _ => c.binary .f32 .f32
  | .convert (.floatToInt .w32 .w32 _) => c.unary .f32 .i32
  | .convert (.floatToInt .w32 .w64 _) => c.unary .f32 .i64
  | .convert .promote => c.unary .f32 .f64
  | .floatTest .w64 _ => c.binary .f64 .i32
  | .floatBinary .w64 _ => c.binary .f64 .f64
  | .convert (.floatToInt .w64 .w32 _) => c.unary .f64 .i32
  | .convert (.floatToInt .w64 .w64 _) => c.unary .f64 .i64
  | .convert .demote => c.unary .f64 .f32

/-- The rule asks for the operands that the operation reads, and leaves the kind of its result. -/
theorem operate_eq (c : Scope) (op : Operation) :
    c.operate op = c.popAll (List.replicate op.shape.arity (.ofKind op.shape.operand)) >>= fun _ =>
      c.push (.ofKind op.shape.result) := by
  cases op with
  | refIsNull => exact c.unary_eq _ _
  | refEq | refNe => exact c.binary_eq _ _
  | intEqz w => cases w <;> exact c.unary_eq _ _
  | intTest w _ | intBinary w _ | floatTest w _ | floatBinary w _ => cases w <;> exact c.binary_eq _ _
  | convert conversion =>
    cases conversion with
    | extend | wrap | promote | demote => exact c.unary_eq _ _
    | intToFloat source target _ | floatToInt source target _ =>
      cases source <;> cases target <;> exact c.unary_eq _ _

/-- The rule of an instruction. -/
def apply (c : Scope) (inst : Instruction) : Rule Unit :=
  match inst.opcode with
  | .nop | .unreachable | .br => return
  | .brIf | .brTable => c.pop .i32
  | .drop => do let _ ← c.popAny
  | .dup => do
    let t ← c.popAny
    c.push t
    c.push t
  | .swap => do
    let t' ← c.popAny
    let t ← c.popAny
    c.push t'
    c.push t
  | .select => do
    c.pop .i32
    let t' ← c.popAny
    let t ← c.popAny
    c.push (← join t t')
  | .call => do
    let signature ← part (← c.popAny).signature?
    c.popAll signature.params.reverse
    c.pushAll signature.returns
  | .ret => do c.checkResults c.floor (← get).stack
  | .globalGet => do c.push (← readGlobal (inst.operand 0))
  | .globalSet => do writeGlobal (inst.operand 0) (← c.popAny)
  | .globalTee => do
    let t ← c.popAny
    c.push t
    writeGlobal (inst.operand 0) t
  | .localGet => do
    c.checkLocal (inst.operand 0)
    c.push (← readLocal (inst.operand 0))
  | .localSet => do
    c.checkLocal (inst.operand 0)
    writeLocal (inst.operand 0) (← c.popAny)
  | .localTee => do
    c.checkLocal (inst.operand 0)
    let t ← c.popAny
    c.push t
    writeLocal (inst.operand 0) t
  | .constGet => do c.push (← c.constantAt (inst.operand 0))
  | .refNull => c.push .ref
  | .const s => c.push (.scalar s)
  | .operation op => c.operate op
  | .stringLen => c.unary .string .i32
  | .stringConcat => c.binary .string .string
  | .stringEq | .stringNe => c.binary .string .i32
  | .arrayNew => do
    let t ← c.typeAt (inst.operand 0)
    let elem ← part t.elem?
    c.popAll (List.replicate (inst.operand 1) elem)
    c.push t
  | .arrayNewDefault => do
    let t ← c.typeAt (inst.operand 0)
    let _ ← part t.elem?
    c.pop .i32
    c.push t
  | .arrayLen => do
    let t ← c.popAny
    demand (t = .ref || t.elem?.isSome)
    c.push .i32
  | .arrayGet => do
    c.pop .i32
    c.push (← part (← c.popAny).elem?)
  | .arraySet => do
    let t ← c.popAny
    c.pop .i32
    flow (← part (← c.popAny).elem?) t
  | .structNew => do
    let t ← c.typeAt (inst.operand 0)
    c.popAll (← part t.fields?).reverse
    c.push t
  | .structNewDefault => do
    let t ← c.typeAt (inst.operand 0)
    let _ ← part t.fields?
    c.push t
  | .structGet => do
    let fields ← part (← c.popAny).fields?
    c.push (← lookup fields[inst.operand 0]?)
  | .structSet => do
    let t ← c.popAny
    let fields ← part (← c.popAny).fields?
    flow (← lookup fields[inst.operand 0]?) t

end Scope

end Verifier

end StackVM
