import StackVM.Instruction

/-!
# Instruction streams

Code is read from offset zero, one instruction after the other: into the list of all instructions, and into
a listing with one line for each of them. A single line is looked up by the widths of those before it.
-/

namespace StackVM

/-- An instruction and the offset at which it starts. -/
structure Located where
  offset : Nat
  inst : Instruction
deriving DecidableEq, Repr

/-- The offset of the instruction after this one. -/
def Located.next (l : Located) : Nat := l.offset + l.inst.width

namespace Code

/-- The instructions from `ip` on. -/
def instructionsFrom (code : Code) (ip : Nat) : Except Error (List Instruction) :=
  if ip < code.size then do
    let inst ← Instruction.decode code ip
    let rest ← code.instructionsFrom (ip + inst.width)
    return inst :: rest
  else
    return []
termination_by code.size - ip
decreasing_by
  have := inst.width_pos
  omega

/-- All instructions of the code. -/
def instructions (code : Code) : Except Error (List Instruction) := code.instructionsFrom 0

/-- The lines of a listing from `ip` on. The first instruction that does not decode ends it. -/
def linesFrom (code : Code) (ip : Nat) : List String :=
  if ip < code.size then
    match Instruction.decode code ip with
    | .ok inst => (toString ip ++ ":\t" ++ inst.text ++ "\n") :: code.linesFrom (ip + inst.width)
    | .error _ => [toString ip ++ ":\t<invalid>\n"]
  else
    []
termination_by code.size - ip
decreasing_by
  have := inst.width_pos
  omega

/-- One line for each instruction, with its offset; a last line marks what does not decode. -/
def listing (code : Code) : String := String.join (code.linesFrom 0)

/-- Bytes of the instruction at `ip`; `none` if the opcode is unassigned or the instruction is cut
short. -/
def widthAt? (code : Code) (ip : Nat) : Option Nat := do
  let opcode ← Opcode.ofByte? (← code[ip]?)
  let width ← match opcode with
    | .brTable => (code.read? (ip + 1) 2).map fun count => 1 + 2 + 4 * count + 4
    | opcode => some opcode.width
  if ip + width ≤ code.size then some width else none

/-- Whether steps of whole instructions lead from `ip` to `offset`. -/
def reaches (code : Code) (ip offset : Nat) : Bool :=
  if ip < offset then
    match code.widthAt? ip with
    | some (width + 1) => code.reaches (ip + (width + 1)) offset
    | _ => false
  else
    ip == offset
termination_by offset - ip

/-- The text of the instruction that starts at `offset`, if one does. -/
def line? (code : Code) (offset : Nat) : Option String :=
  if code.reaches 0 offset then
    (Instruction.decode code offset).toOption.map Instruction.text
  else
    none

/-! ### Branches -/

/-- Offsets are smaller than this, two to the power of 64. -/
def offsetLimit : Nat := 0x10000000000000000

/-- The offset that lies `displacement` bytes after `next`, if there is such an offset. -/
def jumpTarget? (next : Nat) (displacement : Int) : Option Nat :=
  let target := (next : Int) + displacement
  if 0 ≤ target ∧ target < offsetLimit then some target.toNat else none

/-- The signed field of four bytes at an offset. -/
def readSigned? (code : Code) (offset : Nat) : Option Int :=
  (code.read? offset 4).map Instruction.signed32

/-- Displacements of the branch at `ip`: those of the cases, then the one for all other selectors. -/
def displacements? (code : Code) (ip : Nat) : Opcode → Option (List Int)
  | .br | .brIf => do
    let displacement ← code.readSigned? (ip + 1)
    return [displacement]
  | .brTable => do
    let count ← code.read? (ip + 1) 2
    (List.range (count + 1)).mapM fun i => code.readSigned? (ip + 3 + 4 * i)
  | _ => some []

/-- Every target of the branch at `ip`, which has the given opcode and width. -/
def branchTargets (code : Code) (ip : Nat) (opcode : Opcode) (width : Nat) :
    Except Error (List Nat) :=
  match (code.displacements? ip opcode).bind fun ds => ds.mapM (jumpTarget? (ip + width)) with
  | some targets => .ok targets
  | none => .error (Error.atOffset Cause.invalidJump ip)

end Code

end StackVM
