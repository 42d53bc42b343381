import StackVM.Bytes
import StackVM.Error
import StackVM.Float.Text
import StackVM.Opcode

/-!
# Instructions and their encoding

An instruction is an opcode byte followed by little-endian operand fields of fixed widths. A branch
table is the exception: a two-byte count, one four-byte displacement for each case, and a last
displacement for every other selector. Operands are kept unsigned; encoding takes the low bytes of
each field, reads a missing operand as zero and drops surplus ones.
-/

namespace StackVM

/-- A byte string that holds instructions. -/
abbrev Code := Array UInt8

structure Instruction where
  opcode : Opcode
  operands : List Nat
deriving DecidableEq, Repr

/-! ### Reading fields -/

namespace Code

/-- The little-endian number in the `width` bytes from `start` on. -/
def read? (code : Code) (start : Nat) : (width : Nat) → Option Nat
  | 0 => some 0
  | width + 1 =>
    match code[start]?, code.read? (start + 1) width with
    | some low, some high => some (low.toNat + 256 * high)
    | _, _ => none

/-- Consecutive fields of the given widths. -/
def fields? (code : Code) (start : Nat) : List Nat → Option (List Nat)
  | [] => some []
  | width :: rest => do
    let first ← code.read? start width
    let others ← code.fields? (start + width) rest
    some (first :: others)

end Code

namespace Instruction

/-- The operand at place `i`; a missing operand is zero. -/
def operand (inst : Instruction) (i : Nat) : Nat := inst.operands[i]?.getD 0

/-- The low 32 bits of an operand as a signed number. -/
def signed32 (n : Nat) : Int := (BitVec.ofNat 32 n).toInt

/-- The operand at place `i` as a signed 32-bit number. -/
def signed (inst : Instruction) (i : Nat) : Int := signed32 (inst.operand i)

/-! ### Encoding -/

/-- Widths of the operand fields of an opcode whose first operand is `first`. -/
def fieldWidths (opcode : Opcode) (first : Nat) : List Nat :=
  match opcode with
  | .brTable => 2 :: List.replicate (first + 1) 4
  | opcode => opcode.widths

def widths (inst : Instruction) : List Nat := fieldWidths inst.opcode (inst.operand 0)

/-- Bytes of the encoded instruction. -/
def width (inst : Instruction) : Nat := 1 + inst.widths.foldr (· + ·) 0

/-- Fields of the given widths, filled from the operands. -/
def encodeFields : (widths operands : List Nat) → List UInt8
  | [], _ => []
  | w :: ws, operands => Bytes.ofNat w (operands.headD 0) ++ encodeFields ws operands.tail

def encode (inst : Instruction) : List UInt8 :=
  inst.opcode.byte :: encodeFields inst.widths inst.operands

/-- The code of a list of instructions. -/
def assemble (insts : List Instruction) : Code := (insts.flatMap encode).toArray

/-! ### Decoding -/

/-- The instruction at offset `ip`. -/
def decode (code : Code) (ip : Nat) : Except Error Instruction :=
  match code[ip]? with
  | none => .error (Error.atOffset Cause.segmentationFault ip)
  | some byte =>
    match Opcode.ofByte? byte with
    | none => .error (Error.atOffset Cause.unknownOpcode ip)
    | some opcode =>
      let first := if opcode = .brTable then (code.read? (ip + 1) 2).getD 0 else 0
      match code.fields? (ip + 1) (fieldWidths opcode first) with
      | none => .error (Error.atOffset Cause.segmentationFault ip)
      | some operands => .ok ⟨opcode, operands⟩

/-! ### Text -/

/-- Numbers in the code and displacements are written with their sign, all other operands without. -/
def text (inst : Instruction) : String :=
  inst.opcode.mnemonic ++
    match inst.opcode with
    | .br | .brIf | .const .i32 => " " ++ toString (inst.signed 0)
    | .const .i64 => " " ++ toString (BitVec.ofNat 64 (inst.operand 0)).toInt
    | .const .f32 =>
      " " ++ FloatStyle.listing.write (Binary32.mk (.ofNat 32 (inst.operand 0))).decode
    | .const .f64 =>
      " " ++ FloatStyle.listing.write (Binary64.mk (.ofNat 64 (inst.operand 0))).decode
    | .brTable =>
      " " ++ toString (inst.operand 0) ++
        String.join (inst.operands.tail.map fun n => " " ++ toString (signed32 n))
    | _ => String.join (inst.operands.map fun n => " " ++ toString n)

theorem width_pos (inst : Instruction) : 0 < inst.width := by
  simp only [width]; omega

end Instruction

end StackVM
