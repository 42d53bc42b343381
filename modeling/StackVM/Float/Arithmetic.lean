import StackVM.Float.Bits

/-!
# Floating-point arithmetic

Comparisons, the four operations and conversions, rounded to nearest with ties to even. A conversion
to an integer drops the fraction, clamps to the range of the integer and takes NaN to zero.
-/

namespace StackVM

namespace Binary32

def toFloat32 (x : Binary32) : Float32 := Float32.ofBits (UInt32.ofBitVec x.bits)

def ofFloat32 (x : Float32) : Binary32 := ⟨x.toBits.toBitVec⟩

def eq (a b : Binary32) : Bool := a.toFloat32 == b.toFloat32

def lt (a b : Binary32) : Bool := a.toFloat32 < b.toFloat32

def le (a b : Binary32) : Bool := a.toFloat32 ≤ b.toFloat32

def add (a b : Binary32) : Binary32 := ofFloat32 (a.toFloat32 + b.toFloat32)

def sub (a b : Binary32) : Binary32 := ofFloat32 (a.toFloat32 - b.toFloat32)

def mul (a b : Binary32) : Binary32 := ofFloat32 (a.toFloat32 * b.toFloat32)

def div (a b : Binary32) : Binary32 := ofFloat32 (a.toFloat32 / b.toFloat32)

/-- An integer as a number. -/
def ofInt (n : Int) : Binary32 := ⟨.ofNat 32 (FloatFormat.binary32.ofInt n)⟩

def ofSigned32 (n : BitVec 32) : Binary32 := ofInt n.toInt

def ofUnsigned32 (n : BitVec 32) : Binary32 := ofInt n.toNat

def ofSigned64 (n : BitVec 64) : Binary32 := ofInt n.toInt

def ofUnsigned64 (n : BitVec 64) : Binary32 := ofInt n.toNat

def toSigned32 (x : Binary32) : BitVec 32 := x.toFloat32.toInt32.toBitVec

def toUnsigned32 (x : Binary32) : BitVec 32 := x.toFloat32.toUInt32.toBitVec

def toSigned64 (x : Binary32) : BitVec 64 := x.toFloat32.toInt64.toBitVec

def toUnsigned64 (x : Binary32) : BitVec 64 := x.toFloat32.toUInt64.toBitVec

end Binary32

namespace Binary64

def toFloat (x : Binary64) : Float := Float.ofBits (UInt64.ofBitVec x.bits)

def ofFloat (x : Float) : Binary64 := ⟨x.toBits.toBitVec⟩

def eq (a b : Binary64) : Bool := a.toFloat == b.toFloat

def lt (a b : Binary64) : Bool := a.toFloat < b.toFloat

def le (a b : Binary64) : Bool := a.toFloat ≤ b.toFloat

def add (a b : Binary64) : Binary64 := ofFloat (a.toFloat + b.toFloat)

def sub (a b : Binary64) : Binary64 := ofFloat (a.toFloat - b.toFloat)

def mul (a b : Binary64) : Binary64 := ofFloat (a.toFloat * b.toFloat)

def div (a b : Binary64) : Binary64 := ofFloat (a.toFloat / b.toFloat)

/-- An integer as a number. -/
def ofInt (n : Int) : Binary64 := ⟨.ofNat 64 (FloatFormat.binary64.ofInt n)⟩

def ofSigned32 (n : BitVec 32) : Binary64 := ofInt n.toInt

def ofUnsigned32 (n : BitVec 32) : Binary64 := ofInt n.toNat

def ofSigned64 (n : BitVec 64) : Binary64 := ofInt n.toInt

def ofUnsigned64 (n : BitVec 64) : Binary64 := ofInt n.toNat

def toSigned32 (x : Binary64) : BitVec 32 := x.toFloat.toInt32.toBitVec

def toUnsigned32 (x : Binary64) : BitVec 32 := x.toFloat.toUInt32.toBitVec

def toSigned64 (x : Binary64) : BitVec 64 := x.toFloat.toInt64.toBitVec

def toUnsigned64 (x : Binary64) : BitVec 64 := x.toFloat.toUInt64.toBitVec

/-- Rounds to single precision. -/
def toBinary32 (x : Binary64) : Binary32 := .ofFloat32 x.toFloat.toFloat32

/-- Every single-precision number is a double-precision one. -/
def ofBinary32 (x : Binary32) : Binary64 := ofFloat x.toFloat32.toFloat

end Binary64

end StackVM
