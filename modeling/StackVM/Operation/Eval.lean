import StackVM.Error
import StackVM.Float.Arithmetic
import StackVM.Operation
import StackVM.Value

/-!
# Meaning of operations

Integer arithmetic wraps, shift amounts count modulo the width, and division truncates toward zero and
fails on a zero divisor. Everything else always has a result.
-/

namespace StackVM

def IntTest.eval {w : Nat} (t : IntTest) (a b : BitVec w) : Bool :=
  match t with
  | .eq => a == b
  | .ne => a != b
  | .ltS => a.slt b
  | .ltU => a.ult b
  | .gtS => b.slt a
  | .gtU => b.ult a
  | .leS => a.sle b
  | .leU => a.ule b
  | .geS => b.sle a
  | .geU => b.ule a

def IntBinary.eval {w : Nat} (op : IntBinary) (a b : BitVec w) : Except Cause (BitVec w) :=
  match op with
  | .add => .ok (a + b)
  | .sub => .ok (a - b)
  | .mul => .ok (a * b)
  | .divS => divisor (a.sdiv b)
  | .divU => divisor (a.udiv b)
  | .remS => divisor (a.srem b)
  | .remU => divisor (a.umod b)
  | .shl => .ok (a <<< (b.toNat % w))
  | .shrS => .ok (a.sshiftRight (b.toNat % w))
  | .shrU => .ok (a >>> (b.toNat % w))
  | .xor => .ok (a ^^^ b)
  | .and => .ok (a &&& b)
  | .or => .ok (a ||| b)
where
  /-- The quotient or remainder unless the divisor is zero. -/
  divisor (result : BitVec w) : Except Cause (BitVec w) :=
    if b = 0 then .error .divideByZero else .ok result

/-- Every comparison with a NaN is false, except that a NaN differs from everything. -/
def FloatTest.eval32 (t : FloatTest) (a b : Binary32) : Bool :=
  match t with
  | .eq => a.eq b
  | .ne => !a.eq b
  | .lt => a.lt b
  | .gt => b.lt a
  | .le => a.le b
  | .ge => b.le a

@[inherit_doc FloatTest.eval32]
def FloatTest.eval64 (t : FloatTest) (a b : Binary64) : Bool :=
  match t with
  | .eq => a.eq b
  | .ne => !a.eq b
  | .lt => a.lt b
  | .gt => b.lt a
  | .le => a.le b
  | .ge => b.le a

def FloatBinary.eval32 (op : FloatBinary) (a b : Binary32) : Binary32 :=
  match op with
  | .add => a.add b
  | .sub => a.sub b
  | .mul => a.mul b
  | .div => a.div b

def FloatBinary.eval64 (op : FloatBinary) (a b : Binary64) : Binary64 :=
  match op with
  | .add => a.add b
  | .sub => a.sub b
  | .mul => a.mul b
  | .div => a.div b

/-- The converted number; `none` for a value of another kind than the source. -/
def Conversion.eval? : Conversion → Value → Option Value
  | .extend .signed, .i32 n => some (.i64 (n.signExtend 64))
  | .extend .unsigned, .i32 n => some (.i64 (n.setWidth 64))
  | .wrap, .i64 n => some (.i32 (n.setWidth 32))
  | .intToFloat .w32 .w32 .signed, .i32 n => some (.f32 (.ofSigned32 n))
  | .intToFloat .w32 .w32 .unsigned, .i32 n => some (.f32 (.ofUnsigned32 n))
  | .intToFloat .w32 .w64 .signed, .i32 n => some (.f64 (.ofSigned32 n))
  | .intToFloat .w32 .w64 .unsigned, .i32 n => some (.f64 (.ofUnsigned32 n))
  | .intToFloat .w64 .w32 .signed, .i64 n => some (.f32 (.ofSigned64 n))
  | .intToFloat .w64 .w32 .unsigned, .i64 n => some (.f32 (.ofUnsigned64 n))
  | .intToFloat .w64 .w64 .signed, .i64 n => some (.f64 (.ofSigned64 n))
  | .intToFloat .w64 .w64 .unsigned, .i64 n => some (.f64 (.ofUnsigned64 n))
  | .floatToInt .w32 .w32 .signed, .f32 x => some (.i32 x.toSigned32)
  | .floatToInt .w32 .w32 .unsigned, .f32 x => some (.i32 x.toUnsigned32)
  | .floatToInt .w32 .w64 .signed, .f32 x => some (.i64 x.toSigned64)
  | .floatToInt .w32 .w64 .unsigned, .f32 x => some (.i64 x.toUnsigned64)
  | .floatToInt .w64 .w32 .signed, .f64 x => some (.i32 x.toSigned32)
  | .floatToInt .w64 .w32 .unsigned, .f64 x => some (.i32 x.toUnsigned32)
  | .floatToInt .w64 .w64 .signed, .f64 x => some (.i64 x.toSigned64)
  | .floatToInt .w64 .w64 .unsigned, .f64 x => some (.i64 x.toUnsigned64)
  | .promote, .f32 x => some (.f64 (.ofBinary32 x))
  | .demote, .f64 x => some (.f32 x.toBinary32)
  | _, _ => none

/-- The result on operands in the order in which they were pushed. Operands that do not have the shape
of the operation are a type mismatch. -/
def Operation.eval : Operation → List Value → Except Cause Value
  | .refIsNull, [.ref a] => .ok (.ofBool (a == 0))
  | .refEq, [.ref a, .ref b] => .ok (.ofBool (a == b))
  | .refNe, [.ref a, .ref b] => .ok (.ofBool (a != b))
  | .intEqz .w32, [.i32 a] => .ok (.ofBool (a == 0))
  | .intEqz .w64, [.i64 a] => .ok (.ofBool (a == 0))
  | .intTest .w32 t, [.i32 a, .i32 b] => .ok (.ofBool (t.eval a b))
  | .intTest .w64 t, [.i64 a, .i64 b] => .ok (.ofBool (t.eval a b))
  | .intBinary .w32 op, [.i32 a, .i32 b] => (op.eval a b).map .i32
  | .intBinary .w64 op, [.i64 a, .i64 b] => (op.eval a b).map .i64
  | .floatTest .w32 t, [.f32 a, .f32 b] => .ok (.ofBool (t.eval32 a b))
  | .floatTest .w64 t, [.f64 a, .f64 b] => .ok (.ofBool (t.eval64 a b))
  | .floatBinary .w32 op, [.f32 a, .f32 b] => .ok (.f32 (op.eval32 a b))
  | .floatBinary .w64 op, [.f64 a, .f64 b] => .ok (.f64 (op.eval64 a b))
  | .convert c, [v] =>
    match c.eval? v with
    | some result => .ok result
    | none => .error .typeMismatch
  | _, _ => .error .typeMismatch

end StackVM
