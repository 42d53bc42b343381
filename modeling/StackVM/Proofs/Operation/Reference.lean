import Mathlib.Algebra.Ring.Int.Defs
import Mathlib.Algebra.Ring.Nat
import StackVM.Proofs.Float.Nearest
import StackVM.Word
import StackVM.Proofs.Operation.Shapes

/-!
# Integer operations by unbounded integers

A bit vector stands for an integer with a sign and for one without. The reference results are computed on
these integers, without any bound, and wrapped into two's complement at the end: so the quotient of the
least integer by minus one wraps to the least integer, and the remainder is zero. An integer that becomes a
floating-point number becomes the nearest one. Main statement: operations on 64-bit integers have the
reference results, and fail exactly if they divide by zero (`Operation.eval_integers`).
-/

namespace StackVM

variable {w : Nat} (a b : BitVec w)

/-- Whether the integers compare so: those with a sign for signed comparisons, those without for the
others. -/
def IntTest.Holds : IntTest → Prop
  | .eq => a.toInt = b.toInt
  | .ne => a.toInt ≠ b.toInt
  | .ltS => a.toInt < b.toInt
  | .ltU => a.toNat < b.toNat
  | .gtS => a.toInt > b.toInt
  | .gtU => a.toNat > b.toNat
  | .leS => a.toInt ≤ b.toInt
  | .leU => a.toNat ≤ b.toNat
  | .geS => a.toInt ≥ b.toInt
  | .geU => a.toNat ≥ b.toNat

instance (t : IntTest) : Decidable (t.Holds a b) := by
  unfold IntTest.Holds
  cases t <;> infer_instance

/-- The result before it is wrapped. Signed division truncates, a shift to the left multiplies and one to
the right divides by a power of two, rounding down; its exponent is taken modulo the width. -/
def IntBinary.exact : IntBinary → Int
  | .add => a.toInt + b.toInt
  | .sub => a.toInt - b.toInt
  | .mul => a.toInt * b.toInt
  | .divS => a.toInt.tdiv b.toInt
  | .divU => (a.toNat / b.toNat : Nat)
  | .remS => a.toInt.tmod b.toInt
  | .remU => (a.toNat % b.toNat : Nat)
  | .shl => a.toInt * 2 ^ (b.toNat % w)
  | .shrS => a.toInt / 2 ^ (b.toNat % w)
  | .shrU => (a.toNat / 2 ^ (b.toNat % w) : Nat)
  | .xor => (a.toNat ^^^ b.toNat : Nat)
  | .and => (a.toNat &&& b.toNat : Nat)
  | .or => (a.toNat ||| b.toNat : Nat)

theorem IntTest.eval_eq (t : IntTest) : t.eval a b = decide (t.Holds a b) := by
  cases t with
  | eq =>
    simp only [eval, Holds, BitVec.toInt_inj]
    by_cases same : a = b <;> simp [same]
  | ne =>
    simp only [eval, Holds, ne_eq, BitVec.toInt_inj]
    by_cases same : a = b <;> simp [same]
  | _ => rfl

/-! ### Wrapped results -/

theorem ofInt_mul_pow (k : Nat) : BitVec.ofInt w (a.toInt * 2 ^ k) = a <<< k := by
  have power : BitVec.ofInt w (2 ^ k) = BitVec.twoPow w k := by
    have cast : (2 : Int) ^ k = ((2 ^ k : Nat) : Int) := by norm_cast
    rw [cast, BitVec.ofInt_natCast]
    apply BitVec.eq_of_toNat_eq
    rw [BitVec.toNat_ofNat, BitVec.toNat_twoPow]
  rw [BitVec.ofInt_mul, BitVec.ofInt_toInt, power, BitVec.shiftLeft_eq_mul_twoPow]

theorem ofInt_div_pow (k : Nat) : BitVec.ofInt w (a.toInt / 2 ^ k) = a.sshiftRight k := by
  have quotient : (a.sshiftRight k).toInt = a.toInt / 2 ^ k := by
    rw [BitVec.toInt_sshiftRight, Int.shiftRight_eq_div_pow]
    norm_cast
  rw [← quotient, BitVec.ofInt_toInt]

theorem ofInt_tdiv : BitVec.ofInt w (a.toInt.tdiv b.toInt) = a.sdiv b := by
  apply BitVec.eq_of_toInt_eq
  rw [BitVec.toInt_ofInt, BitVec.toInt_sdiv]

theorem ofInt_tmod : BitVec.ofInt w (a.toInt.tmod b.toInt) = a.srem b := by
  rw [← BitVec.toInt_srem, BitVec.ofInt_toInt]

/-- A number without a sign is wrapped to the bit vector that stands for it. -/
theorem ofInt_toNat : BitVec.ofInt w a.toNat = a := by
  rw [BitVec.ofInt_natCast, BitVec.ofNat_toNat, BitVec.setWidth_eq]

theorem divisor_eq (result : BitVec w) :
    IntBinary.eval.divisor b result = if b.toInt = 0 then .error .divideByZero else .ok result := by
  have zero : b.toInt = 0 ↔ b = 0 := by
    rw [← BitVec.toInt_inj, BitVec.ofNat_eq_ofNat, BitVec.toInt_zero]
  simp only [IntBinary.eval.divisor, zero]

/-- Every operation wraps the exact result, unless it divides by zero. -/
theorem IntBinary.eval_eq (op : IntBinary) :
    op.eval a b =
      if op.divides ∧ b.toInt = 0 then .error .divideByZero else .ok (.ofInt w (op.exact a b)) := by
  cases op with
  | add => simp [eval, exact, divides, BitVec.ofInt_add]
  | sub => simp [eval, exact, divides, Int.sub_eq_add_neg, BitVec.ofInt_add, BitVec.ofInt_neg, BitVec.sub_eq_add_neg]
  | mul => simp [eval, exact, divides, BitVec.ofInt_mul]
  | divS => simp [eval, exact, divides, divisor_eq, ofInt_tdiv]
  | remS => simp [eval, exact, divides, divisor_eq, ofInt_tmod]
  | divU =>
    rw [eval, divisor_eq, exact, ← BitVec.toNat_udiv, ofInt_toNat]
    simp [divides]
  | remU =>
    rw [eval, divisor_eq, exact, ← BitVec.toNat_umod, ofInt_toNat]
    simp [divides]
  | shl => simp [eval, exact, divides, ofInt_mul_pow]
  | shrS => simp [eval, exact, divides, ofInt_div_pow]
  | shrU =>
    rw [eval, exact, ← Nat.shiftRight_eq_div_pow, ← BitVec.toNat_ushiftRight, ofInt_toNat]
    simp [divides]
  | xor =>
    rw [eval, exact, ← BitVec.toNat_xor, ofInt_toNat]
    simp [divides]
  | and =>
    rw [eval, exact, ← BitVec.toNat_and, ofInt_toNat]
    simp [divides]
  | or =>
    rw [eval, exact, ← BitVec.toNat_or, ofInt_toNat]
    simp [divides]

/-! ### Instructions on 64-bit integers -/

namespace Operation

/-- The instruction divides, and by zero. -/
def ZeroDivisor : Operation → List (BitVec 64) → Prop
  | .intBinary .w64 op, [_, b] => op.divides ∧ b.toInt = 0
  | _, _ => False

/-- The value is the result on integers in the order in which they were pushed, as an instruction that takes
64-bit integers should have it. -/
def Reference : Operation → List (BitVec 64) → Value → Prop
  | .intEqz .w64, [a], result => result = .ofBool (a.toInt = 0)
  | .intTest .w64 t, [a, b], result => result = .ofBool (t.Holds a b)
  | .intBinary .w64 op, [a, b], result => result = .i64 (.ofInt 64 (op.exact a b))
  | .convert .wrap, [a], result => result = .i32 (.ofInt 32 a.toInt)
  | .convert (.intToFloat .w64 .w32 .signed), [a], .f32 x => FloatFormat.binary32.Nearest a.toInt x.bits.toNat
  | .convert (.intToFloat .w64 .w32 .unsigned), [a], .f32 x => FloatFormat.binary32.Nearest a.toNat x.bits.toNat
  | .convert (.intToFloat .w64 .w64 .signed), [a], .f64 x => FloatFormat.binary64.Nearest a.toInt x.bits.toNat
  | .convert (.intToFloat .w64 .w64 .unsigned), [a], .f64 x => FloatFormat.binary64.Nearest a.toNat x.bits.toNat
  | _, _, _ => False

/-- An integer of 64 bits is converted to the nearest number. -/
theorem reference_intToFloat (target : FloatWidth) (sign : Signedness) (n : BitVec 64) :
    ∃ result, (Operation.convert (.intToFloat .w64 target sign)).Reference [n] result ∧
      (Operation.convert (.intToFloat .w64 target sign)).eval [.i64 n] = .ok result := by
  have signed : n.toInt.natAbs < 2 ^ 64 := by
    have := n.isLt
    have := BitVec.toInt_eq_toNat_cond n
    split at this <;> omega
  have unsigned : (n.toNat : Int).natAbs < 2 ^ 64 := n.isLt
  cases target <;> cases sign
  · exact ⟨.f32 (.ofSigned64 n), Binary32.nearest_ofInt signed, rfl⟩
  · exact ⟨.f32 (.ofUnsigned64 n), Binary32.nearest_ofInt unsigned, rfl⟩
  · exact ⟨.f64 (.ofSigned64 n), Binary64.nearest_ofInt signed, rfl⟩
  · exact ⟨.f64 (.ofUnsigned64 n), Binary64.nearest_ofInt unsigned, rfl⟩

/-- A word keeps a reference result, which is no NaN. -/
theorem Reference.canonical {op : Operation} {ns : List (BitVec 64)} {result : Value}
    (reference : op.Reference ns result) : result.canonical = result := by
  cases result with
  | f64 x =>
    have number : x.decode ≠ .nan := by
      unfold Reference at reference
      split at reference
      · cases reference
      · cases reference
      · cases reference
      · cases reference
      · next same => cases same
      · next same => cases same
      · next same =>
        cases same
        exact reference.ne_nan
      · next same =>
        cases same
        exact reference.ne_nan
      · exact reference.elim
    simp [Value.canonical, Binary64.isNaN, number]
  | _ => rfl

private theorem eval_one_integer {op : Operation} (n : BitVec 64)
    (operand : op.shape.operand = .scalar .i64) (arity : op.shape.arity = 1) :
    ¬op.ZeroDivisor [n] ∧ ∃ result, op.Reference [n] result ∧ op.eval [.i64 n] = .ok result := by
  cases op with
  | intEqz width =>
    cases width with
    | w32 => cases operand
    | w64 =>
      refine ⟨id, _, rfl, ?_⟩
      have zero := IntTest.eval_eq n 0 .eq
      simp only [IntTest.eval, IntTest.Holds, BitVec.ofNat_eq_ofNat, BitVec.toInt_zero] at zero
      rw [eval, BitVec.ofNat_eq_ofNat, zero]
  | convert conversion =>
    cases conversion with
    | wrap =>
      refine ⟨id, _, rfl, ?_⟩
      have low : BitVec.ofInt 32 n.toInt = n.setWidth 32 := by
        rw [← BitVec.signExtend, BitVec.signExtend_eq_setWidth_of_le n (by decide)]
      rw [low]
      rfl
    | intToFloat source target sign =>
      cases source with
      | w32 => cases operand
      | w64 => exact ⟨id, reference_intToFloat target sign n⟩
    | floatToInt source target sign => cases source <;> cases operand
    | _ => cases operand
  | refIsNull => cases operand
  | _ => cases arity

private theorem eval_two_integers {op : Operation} (a b : BitVec 64)
    (operand : op.shape.operand = .scalar .i64) (arity : op.shape.arity = 2) :
    (op.ZeroDivisor [a, b] ∧ op.eval [.i64 a, .i64 b] = .error .divideByZero) ∨
      ¬op.ZeroDivisor [a, b] ∧ ∃ result, op.Reference [a, b] result ∧
        op.eval [.i64 a, .i64 b] = .ok result := by
  cases op with
  | intTest width test =>
    cases width with
    | w32 => cases operand
    | w64 =>
      refine .inr ⟨id, _, rfl, ?_⟩
      rw [eval, IntTest.eval_eq]
  | intBinary width op =>
    cases width with
    | w32 => cases operand
    | w64 =>
      -- only here the divisor matters
      by_cases zero : op.divides ∧ b.toInt = 0
      · refine .inl ⟨zero, ?_⟩
        rw [eval, IntBinary.eval_eq, if_pos zero]
        rfl
      · refine .inr ⟨zero, _, rfl, ?_⟩
        rw [eval, IntBinary.eval_eq, if_neg zero]
        rfl
  | refEq | refNe => cases operand
  | floatTest width test => cases width <;> cases operand
  | floatBinary width op => cases width <;> cases operand
  | _ => cases arity

/-- On 64-bit integers an instruction has the reference result, or it fails because it divides by zero. -/
theorem eval_integers {op : Operation} {ns : List (BitVec 64)} (operand : op.shape.operand = .scalar .i64)
    (arity : ns.length = op.shape.arity) :
    (op.ZeroDivisor ns ∧ op.eval (ns.map .i64) = .error .divideByZero) ∨
      ¬op.ZeroDivisor ns ∧ ∃ result, op.Reference ns result ∧
        op.eval (ns.map .i64) = .ok result := by
  match ns with
  | [] => cases op <;> cases arity
  | [n] => exact .inr (eval_one_integer n operand arity.symm)
  | [a, b] => exact eval_two_integers a b operand arity.symm
  | _ :: _ :: _ :: _ => cases op <;> cases arity

end Operation

/-- The quotient of the least integer by minus one wraps to the least integer, and the remainder is zero. -/
example : IntBinary.divS.eval (BitVec.intMin 64) (-1) = .ok (BitVec.intMin 64) ∧
    IntBinary.remS.eval (BitVec.intMin 64) (-1) = .ok 0 := ⟨rfl, rfl⟩

end StackVM
