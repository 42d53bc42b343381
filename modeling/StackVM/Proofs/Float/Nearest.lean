import Mathlib.Algebra.Order.Field.Rat
import Mathlib.Algebra.Order.Field.Power
import Mathlib.Tactic.Linarith
import Mathlib.Tactic.Positivity
import Mathlib.Tactic.Ring
import StackVM.Float.Arithmetic

/-!
# Integers as floating-point numbers

The number that an integer is converted to is, of all numbers of the format, the nearest to it; of two
equally near it is the one whose last bit is zero. `FloatFormat.Nearest` says so of a pattern by the numbers
that the patterns stand for, and `nearest_ofInt` shows that rounding finds it.

Between two neighbouring multiples of the last place lies no number of the format (`outside_unit`): a
significand that is too short for the integer is too short for anything between them. So only these two
compete, and `roundOff` chooses the nearer (`roundOff_nearest`).
-/

namespace StackVM

/-- The number that a pattern stands for, if it is finite. -/
def FloatClass.value? : FloatClass → Option ℚ
  | .zero _ => some 0
  | .finite negative size =>
    some ((if negative then -1 else 1) * (size.significand * 2 ^ size.exponent))
  | .infinite _ => none
  | .nan => none

namespace FloatFormat

/-- The pattern stands for the number of the format that is nearest to the integer. Of two equally near it
stands for the one with an even last place, and zero has no sign. -/
structure Nearest (f : FloatFormat) (n : Int) (bits : Nat) : Prop where
  value : ∃ x, (f.decode bits).value? = some x ∧ ∀ other y, (f.decode other).value? = some y →
    |x - n| ≤ |y - n| ∧ (|x - n| = |y - n| → x ≠ y → bits % 2 = 0)
  unsigned : n = 0 → bits = 0

theorem Nearest.ne_nan {f : FloatFormat} {n : Int} {bits : Nat} (nearest : f.Nearest n bits) :
    f.decode bits ≠ .nan := by
  intro nan
  obtain ⟨x, value, -⟩ := nearest.value
  rw [nan] at value
  cases value

/-- A format has room for the exponents of 64-bit integers. -/
structure Wide (f : FloatFormat) : Prop where
  fraction_pos : 0 < f.fraction
  exponents_even : f.exponents = 2 * (f.bias + 1)
  bias_gt : 65 < f.bias

theorem wide_binary32 : Wide .binary32 := ⟨by decide, by decide, by decide⟩

theorem wide_binary64 : Wide .binary64 := ⟨by decide, by decide, by decide⟩

variable {f : FloatFormat} {n q top places : Nat} {x y : ℚ}

/-! ### The numbers of a format -/

theorem fractions_eq (f : FloatFormat) : f.fractions = 2 ^ f.fraction := rfl

theorem fractions_pos (f : FloatFormat) : 0 < f.fractions := Nat.two_pow_pos _

/-- A number that a significand of the format can be scaled to. -/
def Representable (f : FloatFormat) (y : ℚ) : Prop :=
  ∃ (s : Nat) (e : Int), s < 2 * f.fractions ∧ |y| = s * 2 ^ e

theorem representable_of_value {bits : Nat} (found : (f.decode bits).value? = some y) : f.Representable y := by
  have short : bits % f.fractions < f.fractions := Nat.mod_lt _ f.fractions_pos
  have scaled (negative : Bool) (s : Nat) (e : Int) :
      |(if negative then -1 else 1) * ((s : ℚ) * 2 ^ e)| = s * 2 ^ e := by
    have size : (0 : ℚ) ≤ s * 2 ^ e := by positivity
    cases negative <;> simp [abs_of_nonneg size]
  unfold decode at found
  simp only at found
  split at found
  · split at found <;> cases found
  · split at found
    · split at found
      · cases found
        exact ⟨0, 0, Nat.mul_pos (by decide) f.fractions_pos, by simp⟩
      · cases found
        exact ⟨bits % f.fractions, _, by omega, scaled _ _ _⟩
    · cases found
      exact ⟨f.fractions + bits % f.fractions, _, by omega, scaled _ _ _⟩

/-! ### Neighbours -/

/-- No number of the format lies between neighbouring multiples of a unit that leaves a full significand. -/
theorem outside_unit (full : f.fractions ≤ q) (number : f.Representable y) :
    |y| ≤ q * 2 ^ places ∨ (q + 1) * 2 ^ places ≤ |y| := by
  obtain ⟨s, e, short, size⟩ := number
  rw [size]
  by_contra between
  rw [not_or, not_le, not_le] at between
  obtain ⟨above, below⟩ := between
  rcases le_or_gt (places : Int) e with coarse | fine
  -- a coarser number is a multiple of the unit itself
  · obtain ⟨k, rfl⟩ := Int.le.dest coarse
    have unit : (0 : ℚ) < 2 ^ places := by positivity
    have multiple : (s : ℚ) * 2 ^ ((places : Int) + k) = (s * 2 ^ k : Nat) * 2 ^ places := by
      rw [zpow_add₀ (by norm_num), zpow_natCast, zpow_natCast]
      push_cast
      ring
    rw [multiple] at above below
    have above := lt_of_mul_lt_mul_right above unit.le
    have below := lt_of_mul_lt_mul_right below unit.le
    norm_cast at above below
    omega
  -- a finer one has too short a significand to come this far
  · have step : (2 : ℚ) ^ (e + 1) ≤ 2 ^ places := by
      rw [← zpow_natCast]
      exact zpow_le_zpow_right₀ (by norm_num) (by omega)
    have power : (0 : ℚ) < 2 ^ e := by positivity
    rw [zpow_add_one₀ (by norm_num)] at step
    have short : (s : ℚ) + 1 ≤ 2 * f.fractions := by exact_mod_cast short
    have full : (f.fractions : ℚ) ≤ q := by exact_mod_cast full
    have := calc
      (s : ℚ) * 2 ^ e < 2 * f.fractions * 2 ^ e := by
        apply mul_lt_mul_of_pos_right _ power
        linarith
      _ ≤ q * (2 ^ e * 2) := by nlinarith
      _ ≤ q * 2 ^ places := by
        apply mul_le_mul_of_nonneg_left step
        positivity
    linarith

/-- The lower of two neighbours is nearest to what lies in its half. -/
theorem nearest_below {a b z m : ℚ} (above : a ≤ m) (half : m - a ≤ b - m) (outside : z ≤ a ∨ b ≤ z) :
    |a - m| ≤ |z - m| ∧ (|a - m| = |z - m| → a ≠ z → m - a = b - m) := by
  rw [abs_sub_comm a, abs_of_nonneg (sub_nonneg.2 above)]
  rcases outside with below | beyond
  · rw [abs_sub_comm z, abs_of_nonneg (by linarith)]
    refine ⟨by linarith, fun same other => absurd ?_ other⟩
    linarith
  · rw [abs_of_nonneg (by linarith)]
    refine ⟨by linarith, fun same _ => ?_⟩
    linarith

/-- The upper of two neighbours is nearest to what lies in its half. -/
theorem nearest_above {a b z m : ℚ} (below : m ≤ b) (half : b - m ≤ m - a) (outside : z ≤ a ∨ b ≤ z) :
    |b - m| ≤ |z - m| ∧ (|b - m| = |z - m| → b ≠ z → m - a = b - m) := by
  rw [abs_of_nonneg (sub_nonneg.2 below)]
  rcases outside with lower | beyond
  · rw [abs_sub_comm z, abs_of_nonneg (by linarith)]
    refine ⟨by linarith, fun same _ => ?_⟩
    linarith
  · rw [abs_of_nonneg (by linarith)]
    refine ⟨by linarith, fun same other => absurd ?_ other⟩
    linarith

/-- Rounding off leaves the nearest multiple of the unit, and of two the even one. -/
theorem roundOff_nearest (full : f.fractions ≤ n / 2 ^ places) (number : f.Representable y) :
    |(roundOff n places * 2 ^ places : ℚ) - n| ≤ |(|y| - n)| ∧
      (|(roundOff n places * 2 ^ places : ℚ) - n| = |(|y| - n)| →
        (roundOff n places * 2 ^ places : ℚ) ≠ |y| → roundOff n places % 2 = 0) := by
  have outside := @outside_unit f (n / 2 ^ places) places y full number
  have split : (n : ℚ) = (n / 2 ^ places : Nat) * 2 ^ places + (n % 2 ^ places : Nat) := by
    exact_mod_cast (Nat.div_add_mod' n (2 ^ places)).symm
  have rest : n % 2 ^ places < 2 ^ places := Nat.mod_lt _ (Nat.two_pow_pos _)
  have rest' : ((n % 2 ^ places : Nat) : ℚ) < 2 ^ places := by exact_mod_cast rest
  have rest_nonneg : (0 : ℚ) ≤ (n % 2 ^ places : Nat) := Nat.cast_nonneg _
  have unfolded : roundOff n places =
      if 2 * (n % 2 ^ places) < 2 ^ places ∨ 2 * (n % 2 ^ places) = 2 ^ places ∧ n / 2 ^ places % 2 = 0 then
        n / 2 ^ places
      else n / 2 ^ places + 1 := by
    unfold roundOff
    simp
  -- a tie of the neighbours is a tie of the rest with what is missing
  have tie (same : (n : ℚ) - (n / 2 ^ places : Nat) * 2 ^ places =
      ((n / 2 ^ places : Nat) + 1) * 2 ^ places - n) : 2 * (n % 2 ^ places) = 2 ^ places := by
    have : 2 * ((n % 2 ^ places : Nat) : ℚ) = 2 ^ places := by linarith
    exact_mod_cast this
  rw [unfolded]
  split
  · next low =>
    have half : 2 * ((n % 2 ^ places : Nat) : ℚ) ≤ 2 ^ places := by
      have : 2 * (n % 2 ^ places) ≤ 2 ^ places := by omega
      exact_mod_cast this
    obtain ⟨nearest, tied⟩ := @nearest_below _ _ _ (n : ℚ) (by linarith) (by linarith) outside
    refine ⟨nearest, fun same other => ?_⟩
    have := tie (tied same other)
    omega
  · next high =>
    have half : (2 : ℚ) ^ places ≤ 2 * (n % 2 ^ places : Nat) := by
      have : 2 ^ places ≤ 2 * (n % 2 ^ places) := by omega
      exact_mod_cast this
    obtain ⟨nearest, tied⟩ := @nearest_above _ _ _ (n : ℚ) (by linarith) (by linarith) outside
    push_cast
    refine ⟨nearest, fun same other => ?_⟩
    have := tie (tied same other)
    omega

/-! ### Patterns -/

/-- A pattern is decoded to the fields that it is put together of. -/
theorem decode_fields {sign biased t : Nat} (bit : sign < 2) (normal : 0 < biased)
    (finite : biased + 1 < f.exponents) (short : t < f.fractions) :
    (f.decode (sign * (f.fractions * f.exponents) + (biased * f.fractions + t))).value? =
      some ((if sign = 1 then -1 else 1) *
        (((f.fractions + t : Nat) : ℚ) * 2 ^ (f.minExponent + (biased - 1 : Nat)))) := by
  have fractions_pos := f.fractions_pos
  have exponents_pos : 0 < f.exponents := by omega
  have below : biased * f.fractions + t < f.fractions * f.exponents := by
    calc
      biased * f.fractions + t < (biased + 1) * f.fractions := by rw [Nat.succ_mul]; omega
      _ ≤ f.exponents * f.fractions := Nat.mul_le_mul_right _ (by omega)
      _ = f.fractions * f.exponents := Nat.mul_comm _ _
  have upper : (sign * (f.fractions * f.exponents) + (biased * f.fractions + t)) / (f.fractions * f.exponents) =
      sign := by
    rw [Nat.mul_comm sign, Nat.mul_add_div (by positivity), Nat.div_eq_of_lt below, Nat.add_zero]
  have joined : sign * (f.fractions * f.exponents) + (biased * f.fractions + t) =
      t + f.fractions * (biased + f.exponents * sign) := by ring
  have lower : (sign * (f.fractions * f.exponents) + (biased * f.fractions + t)) % f.fractions = t := by
    rw [joined, Nat.add_mul_mod_self_left, Nat.mod_eq_of_lt short]
  have middle : (sign * (f.fractions * f.exponents) + (biased * f.fractions + t)) / f.fractions % f.exponents =
      biased := by
    rw [joined, Nat.add_mul_div_left _ _ fractions_pos, Nat.div_eq_of_lt short, Nat.zero_add,
      Nat.add_mul_mod_self_left, Nat.mod_eq_of_lt (by omega)]
  unfold decode
  simp only [upper, lower, middle]
  rw [if_neg (by omega), if_neg (by omega)]
  have signs : (sign % 2 == 1) = decide (sign = 1) := by
    rw [Nat.mod_eq_of_lt bit]
    rfl
  simp [FloatClass.value?, signs]

/-- The significand may fill its place, or have been rounded up to the next power of two. -/
theorem decode_significand {sign b s : Nat} (bit : sign < 2) (room : b + 3 < f.exponents)
    (low : f.fractions ≤ s) (high : s ≤ 2 * f.fractions) :
    (f.decode (sign * (f.fractions * f.exponents) + (b * f.fractions + s))).value? =
      some ((if sign = 1 then -1 else 1) * ((s : ℚ) * 2 ^ (f.minExponent + b))) := by
  have pos := f.fractions_pos
  rcases Nat.lt_or_eq_of_le high with short | rfl
  · have fields : b * f.fractions + s = (b + 1) * f.fractions + (s - f.fractions) := by
      rw [Nat.succ_mul]
      omega
    rw [fields, decode_fields bit (by omega) (by omega) (by omega), Nat.add_sub_cancel' low,
      Nat.add_sub_cancel]
  · have fields : b * f.fractions + 2 * f.fractions = (b + 2) * f.fractions + 0 := by ring
    have next : f.minExponent + ((b + 2 - 1 : Nat) : Int) = f.minExponent + b + 1 := by omega
    rw [fields, decode_fields bit (by omega) (by omega) pos, next, zpow_add_one₀ (by norm_num)]
    push_cast
    congr 2
    ring

/-! ### Integers -/

/-- The last place of a number whose highest bit is `top`. -/
theorem exponent_top (wide : f.Wide) (top : Nat) :
    f.minExponent + (f.bias + top - 1 : Nat) = (top : Int) - f.fraction := by
  have := wide.exponents_even
  have := wide.bias_gt
  unfold minExponent
  omega

/-- The significand of a number fills its place, and stands for what is nearest to the number. -/
theorem significandOf_nearest (nonzero : n ≠ 0) :
    f.fractions ≤ f.significandOf n n.log2 ∧ f.significandOf n n.log2 ≤ 2 * f.fractions ∧
      ∀ y, f.Representable y →
        |(f.significandOf n n.log2 * 2 ^ ((n.log2 : Int) - f.fraction) : ℚ) - n| ≤ |(|y| - n)| ∧
          (|(f.significandOf n n.log2 * 2 ^ ((n.log2 : Int) - f.fraction) : ℚ) - n| = |(|y| - n)| →
            (f.significandOf n n.log2 * 2 ^ ((n.log2 : Int) - f.fraction) : ℚ) ≠ |y| →
              f.significandOf n n.log2 % 2 = 0) := by
  have lower : 2 ^ n.log2 ≤ n := Nat.log2_self_le nonzero
  have upper : n < 2 ^ (n.log2 + 1) := Nat.lt_log2_self
  generalize n.log2 = top at lower upper ⊢
  unfold significandOf
  split
  · next exact =>
    obtain ⟨missing, total⟩ := Nat.exists_eq_add_of_le exact
    have power : f.fractions = 2 ^ top * 2 ^ missing := by rw [fractions_eq, total, Nat.pow_add]
    have places : f.fraction - top = missing := by omega
    have exponent : (top : Int) - f.fraction = -(missing : Int) := by omega
    have number : ((n * Nat.pow 2 (f.fraction - top) : Nat) : ℚ) * 2 ^ ((top : Int) - f.fraction) = n := by
      rw [places, exponent, Nat.pow_eq, Nat.cast_mul, Nat.cast_pow, Nat.cast_ofNat, zpow_neg, zpow_natCast,
        mul_assoc, mul_inv_cancel₀ (by positivity), mul_one]
    refine ⟨?_, ?_, fun y number' => ?_⟩
    · rw [power, places]
      exact Nat.mul_le_mul_right _ lower
    · rw [power, places, ← Nat.mul_assoc, ← Nat.pow_succ']
      exact Nat.mul_le_mul_right _ upper.le
    · rw [number, sub_self, abs_zero]
      refine ⟨abs_nonneg _, fun same other => absurd ?_ other⟩
      exact (sub_eq_zero.1 (abs_eq_zero.1 same.symm)).symm
  · next rounded =>
    obtain ⟨places, total⟩ := Nat.exists_eq_add_of_le (Nat.le_of_not_le rounded)
    have power : 2 ^ top = f.fractions * 2 ^ places := by rw [fractions_eq, total, Nat.pow_add]
    have dropped : top - f.fraction = places := by omega
    have exponent : (top : Int) - f.fraction = places := by omega
    have full : f.fractions ≤ n / 2 ^ places := by
      rw [Nat.le_div_iff_mul_le (Nat.two_pow_pos _), ← power]
      exact lower
    have short : n / 2 ^ places < 2 * f.fractions := by
      rw [Nat.div_lt_iff_lt_mul (Nat.two_pow_pos _), Nat.mul_assoc, ← power, ← Nat.pow_succ']
      exact upper
    have near : roundOff n places = n / 2 ^ places ∨ roundOff n places = n / 2 ^ places + 1 := by
      unfold roundOff
      simp only
      split
      · exact .inl rfl
      · exact .inr rfl
    rw [dropped, exponent, zpow_natCast]
    refine ⟨by omega, by omega, fun y number => roundOff_nearest full number⟩

/-- What is nearest in size is nearest, with the sign of the integer. -/
theorem nearest_of_size {n : Int} {bits : Nat} {size : ℚ} (nonzero : n ≠ 0) (pos : 0 < size)
    (value : (f.decode bits).value? = some ((if n < 0 then -1 else 1) * size))
    (nearest : ∀ y, f.Representable y → |size - n.natAbs| ≤ |(|y| - n.natAbs)| ∧
      (|size - n.natAbs| = |(|y| - n.natAbs)| → size ≠ |y| → bits % 2 = 0)) : f.Nearest n bits := by
  obtain ⟨sign, unit, signed, value⟩ : ∃ sign : ℚ, (sign = 1 ∨ sign = -1) ∧ (n : ℚ) = sign * n.natAbs ∧
      (f.decode bits).value? = some (sign * size) := by
    rcases lt_or_ge n 0 with negative | natural
    · refine ⟨-1, .inr rfl, ?_, by rw [value, if_pos negative]⟩
      rw [Nat.cast_natAbs, abs_of_neg negative]
      push_cast
      ring
    · refine ⟨1, .inl rfl, ?_, by rw [value, if_neg (by omega)]⟩
      rw [Nat.cast_natAbs, abs_of_nonneg natural, one_mul]
  have magnitude : (0 : ℚ) < n.natAbs := by
    have : 0 < n.natAbs := by omega
    exact_mod_cast this
  -- the sign of the integer can be taken away from all the numbers
  have turned (z : ℚ) : |z - n| = |sign * z - n.natAbs| := by
    rw [signed]
    rcases unit with rfl | rfl
    · simp
    · rw [← abs_neg]
      congr 1
      ring
  have involutive (z : ℚ) : sign * (sign * z) = z := by
    rcases unit with rfl | rfl <;> ring
  have sizes (z : ℚ) : |sign * z| = |z| := by
    rcases unit with rfl | rfl <;> simp
  refine ⟨⟨sign * size, value, fun other y found => ?_⟩, fun zero => absurd zero nonzero⟩
  obtain ⟨least, even⟩ := nearest y (representable_of_value found)
  rw [turned, turned, involutive]
  have toward : |(|y| - n.natAbs)| ≤ |sign * y - n.natAbs| := by
    have := abs_abs_sub_abs_le (sign * y) n.natAbs
    rwa [sizes, abs_of_pos magnitude] at this
  refine ⟨least.trans toward, fun same other => even (le_antisymm least (same ▸ toward)) fun alike => other ?_⟩
  -- the opposite number is not as near
  rcases abs_choice (sign * y) with natural | opposite
  · rw [alike, ← sizes, natural, involutive]
  · have opposite : sign * y = -size := by rw [alike, ← sizes y, opposite, neg_neg]
    have : |(-size) - (n.natAbs : ℚ)| = size + n.natAbs := by
      rw [← neg_add', abs_neg, abs_of_pos (by positivity)]
    rw [opposite, this, abs_eq (by positivity)] at same
    rcases same with same | same <;> linarith

/-- Zero has the pattern zero. -/
theorem nearest_zero (wide : f.Wide) : f.Nearest 0 (f.ofInt 0) := by
  have exponents_even := wide.exponents_even
  have bias_gt := wide.bias_gt
  have pattern : f.ofInt 0 = 0 := rfl
  have denotes : (f.decode 0).value? = some 0 := by
    unfold decode
    simp only [Nat.zero_mod, Nat.zero_div]
    rw [if_neg (by omega), if_pos trivial, if_pos trivial]
    rfl
  rw [pattern]
  exact ⟨⟨0, denotes, fun _ y _ => ⟨by simp, fun _ _ => rfl⟩⟩, fun _ => rfl⟩

/-- What the pattern of an integer is put together of. -/
theorem ofInt_eq {n : Int} (nonzero : n ≠ 0) :
    f.ofInt n = (if n < 0 then 1 else 0) * (f.fractions * f.exponents) +
      ((f.bias + n.natAbs.log2 - 1) * f.fractions + f.significandOf n.natAbs n.natAbs.log2) := by
  unfold ofInt ofNat
  rw [if_neg (Int.natAbs_ne_zero.2 nonzero)]
  split <;> simp

/-- An integer of 64 bits leaves room above its exponent. -/
theorem exponent_room (wide : f.Wide) {n : Int} (nonzero : n ≠ 0) (small : n.natAbs < 2 ^ 64) :
    f.bias + n.natAbs.log2 - 1 + 3 < f.exponents := by
  have exponents_even := wide.exponents_even
  have bias_gt := wide.bias_gt
  have top : n.natAbs.log2 < 64 := (Nat.log2_lt (Int.natAbs_ne_zero.2 nonzero)).2 small
  omega

/-- The last bit of the significand is the last bit of the pattern. -/
theorem ofInt_parity (wide : f.Wide) {n : Int} (nonzero : n ≠ 0) :
    f.ofInt n % 2 = f.significandOf n.natAbs n.natAbs.log2 % 2 := by
  have even : f.fractions % 2 = 0 := by
    obtain ⟨k, some_fraction⟩ := Nat.exists_eq_add_of_lt wide.fraction_pos
    rw [fractions_eq, some_fraction, Nat.pow_succ]
    omega
  rw [ofInt_eq nonzero, Nat.add_mod, Nat.mul_mod, Nat.mul_mod f.fractions, even]
  simp [Nat.add_mod, Nat.mul_mod, even]

/-- The pattern of an integer of 64 bits stands for the number that is nearest to it. -/
theorem nearest_ofInt (wide : f.Wide) {n : Int} (small : n.natAbs < 2 ^ 64) : f.Nearest n (f.ofInt n) := by
  by_cases zero : n = 0
  · subst zero
    exact nearest_zero wide
  obtain ⟨low, high, nearest⟩ := @significandOf_nearest f _ (Int.natAbs_ne_zero.2 zero)
  have room := exponent_room wide zero small
  have value := @decode_significand f (if n < 0 then 1 else 0) (f.bias + n.natAbs.log2 - 1)
    (f.significandOf n.natAbs n.natAbs.log2) (by split <;> decide) room low high
  rw [← ofInt_eq zero, exponent_top wide] at value
  have size : (0 : ℚ) < f.significandOf n.natAbs n.natAbs.log2 * 2 ^ ((n.natAbs.log2 : Int) - f.fraction) := by
    have : 0 < f.significandOf n.natAbs n.natAbs.log2 := Nat.lt_of_lt_of_le f.fractions_pos low
    positivity
  refine nearest_of_size zero size ?_ fun y number => ?_
  · rw [value]
    by_cases negative : n < 0 <;> simp [negative]
  · rw [ofInt_parity wide zero]
    exact nearest y number

/-- The pattern of an integer of 64 bits has no more bits than the format. -/
theorem ofInt_lt (wide : f.Wide) {n : Int} (small : n.natAbs < 2 ^ 64) :
    f.ofInt n < 2 * (f.fractions * f.exponents) := by
  have exponents_pos : 0 < f.exponents := by
    have := wide.exponents_even
    omega
  by_cases zero : n = 0
  · subst zero
    exact Nat.mul_pos (by decide) (Nat.mul_pos f.fractions_pos exponents_pos)
  obtain ⟨-, high, -⟩ := @significandOf_nearest f _ (Int.natAbs_ne_zero.2 zero)
  have room := exponent_room wide zero small
  have unsigned : (f.bias + n.natAbs.log2 - 1) * f.fractions + f.significandOf n.natAbs n.natAbs.log2 <
      f.fractions * f.exponents := by
    calc
      _ ≤ (f.bias + n.natAbs.log2 - 1) * f.fractions + 2 * f.fractions := Nat.add_le_add_left high _
      _ = f.fractions * (f.bias + n.natAbs.log2 - 1 + 2) := by ring
      _ < f.fractions * f.exponents := Nat.mul_lt_mul_of_pos_left (by omega) f.fractions_pos
  have signed : (if n < 0 then 1 else 0) * (f.fractions * f.exponents) ≤ f.fractions * f.exponents := by
    split <;> simp
  rw [ofInt_eq zero]
  omega

end FloatFormat

/-- An integer of 64 bits becomes the nearest single-precision number. -/
theorem Binary32.nearest_ofInt {n : Int} (small : n.natAbs < 2 ^ 64) :
    FloatFormat.binary32.Nearest n (Binary32.ofInt n).bits.toNat := by
  have fits : FloatFormat.binary32.ofInt n < 2 ^ 32 := FloatFormat.ofInt_lt FloatFormat.wide_binary32 small
  rw [Binary32.ofInt, BitVec.toNat_ofNat, Nat.mod_eq_of_lt fits]
  exact FloatFormat.nearest_ofInt FloatFormat.wide_binary32 small

/-- An integer of 64 bits becomes the nearest double-precision number. -/
theorem Binary64.nearest_ofInt {n : Int} (small : n.natAbs < 2 ^ 64) :
    FloatFormat.binary64.Nearest n (Binary64.ofInt n).bits.toNat := by
  have fits : FloatFormat.binary64.ofInt n < 2 ^ 64 := FloatFormat.ofInt_lt FloatFormat.wide_binary64 small
  rw [Binary64.ofInt, BitVec.toNat_ofNat, Nat.mod_eq_of_lt fits]
  exact FloatFormat.nearest_ofInt FloatFormat.wide_binary64 small

/-- Rounded to single precision, 2²⁴ + 1 is a tie between 2²⁴ and 2²⁴ + 2. -/
example : (Binary32.ofInt 16777217).bits = (Binary32.ofInt 16777216).bits := by decide +kernel

end StackVM
