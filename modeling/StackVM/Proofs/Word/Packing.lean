import Mathlib.Algebra.Order.Ring.Int
import StackVM.Word

/-!
# Values in words

What a word keeps of a value, and how much it tells about it. Main statement: `words_faithful`. A packed
value has the kind that it was made from and comes back bit for bit, except that all NaN doubles come back
as the canonical one; so values of different kinds, and different values of one kind, have different words.

Tags lie above the exponent of infinity, where only NaN patterns lie (`isNaN_of_top`), and no NaN double is
stored there; a tag in the top bits and a payload below do not touch each other (`top_tagged`,
`payload_tagged`).
-/

namespace StackVM

namespace Value

/-- The value fits a word: an integer keeps its sign in the payload, an address is a payload. -/
def Packable : Value → Prop
  | .i64 n => fitsPayload n = true
  | .ref a => a < 2 ^ payloadBits
  | _ => True

/-- The integers that fit are those that come back from their low bits by extending the sign. -/
theorem fitsPayload_iff {n : BitVec 64} :
    fitsPayload n = true ↔ (n.setWidth payloadBits).signExtend 64 = n := by
  -- on the side of integers, the low bits with their sign are a remainder around zero
  have extended : ((n.setWidth payloadBits).signExtend 64).toInt = (n.toNat : Int).bmod (2 ^ 49) := by
    rw [BitVec.toInt_signExtend_of_le (by decide), BitVec.toInt_setWidth]
    rfl
  have bound : payloadBound = 2 ^ 48 := rfl
  have range := n.isLt
  rw [← BitVec.toInt_inj, extended, BitVec.toInt_eq_toNat_cond, Int.bmod_def]
  simp only [fitsPayload, bound, BitVec.toInt_eq_toNat_cond, Bool.and_eq_true, decide_eq_true_eq]
  omega

end Value

namespace Word

variable {tag payload : Nat} {n : BitVec 64} {x : Binary64} {v v' : Value}

/-! ### Tags and payloads -/

theorem payloadSize_eq : payloadSize = 2 ^ 49 := rfl

theorem toNat_tagged (tagBits : tag < 2 ^ 15) :
    (tagged tag payload).bits.toNat = tag * 2 ^ 49 + payload % 2 ^ 49 := by
  simp only [tagged, payloadSize_eq, BitVec.toNat_ofNat]
  omega

theorem top_tagged (tagBits : tag < 2 ^ 15) : (tagged tag payload).top = tag := by
  rw [top, toNat_tagged tagBits, payloadSize_eq]
  omega

theorem payload_tagged (tagBits : tag < 2 ^ 15) :
    (tagged tag payload).payload = BitVec.ofNat 49 payload := by
  apply BitVec.eq_of_toNat_eq
  rw [Word.payload, toNat_tagged tagBits, BitVec.toNat_ofNat, BitVec.toNat_ofNat]
  omega

/-- A word with the tag of a kind is of that kind. -/
theorem kind_of_top {w : Word} {k : Kind} (marked : Word.tag k = some w.top) : w.kind = k := by
  unfold Word.tag at marked
  split at marked
  · simp [kind, ← Option.some.inj marked, tagBase]
  · simp [kind, ← Option.some.inj marked, tagBase]
  · simp [kind, ← Option.some.inj marked, tagBase]
  · cases marked
  · simp [kind, ← Option.some.inj marked, tagBase]

/-- Above the exponent of infinity there are only NaN patterns, and of these the positive ones bear tags. -/
theorem isNaN_of_top (above : tagBase < (⟨x.bits⟩ : Word).top) (below : (⟨x.bits⟩ : Word).top < tagBase + 8) :
    x.isNaN = true := by
  simp only [top, payloadSize_eq, tagBase] at above below
  have exponent : x.bits.toNat / 2 ^ 52 % 2 ^ 11 + 1 = 2 ^ 11 := by omega
  have fraction : x.bits.toNat % 2 ^ 52 ≠ 0 := by omega
  have fractions : FloatFormat.binary64.fractions = 2 ^ 52 := rfl
  have exponents : FloatFormat.binary64.exponents = 2 ^ 11 := rfl
  simp only [Binary64.isNaN, Binary64.decode, FloatFormat.decode, fractions, exponents, if_pos exponent,
    if_neg fraction]
  rfl

/-! ### Each kind of value -/

theorem i32_ofI32 (n : BitVec 32) : (ofI32 n).i32 = n := by
  rw [i32, ofI32, payload_tagged (by decide), BitVec.ofNat_toNat]
  -- the sign was extended beyond the payload and is cut off again
  apply BitVec.eq_of_getLsbD_eq
  intro i inside
  simp only [BitVec.getLsbD_setWidth, BitVec.getLsbD_signExtend, inside, if_true, decide_true,
    Bool.true_and]
  rw [decide_eq_true (by omega : i < 49), decide_eq_true (by omega : i < 64), Bool.true_and, Bool.true_and]

theorem i64_ofI64 (n : BitVec 64) : (ofI64 n).i64 = (n.setWidth Value.payloadBits).signExtend 64 := by
  rw [i64, ofI64, payload_tagged (by decide), BitVec.ofNat_toNat]
  rfl

theorem f32_ofF32 (x : Binary32) : (ofF32 x).f32 = x := by
  have back : (BitVec.ofNat 49 x.bits.toNat).setWidth 32 = x.bits := by
    rw [BitVec.ofNat_toNat, BitVec.setWidth_setWidth_of_le _ (by decide), BitVec.setWidth_eq]
  rw [f32, ofF32, payload_tagged (by decide), back]

theorem address_ofAddress {a : Nat} (fits : a < 2 ^ Value.payloadBits) : (ofAddress a).address = a := by
  rw [address, ofAddress, payload_tagged (by decide), BitVec.toNat_ofNat]
  exact Nat.mod_eq_of_lt fits

theorem kind_ofF64 (x : Binary64) : (ofF64 x).kind = .scalar .f64 := by
  by_cases nan : x.isNaN = true
  · rw [ofF64, if_pos nan]
    rfl
  · -- every other pattern stays outside the tags
    have outside (above : tagBase < (⟨x.bits⟩ : Word).top) : tagBase + 8 ≤ (⟨x.bits⟩ : Word).top :=
      Nat.le_of_not_lt fun below => nan (isNaN_of_top above below)
    rw [ofF64, if_neg nan, kind]
    iterate 4 rw [if_neg (by omega)]

theorem f64_ofF64 (x : Binary64) : (ofF64 x).f64 = if x.isNaN then ⟨canonicalNaN⟩ else x := by
  unfold ofF64 f64
  split
  · rfl
  · rfl

/-! ### All kinds -/

/-- A word is of the kind of the value that it was made from. -/
theorem kind_ofValue (v : Value) : (ofValue v).kind = v.kind := by
  cases v with
  | i32 n => exact kind_of_top (by rw [ofValue, ofI32, top_tagged (by decide)]; rfl)
  | i64 n => exact kind_of_top (by rw [ofValue, ofI64, top_tagged (by decide)]; rfl)
  | f32 x => exact kind_of_top (by rw [ofValue, ofF32, top_tagged (by decide)]; rfl)
  | f64 x => exact kind_ofF64 x
  | ref a => exact kind_of_top (by rw [ofValue, ofAddress, top_tagged (by decide)]; rfl)

/-- A word stands for the value that it was made from. -/
theorem value_ofValue (packable : v.Packable) : (ofValue v).value = v.canonical := by
  rw [value, kind_ofValue]
  cases v with
  | i32 n => exact congrArg Value.i32 (i32_ofI32 n)
  | i64 n => exact congrArg Value.i64 ((i64_ofI64 n).trans (Value.fitsPayload_iff.1 packable))
  | f32 x => exact congrArg Value.f32 (f32_ofF32 x)
  | f64 x => exact congrArg Value.f64 (f64_ofF64 x)
  | ref a => exact congrArg Value.ref (address_ofAddress packable)

theorem ofValue_canonical (v : Value) : ofValue v.canonical = ofValue v := by
  cases v with
  | f64 x =>
    by_cases nan : x.isNaN = true
    -- the canonical NaN is a NaN
    · rw [Value.canonical, if_pos nan, ofValue, ofValue, ofF64, ofF64, if_pos nan]
      rfl
    · rw [Value.canonical, if_neg nan]
  | _ => rfl

/-- Values have the same word if nothing that a word keeps tells them apart. -/
theorem ofValue_eq_iff (packable : v.Packable) (packable' : v'.Packable) :
    ofValue v = ofValue v' ↔ v.canonical = v'.canonical := by
  constructor
  · intro same
    rw [← value_ofValue packable, ← value_ofValue packable', same]
  · intro same
    rw [← ofValue_canonical v, ← ofValue_canonical v', same]

/-- A packed value has the kind that it was made from, and the accessor of that kind gives it back, bit for
bit but for NaN doubles, which all come back as the canonical one. No two values of different kinds have the
same word, and two values of one kind only if they are equal or both NaN doubles. The integers that are
packed as they are, are exactly those that the payload keeps with their sign. -/
theorem words_faithful :
    (∀ n, (ofI32 n).kind = .scalar .i32 ∧ (ofI32 n).i32 = n) ∧
    (∀ n, Value.fitsPayload n = true → (ofI64 n).kind = .scalar .i64 ∧ (ofI64 n).i64 = n) ∧
    (∀ x, (ofF32 x).kind = .scalar .f32 ∧ (ofF32 x).f32 = x) ∧
    (∀ x, (ofF64 x).kind = .scalar .f64 ∧ (ofF64 x).f64 = if x.isNaN then ⟨canonicalNaN⟩ else x) ∧
    (∀ a, a < 2 ^ 49 → (ofAddress a).kind = .ref ∧ (ofAddress a).address = a) ∧
    (∀ v v' : Value, v.Packable → v'.Packable →
      (v.kind ≠ v'.kind → ofValue v ≠ ofValue v') ∧
      (ofValue v = ofValue v' ↔ v.canonical = v'.canonical)) ∧
    ∀ n, (ofI64 n).i64 = (n.setWidth 49).signExtend 64 ∧
      (Value.fitsPayload n = true ↔ (n.setWidth 49).signExtend 64 = n) := by
  refine ⟨fun n => ⟨kind_ofValue (.i32 n), i32_ofI32 n⟩, fun n fits => ⟨kind_ofValue (.i64 n), ?_⟩,
    fun x => ⟨kind_ofValue (.f32 x), f32_ofF32 x⟩, fun x => ⟨kind_ofF64 x, f64_ofF64 x⟩,
    fun a fits => ⟨kind_ofValue (.ref a), address_ofAddress fits⟩,
    fun v v' packable packable' => ⟨fun differ same => ?_, ofValue_eq_iff packable packable'⟩,
    fun n => ⟨i64_ofI64 n, Value.fitsPayload_iff⟩⟩
  · rw [i64_ofI64]
    exact Value.fitsPayload_iff.1 fits
  · rw [← kind_ofValue v, ← kind_ofValue v', same] at differ
    exact differ rfl

/-- The least integer that fits, the highest address, and a NaN double whose pattern is the word of the number
five. -/
theorem extremes_faithful :
    Value.fitsPayload (-0x1000000000000) = true ∧
      (ofI64 (-0x1000000000000)).i64 = -0x1000000000000 ∧
      0x1FFFFFFFFFFFF < 2 ^ 49 ∧ (ofAddress 0x1FFFFFFFFFFFF).address = 0x1FFFFFFFFFFFF ∧
      (Value.i32 5).Packable ∧ (Value.f64 ⟨(ofI32 5).bits⟩).Packable ∧
      (Value.i32 5).kind ≠ (Value.f64 ⟨(ofI32 5).bits⟩).kind ∧
      ofValue (.i32 5) ≠ ofValue (.f64 ⟨(ofI32 5).bits⟩) := by
  obtain ⟨-, i64, -, -, address, apart, -⟩ := words_faithful
  have fits : Value.fitsPayload (-0x1000000000000) = true := by decide
  have small : 0x1FFFFFFFFFFFF < 2 ^ 49 := by decide
  have differ : (Value.i32 5).kind ≠ (Value.f64 ⟨(ofI32 5).bits⟩).kind := by decide
  exact ⟨fits, (i64 _ fits).2, small, (address _ small).2, trivial, trivial, differ,
    (apart (.i32 5) (.f64 ⟨(ofI32 5).bits⟩) trivial trivial).1 differ⟩

end Word

end StackVM
