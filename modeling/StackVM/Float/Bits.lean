/-!
# Floating-point numbers as bit patterns

Numbers of the two interchange formats are kept as their bits, so that loading, storing and copying
lose nothing. `Format.decode` splits a pattern into sign, significand and exponent.
-/

namespace StackVM

/-- A single-precision number. -/
structure Binary32 where
  bits : BitVec 32
deriving DecidableEq, Repr, Inhabited

/-- A double-precision number. -/
structure Binary64 where
  bits : BitVec 64
deriving DecidableEq, Repr, Inhabited

/-- Field widths of a binary interchange format. -/
structure FloatFormat where
  /-- Bits of the stored fraction. -/
  fraction : Nat
  /-- Bits of the biased exponent. -/
  exponent : Nat
deriving DecidableEq, Repr

def FloatFormat.binary32 : FloatFormat := ⟨23, 8⟩

def FloatFormat.binary64 : FloatFormat := ⟨52, 11⟩

/-- The size of a finite non-zero number: `significand * 2 ^ exponent`. -/
structure Magnitude where
  significand : Nat
  exponent : Int
  /-- Whether the next smaller number is only half as far away as the next larger one. -/
  closerBelow : Bool
deriving DecidableEq, Repr

/-- What a bit pattern denotes. -/
inductive FloatClass where
  | nan
  | infinite (negative : Bool)
  | zero (negative : Bool)
  | finite (negative : Bool) (size : Magnitude)
deriving DecidableEq, Repr

namespace FloatFormat

/-- The number of different stored fractions. -/
def fractions (f : FloatFormat) : Nat := Nat.pow 2 f.fraction

/-- The number of different stored exponents. -/
def exponents (f : FloatFormat) : Nat := Nat.pow 2 f.exponent

/-- The exponent that belongs to the last place of the smallest numbers. -/
def minExponent (f : FloatFormat) : Int := 2 - (f.exponents / 2 : Nat) - (f.fraction : Nat)

/-- What is added to the exponent of a number when it is stored. -/
def bias (f : FloatFormat) : Nat := f.exponents / 2 - 1

/-- Splits a pattern into its fields. A stored exponent of zero marks the numbers without a leading
one bit, and a stored exponent of all ones marks infinities and NaNs. -/
def decode (f : FloatFormat) (bits : Nat) : FloatClass :=
  let fraction := bits % f.fractions
  let biased := bits / f.fractions % f.exponents
  let negative := bits / (f.fractions * f.exponents) % 2 == 1
  if biased + 1 = f.exponents then
    if fraction = 0 then .infinite negative else .nan
  else if biased = 0 then
    if fraction = 0 then .zero negative else .finite negative ⟨fraction, f.minExponent, false⟩
  else
    .finite negative
      ⟨f.fractions + fraction, f.minExponent + (biased - 1 : Nat), fraction == 0 && biased != 1⟩

/-! ### Integers -/

/-- Drops the lowest `places` bits of a number and rounds to nearest; of two neighbours equally near, it takes
the even one. -/
def roundOff (n places : Nat) : Nat :=
  let unit := Nat.pow 2 places
  let low := n / unit
  let rest := n % unit
  if 2 * rest < unit || (2 * rest == unit && low % 2 == 0) then low else low + 1

/-- The significand of a positive number whose highest bit is `top`, in units of its last place. -/
def significandOf (f : FloatFormat) (n top : Nat) : Nat :=
  if top ≤ f.fraction then n * Nat.pow 2 (f.fraction - top) else roundOff n (top - f.fraction)

/-- The pattern of a number that is not too large for the format, without a sign. A significand that was
rounded up to the next power of two carries into the exponent. -/
def ofNat (f : FloatFormat) (n : Nat) : Nat :=
  if n = 0 then 0
  else (f.bias + n.log2 - 1) * f.fractions + f.significandOf n n.log2

/-- The pattern of an integer, rounded to nearest. -/
def ofInt (f : FloatFormat) (n : Int) : Nat :=
  (if n < 0 then f.fractions * f.exponents else 0) + f.ofNat n.natAbs

end FloatFormat

def Binary32.decode (x : Binary32) : FloatClass := FloatFormat.binary32.decode x.bits.toNat

def Binary64.decode (x : Binary64) : FloatClass := FloatFormat.binary64.decode x.bits.toNat

def Binary32.isNaN (x : Binary32) : Bool := x.decode == .nan

def Binary64.isNaN (x : Binary64) : Bool := x.decode == .nan

end StackVM
