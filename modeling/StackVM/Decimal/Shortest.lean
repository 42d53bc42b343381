import StackVM.Float.Bits

/-!
# Shortest decimals

The text of a floating-point number uses the fewest digits that read back as the same number. The
numbers that read back form an interval around the value, half way to each neighbour, whose ends
belong to it when the significand is even. For one, two, three, … digits the two multiples of the
last place next to the value are tried; the first that lie inside are the shortest.
-/

namespace StackVM

/-- The number `digits * 10 ^ exponent`. -/
structure Decimal where
  digits : Nat
  exponent : Int
deriving DecidableEq, Repr, Inhabited

/-- A fraction `num / den`, the exact form in which candidates are compared. -/
structure Ratio where
  num : Nat
  den : Nat
deriving Repr

namespace Ratio

/-- The fraction `n * base ^ e`. -/
def ofPower (n base : Nat) : Int → Ratio
  | .ofNat e => ⟨n * Nat.pow base e, 1⟩
  | .negSucc e => ⟨n, Nat.pow base (e + 1)⟩

def le (a b : Ratio) : Bool := a.num * b.den ≤ b.num * a.den

def lt (a b : Ratio) : Bool := a.num * b.den < b.num * a.den

def div (a b : Ratio) : Ratio := ⟨a.num * b.den, a.den * b.num⟩

def floor (a : Ratio) : Nat := a.num / a.den

end Ratio

namespace Magnitude

/-- The value in quarters of the last place, so that both ends of the interval are whole. -/
def quarters (m : Magnitude) (n : Nat) : Ratio := .ofPower n 2 (m.exponent - 2)

def value (m : Magnitude) : Ratio := m.quarters (4 * m.significand)

/-- The largest and smallest real numbers that round to the value. -/
def upper (m : Magnitude) : Ratio := m.quarters (4 * m.significand + 2)

@[inherit_doc upper]
def lower (m : Magnitude) : Ratio :=
  m.quarters (4 * m.significand - if m.closerBelow then 1 else 2)

/-- Whether a decimal reads back as the value. -/
def readsBack (m : Magnitude) (d : Decimal) : Bool :=
  let r := Ratio.ofPower d.digits 10 d.exponent
  if m.significand % 2 = 0 then m.lower.le r && r.le m.upper else m.lower.lt r && r.lt m.upper

/-- The exponent of the leading decimal digit of the value. -/
def leadingExponent (m : Magnitude) : Int :=
  let v := m.value
  if v.den ≤ v.num then
    ((Nat.toDigits 10 (v.num / v.den)).length - 1 : Nat)
  else
    match (List.range 400).find? fun j => v.den ≤ v.num * Nat.pow 10 (j + 1) with
    | some j => -((j + 1 : Nat) : Int)
    | none => -400

/-- The shorter or nearer of the two grid points around the value that read back; a tie goes up. -/
def onGrid? (m : Magnitude) (exponent : Int) : Option Decimal :=
  let below := (m.value.div (.ofPower 1 10 exponent)).floor
  let down : Decimal := ⟨below, exponent⟩
  let up : Decimal := ⟨below + 1, exponent⟩
  match m.readsBack down, m.readsBack up with
  | true, true =>
    -- The value lies below the midpoint when `2 * value < (2 * below + 1) * 10 ^ exponent`.
    if (Ratio.mk (2 * m.value.num) m.value.den).lt (.ofPower (2 * below + 1) 10 exponent) then
      some down
    else
      some up
  | true, false => some down
  | false, true => some up
  | false, false => none

/-- The decimal with the fewest digits that reads back, the nearest of those. Seventeen digits always
suffice. -/
def shortest (m : Magnitude) : Decimal :=
  let lead := m.leadingExponent
  ((List.range 17).findSome? fun n => m.onGrid? (lead - (n : Nat))).getD ⟨0, 0⟩

end Magnitude

namespace Decimal

/-- Drops final zeros of the digits, at most `fuel` of them. -/
def trimZeros : Nat → Decimal → Decimal
  | 0, d => d
  | fuel + 1, d =>
    if d.digits != 0 && d.digits % 10 == 0 then trimZeros fuel ⟨d.digits / 10, d.exponent + 1⟩ else d

/-- The digits as characters, without final zeros, and the exponent of the first of them. -/
def leading (d : Decimal) : List Char × Int :=
  let t := d.trimZeros 20
  let cs := Nat.toDigits 10 t.digits
  (cs, t.exponent + (cs.length - 1 : Nat))

end Decimal

end StackVM
