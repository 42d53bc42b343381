import StackVM.Decimal.Shortest

/-!
# Text of floating-point numbers

Both texts use the shortest digits. `FloatStyle.listing` is the one in code listings and dumps:
a whole number keeps `.0`, and very large and very small numbers use an exponent. `FloatStyle.plain`
is the one in results: always positional, and a whole number has no point.
-/

namespace StackVM

/-- How the digits of a number are laid out. -/
structure FloatStyle where
  /-- Exponents of the leading digit that are written without an exponent mark. -/
  positional : Int → Bool
  /-- Whether a whole number written positionally ends in `.0`. -/
  keepsPoint : Bool

/-- Positional from `0.0001` up to below `1e16`. -/
def FloatStyle.listing : FloatStyle := ⟨fun e => -4 ≤ e && e ≤ 15, true⟩

/-- Positional at every size. -/
def FloatStyle.plain : FloatStyle := ⟨fun _ => true, false⟩

namespace FloatStyle

/-- Lays out digits whose first has exponent `lead`. -/
def layOut (s : FloatStyle) (digits : List Char) (lead : Int) : List Char :=
  if s.positional lead then
    if lead < 0 then
      '0' :: '.' :: List.replicate (-lead - 1).toNat '0' ++ digits
    else
      let whole := lead.toNat + 1
      if digits.length ≤ whole then
        digits ++ List.replicate (whole - digits.length) '0' ++
          (if s.keepsPoint then ['.', '0'] else [])
      else
        digits.take whole ++ '.' :: digits.drop whole
  else
    let mark := 'e' :: (toString lead).toList
    match digits with
    | first :: second :: rest => first :: '.' :: second :: rest ++ mark
    | _ => digits ++ mark

/-- The text of a number. Zero has a sign, NaN has none. -/
def write (s : FloatStyle) : FloatClass → String
  | .nan => "NaN"
  | .infinite negative => sign negative ++ "inf"
  | .zero negative => sign negative ++ if s.keepsPoint then "0.0" else "0"
  | .finite negative size =>
    let (digits, lead) := size.shortest.leading
    sign negative ++ String.ofList (s.layOut digits lead)
where
  sign (negative : Bool) : String := if negative then "-" else ""

end FloatStyle

end StackVM
