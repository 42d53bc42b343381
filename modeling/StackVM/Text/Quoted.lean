import StackVM.Text.Glyph

/-!
# Quoted text

Text between double quotes, as dumps and results show strings. Quotes and backslashes are escaped, and
so are characters that would not show: line breaks and tabs by a letter, all others by their code point.
-/

namespace StackVM.Text

/-- Hexadecimal digits of a code point. -/
def hexadecimal (n : Nat) : List Char := Nat.toDigits 16 n

/-- What stands for a character between the quotes. -/
def quoteChar (c : Char) : List Char :=
  match c with
  | '\x00' => ['\\', '0']
  | '\t' => ['\\', 't']
  | '\n' => ['\\', 'n']
  | '\r' => ['\\', 'r']
  | '"' => ['\\', '"']
  | '\\' => ['\\', '\\']
  | c =>
    if isExtender c || !isPrintable c then
      ['\\', 'u', '\x7b'] ++ hexadecimal c.toNat ++ ['\x7d']
    else
      [c]

/-- The text between double quotes. -/
def quoted (s : String) : String :=
  String.ofList ('"' :: s.toList.flatMap quoteChar ++ ['"'])

end StackVM.Text
