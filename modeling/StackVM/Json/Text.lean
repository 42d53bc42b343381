import StackVM.Text.Quoted

/-!
# Writing JSON

Compact texts: no blanks between the parts. In a string, quotes, backslashes and control characters are
escaped and everything else stands for itself.
-/

namespace StackVM.Json

/-- What stands for a character inside a string. -/
def escapeChar (c : Char) : List Char :=
  match c with
  | '"' => ['\\', '"']
  | '\\' => ['\\', '\\']
  | '\x08' => ['\\', 'b']
  | '\x0c' => ['\\', 'f']
  | '\n' => ['\\', 'n']
  | '\r' => ['\\', 'r']
  | '\t' => ['\\', 't']
  | c =>
    if c.toNat < 0x20 then
      let digits := Text.hexadecimal c.toNat
      ['\\', 'u'] ++ List.replicate (4 - digits.length) '0' ++ digits
    else
      [c]

def string (s : String) : String := String.ofList ('"' :: s.toList.flatMap escapeChar ++ ['"'])

def array (items : List String) : String := "[" ++ ",".intercalate items ++ "]"

/-- An object with the members in the given order; their values are JSON texts. -/
def object (members : List (String × String)) : String :=
  let texts := members.map fun (key, value) => string key ++ ":" ++ value
  "\x7b" ++ ",".intercalate texts ++ "\x7d"

end StackVM.Json
