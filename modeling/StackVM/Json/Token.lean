/-!
# Tokens of JSON

A JSON text is cut into marks, strings and bare words by an automaton that takes one character at a time.
A bare word is a number or one of three names. Cutting stops at the first flaw, which becomes the last
token, so that a flaw shows only if nothing is wrong before it.
-/

namespace StackVM.Json

/-- A place between two characters of a text: lines count from one, columns are bytes. -/
structure Position where
  line : Nat := 1
  column : Nat := 0
deriving DecidableEq, Repr

/-- The place after a character. -/
def Position.after (p : Position) (c : Char) : Position :=
  if c = '\n' then ⟨p.line + 1, 0⟩ else ⟨p.line, p.column + c.utf8Size⟩

/-- What makes a text no JSON. -/
inductive Flaw where
  | endInValue | endInList | endInObject | endInString
  | expectedValue | expectedName | expectedColon | expectedListComma | expectedObjectComma
  | keyNotString | trailingComma | trailingCharacters
  | badNumber | badEscape | controlCharacter | loneSurrogate
deriving DecidableEq, Repr

def Flaw.message : Flaw → String
  | .endInValue => "EOF while parsing a value"
  | .endInList => "EOF while parsing a list"
  | .endInObject => "EOF while parsing an object"
  | .endInString => "EOF while parsing a string"
  | .expectedValue => "expected value"
  | .expectedName => "expected ident"
  | .expectedColon => "expected `:`"
  | .expectedListComma => "expected `,` or `]`"
  | .expectedObjectComma => "expected `,` or `\x7d`"
  | .keyNotString => "key must be a string"
  | .trailingComma => "trailing comma"
  | .trailingCharacters => "trailing characters"
  | .badNumber => "invalid number"
  | .badEscape => "invalid escape"
  | .controlCharacter => "control character (\\u0000-\\u001F) found while parsing a string"
  | .loneSurrogate => "lone leading surrogate in hex escape"

/-- A number as it is written. -/
structure Numeral where
  negative : Bool
  /-- The digits before the point. -/
  whole : Nat
  /-- Whether there is neither a point nor an exponent. -/
  integral : Bool
  literal : String
deriving DecidableEq, Repr

inductive Lexeme where
  /-- One of `[ ] , :` and the braces. -/
  | mark (c : Char)
  /-- A string, as code points; an escape may also give half of a surrogate pair. -/
  | string (points : List Nat)
  | number (n : Numeral)
  | null
  | bool (b : Bool)
  | flawed (f : Flaw)
deriving DecidableEq, Repr

structure Token where
  lexeme : Lexeme
  start : Position
  stop : Position
deriving DecidableEq, Repr

/-- The place after the first byte of the token. -/
def Token.head (t : Token) : Position := ⟨t.start.line, t.start.column + 1⟩

/-! ### Numbers -/

/-- The digits at the head of a text, and the rest. -/
def digits (cs : List Char) : List Char × List Char :=
  (cs.takeWhile Char.isDigit, cs.dropWhile Char.isDigit)

def ofDigits (cs : List Char) : Nat := cs.foldl (fun n c => 10 * n + (c.toNat - '0'.toNat)) 0

/-- Whether the text is empty or an exponent. -/
def isExponent : List Char → Bool
  | [] => true
  | c :: cs =>
    (c == 'e' || c == 'E') &&
      let unsigned := match cs with
        | '+' :: rest | '-' :: rest => rest
        | rest => rest
      !unsigned.isEmpty && unsigned.all Char.isDigit

/-- Whether the text is what may follow the digits before the point. -/
def isFraction : List Char → Bool
  | '.' :: cs =>
    let (fraction, rest) := digits cs
    !fraction.isEmpty && isExponent rest
  | cs => isExponent cs

/-- The number that a bare word denotes. A leading zero stands alone. -/
def numeral? (word : List Char) : Option Numeral :=
  let (negative, unsigned) := match word with
    | '-' :: rest => (true, rest)
    | rest => (false, rest)
  let (whole, rest) := digits unsigned
  let plain := !whole.isEmpty && (whole.head? != some '0' || whole.length == 1)
  if plain && isFraction rest then
    some ⟨negative, ofDigits whole, rest.isEmpty, String.ofList word⟩
  else
    none

def bareLexeme (word : List Char) : Lexeme :=
  if word = "null".toList then .null
  else if word = "true".toList then .bool true
  else if word = "false".toList then .bool false
  else
    match numeral? word with
    | some n => .number n
    | none =>
      match word with
      | c :: _ =>
        if c == '-' || c.isDigit then .flawed .badNumber
        else if c == 'n' || c == 't' || c == 'f' then .flawed .expectedName
        else .flawed .expectedValue
      | [] => .flawed .expectedValue

/-! ### Strings -/

/-- The character that a one-letter escape stands for. -/
def escaped? : Char → Option Char
  | '"' => some '"'
  | '\\' => some '\\'
  | '/' => some '/'
  | 'b' => some '\x08'
  | 'f' => some '\x0c'
  | 'n' => some '\n'
  | 'r' => some '\r'
  | 't' => some '\t'
  | _ => none

def hexDigit? (c : Char) : Option Nat :=
  if c.isDigit then some (c.toNat - '0'.toNat)
  else if 'a' ≤ c ∧ c ≤ 'f' then some (c.toNat - 'a'.toNat + 10)
  else if 'A' ≤ c ∧ c ≤ 'F' then some (c.toNat - 'A'.toNat + 10)
  else none

def isHighSurrogate (n : Nat) : Bool := 0xD800 ≤ n && n ≤ 0xDBFF

def isLowSurrogate (n : Nat) : Bool := 0xDC00 ≤ n && n ≤ 0xDFFF

/-- The text of code points in which every surrogate has its partner. -/
def decode? : List Nat → Option (List Char)
  | [] => some []
  | [n] => if isHighSurrogate n || isLowSurrogate n then none else some [Char.ofNat n]
  | n :: m :: rest =>
    if isHighSurrogate n then
      if isLowSurrogate m then
        (decode? rest).map (Char.ofNat (0x10000 + (n - 0xD800) * 0x400 + (m - 0xDC00)) :: ·)
      else
        none
    else if isLowSurrogate n then none
    else (decode? (m :: rest)).map (Char.ofNat n :: ·)

/-! ### The automaton -/

/-- What the characters so far leave open. -/
inductive Mode where
  | between
  /-- In a bare word; its characters, the last first. -/
  | bare (start : Position) (word : List Char)
  /-- In a string; its code points, the last first. -/
  | string (start : Position) (points : List Nat)
  /-- After a backslash in a string. -/
  | escape (start : Position) (points : List Nat)
  /-- In an escaped number of four digits, of which `left` are still to come. -/
  | hex (start : Position) (points : List Nat) (value left : Nat)
  /-- After a flaw. -/
  | stopped
deriving DecidableEq, Repr

def isBlank (c : Char) : Bool := c == ' ' || c == '\n' || c == '\t' || c == '\r'

def isMark (c : Char) : Bool := ['[', ']', '\x7b', '\x7d', ',', ':'].contains c

/-- The state of the automaton: tokens so far, the last first, and the place reached. -/
structure Lexer where
  tokens : List Token := []
  mode : Mode := .between
  position : Position := {}

namespace Lexer

/-- Adds a token that ends here. -/
def emit (l : Lexer) (lexeme : Lexeme) (start : Position) : Lexer :=
  { l with tokens := ⟨lexeme, start, l.position⟩ :: l.tokens, mode := .between }

def stop (l : Lexer) (flaw : Flaw) (start : Position) : Lexer :=
  { l.emit (.flawed flaw) start with mode := .stopped }

/-- Ends a bare word, if the lexer is in one. -/
def closeWord (l : Lexer) : Lexer :=
  match l.mode with
  | .bare start word => l.emit (bareLexeme word.reverse) start
  | _ => l

/-- Takes a character outside of strings. -/
def between (l : Lexer) (c : Char) : Lexer :=
  if isBlank c || isMark c || c == '"' then
    let l := l.closeWord
    let start := l.position
    let l := { l with position := start.after c }
    if isMark c then l.emit (.mark c) start
    else if c == '"' then { l with mode := .string start [] }
    else l
  else
    let mode := match l.mode with
      | .bare start word => Mode.bare start (c :: word)
      | _ => .bare l.position [c]
    { l with mode, position := l.position.after c }

/-- Takes the next character. -/
def step (l : Lexer) (c : Char) : Lexer :=
  let position := l.position.after c
  match l.mode with
  | .stopped => l
  | .between | .bare _ _ => l.between c
  | .string start points =>
    if c == '"' then { l with position }.emit (.string points.reverse) start
    else if c == '\\' then { l with position, mode := .escape start points }
    else if c.toNat < 0x20 then l.stop .controlCharacter start
    else { l with position, mode := .string start (c.toNat :: points) }
  | .escape start points =>
    let l := { l with position }
    if c == 'u' then { l with mode := .hex start points 0 4 }
    else
      match escaped? c with
      | some c' => { l with mode := .string start (c'.toNat :: points) }
      | none => l.stop .badEscape start
  | .hex start points value left =>
    let l := { l with position }
    match hexDigit? c with
    | none => l.stop .badEscape start
    | some d =>
      let value := 16 * value + d
      if left ≤ 1 then { l with mode := .string start (value :: points) }
      else { l with mode := .hex start points value (left - 1) }

/-- Ends the text. -/
def finish (l : Lexer) : Lexer :=
  match l.mode with
  | .string start _ | .escape start _ | .hex start _ _ _ => l.stop .endInString start
  | _ => l.closeWord

end Lexer

/-- The tokens of a text, and the place where it ends. -/
def tokens (text : String) : List Token × Position :=
  let l := (text.toList.foldl Lexer.step {}).finish
  (l.tokens.reverse, l.position)

end StackVM.Json
