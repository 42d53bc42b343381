import StackVM.Json.Token
import StackVM.Options
import StackVM.Text.Quoted

/-!
# Reading options

Options are written as a JSON object in which every option may stand once and other members are ignored,
or as a JSON array of at most five sizes in the order of `Options.names`. A size is an integer of 64
bits written with digits only. The reader is an automaton over tokens. Ignored values may nest to any
depth: the open brackets are kept in a list.
-/

namespace StackVM

namespace Options

/-- Why a text gives no options. -/
inductive Misreading where
  | flaw (f : Json.Flaw)
  /-- A value of the wrong form. -/
  | wrongType (found expected : String)
  /-- A number that is out of range. -/
  | wrongValue (found expected : String)
  | duplicate (name : String)
deriving DecidableEq, Repr

/-- A misreading and the place where it became clear. -/
structure Fault where
  reason : Misreading
  position : Json.Position
deriving DecidableEq, Repr

def Misreading.message : Misreading → String
  | .flaw f => f.message
  | .wrongType found expected => "invalid type: " ++ found ++ ", expected " ++ expected
  | .wrongValue found expected => "invalid value: " ++ found ++ ", expected " ++ expected
  | .duplicate name => "duplicate field `" ++ name ++ "`"

def Fault.message (f : Fault) : String :=
  f.reason.message ++ " at line " ++ toString f.position.line ++ " column " ++
    toString f.position.column

/-- An open bracket inside an ignored value. -/
inductive Frame where
  | list | object
deriving DecidableEq, Repr

/-- What comes next inside an ignored value. -/
inductive Slot where
  | value
  /-- The first item or member, or the closing bracket. -/
  | first
  | key
  | colon
  /-- A comma or the closing bracket. -/
  | next
deriving DecidableEq, Repr

/-- What the reader expects next. -/
inductive Expected where
  | document
  /-- The size for the option at a place of the list form. -/
  | item (place : Nat)
  | itemEnd (place : Nat)
  /-- The name of a member; only the first may be missing. -/
  | key (first : Bool)
  /-- The colon after the name of an option, or of a member to be ignored. -/
  | colon (place : Option Nat)
  | size (place : Nat)
  | memberEnd
  /-- Something inside an ignored value with the given open brackets, the innermost first. -/
  | ignored (nesting : List Frame) (slot : Slot)
  | nothing
deriving DecidableEq, Repr

structure Reader where
  options : Options := {}
  /-- Places of the options that were given. -/
  given : List Nat := []
  expected : Expected := .document
deriving DecidableEq, Repr

namespace Reader

/-- A flaw that shows at the head of a token. -/
def flaw {α : Type} (t : Json.Token) (f : Json.Flaw) : Except Fault α := .error ⟨.flaw f, t.head⟩

/-- Sizes are smaller than this, two to the power of 64. -/
def sizeLimit : Nat := 0x10000000000000000

/-- A value that is not of the form asked for. -/
def misfit {α : Type} (t : Json.Token) (expected : String) : Except Fault α :=
  match t.lexeme with
  | .null => .error ⟨.wrongType "null" expected, t.stop⟩
  | .bool b => .error ⟨.wrongType ("boolean `" ++ (if b then "true" else "false") ++ "`") expected, t.stop⟩
  | .number n =>
    if n.integral && n.negative && n.whole != 0 && n.whole ≤ sizeLimit / 2 then
      .error ⟨.wrongValue ("integer `" ++ n.literal ++ "`") expected, t.stop⟩
    else
      .error ⟨.wrongType ("floating point `" ++ n.literal ++ "`") expected, t.stop⟩
  | .string points =>
    match Json.decode? points with
    | some cs => .error ⟨.wrongType ("string " ++ Text.quoted (String.ofList cs)) expected, t.stop⟩
    | none => .error ⟨.flaw .loneSurrogate, t.stop⟩
  | .mark '[' => .error ⟨.wrongType "sequence" expected, t.start⟩
  | .mark '\x7b' => .error ⟨.wrongType "map" expected, t.start⟩
  | .mark _ => flaw t .expectedValue
  | .flawed f => .error ⟨.flaw f, t.stop⟩

/-- Takes a token as a size. -/
def sizeOf (t : Json.Token) : Except Fault Nat :=
  match t.lexeme with
  | .number n =>
    if n.integral && !n.negative && n.whole < sizeLimit then .ok n.whole else misfit t "usize"
  | _ => misfit t "usize"

/-- Takes a token as the name of a member: the place of the option with that name, if there is one. -/
def placeOf (given : List Nat) (t : Json.Token) : Except Fault (Option Nat) :=
  match t.lexeme with
  | .string points =>
    match Json.decode? points with
    | none => .error ⟨.flaw .loneSurrogate, t.stop⟩
    | some cs =>
      let name := String.ofList cs
      match names.idxOf? name with
      | some place =>
        if given.contains place then .error ⟨.duplicate name, t.stop⟩ else .ok (some place)
      | none => .ok none
  | .flawed f => .error ⟨.flaw f, t.stop⟩
  | _ => flaw t .keyNotString

/-! ### Ignored values -/

/-- After an ignored value inside the given brackets. -/
def closed : List Frame → Expected
  | [] => .memberEnd
  | nesting => .ignored nesting .next

/-- Takes a token as an ignored value or its opening bracket. -/
def ignoreValue (nesting : List Frame) (t : Json.Token) : Except Fault Expected :=
  match t.lexeme with
  | .mark '[' => .ok (.ignored (.list :: nesting) .first)
  | .mark '\x7b' => .ok (.ignored (.object :: nesting) .first)
  | .mark _ => flaw t .expectedValue
  | .flawed f => .error ⟨.flaw f, t.stop⟩
  | _ => .ok (closed nesting)

def ignoreKey (nesting : List Frame) (t : Json.Token) : Except Fault Expected :=
  match t.lexeme with
  | .string _ => .ok (.ignored nesting .colon)
  | .flawed f => .error ⟨.flaw f, t.stop⟩
  | _ => flaw t .keyNotString

/-- Takes a token inside an ignored value. -/
def ignore (nesting : List Frame) (slot : Slot) (t : Json.Token) : Except Fault Expected :=
  match slot, nesting with
  | .value, nesting => ignoreValue nesting t
  | .key, nesting => ignoreKey nesting t
  | .colon, nesting =>
    if t.lexeme = .mark ':' then .ok (.ignored nesting .value) else flaw t .expectedColon
  | .first, .list :: outer =>
    if t.lexeme = .mark ']' then .ok (closed outer) else ignoreValue nesting t
  | .first, .object :: outer =>
    if t.lexeme = .mark '\x7d' then .ok (closed outer) else ignoreKey nesting t
  | .next, .list :: outer =>
    if t.lexeme = .mark ',' then .ok (.ignored nesting .value)
    else if t.lexeme = .mark ']' then .ok (closed outer)
    else flaw t .expectedListComma
  | .next, .object :: outer =>
    if t.lexeme = .mark ',' then .ok (.ignored nesting .key)
    else if t.lexeme = .mark '\x7d' then .ok (closed outer)
    else flaw t .expectedObjectComma
  | .first, [] | .next, [] => flaw t .expectedValue

/-! ### The automaton -/

/-- Sets the option at a place to the size that a token denotes. -/
def setSize (r : Reader) (place : Nat) (t : Json.Token) (expected : Expected) : Except Fault Reader := do
  let n ← sizeOf t
  return { options := r.options.set place n, given := place :: r.given, expected }

/-- Takes the next token. -/
def step (r : Reader) (t : Json.Token) : Except Fault Reader :=
  let expect (expected : Expected) : Except Fault Reader := .ok { r with expected }
  match r.expected with
  | .document =>
    if t.lexeme = .mark '[' then expect (.item 0)
    else if t.lexeme = .mark '\x7b' then expect (.key true)
    else misfit t "struct Options"
  | .item place =>
    if t.lexeme = .mark ']' then
      if place = 0 then expect .nothing else flaw t .trailingComma
    else if place < names.length then r.setSize place t (.itemEnd (place + 1))
    else flaw t .trailingCharacters
  | .itemEnd place =>
    if t.lexeme = .mark ']' then expect .nothing
    else if t.lexeme = .mark ',' then expect (.item place)
    else flaw t .expectedListComma
  | .key first =>
    if t.lexeme = .mark '\x7d' then
      if first then expect .nothing else flaw t .trailingComma
    else
      match placeOf r.given t with
      | .ok place => expect (.colon place)
      | .error fault => .error fault
  | .colon place =>
    if t.lexeme = .mark ':' then
      match place with
      | some place => expect (.size place)
      | none => expect (.ignored [] .value)
    else
      flaw t .expectedColon
  | .size place => r.setSize place t .memberEnd
  | .memberEnd =>
    if t.lexeme = .mark '\x7d' then expect .nothing
    else if t.lexeme = .mark ',' then expect (.key false)
    else flaw t .expectedObjectComma
  | .ignored nesting slot =>
    match ignore nesting slot t with
    | .ok expected => expect expected
    | .error fault => .error fault
  | .nothing => flaw t .trailingCharacters

/-- What is missing if the text ends here. -/
def missing? : Expected → Option Json.Flaw
  | .nothing => none
  | .document | .size _ | .key false | .ignored _ .value => some .endInValue
  | .item place => some (if place = 0 then .endInList else .endInValue)
  | .itemEnd _ | .ignored (.list :: _) _ => some .endInList
  | .key true | .colon _ | .memberEnd | .ignored _ _ => some .endInObject

/-- Ends the text at a place. -/
def finish (r : Reader) (position : Json.Position) : Except Fault Options :=
  match missing? r.expected with
  | none => .ok r.options
  | some f => .error ⟨.flaw f, position⟩

end Reader

/-- The options that a text gives; those that it does not mention have their defaults. -/
def read (text : String) : Except Fault Options := do
  let (tokens, stop) := Json.tokens text
  let r ← tokens.foldlM Reader.step {}
  r.finish stop

end Options

end StackVM
