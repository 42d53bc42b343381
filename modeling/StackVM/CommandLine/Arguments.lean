/-!
# Arguments

What the words of a command line ask for. A word of two dashes and a name is an option, which may carry
a value after an equals sign. A word of one dash and letters is a group of short options. Any other word
is an operand, a lone dash and the empty word included, and after a word of two dashes alone every word
is one. The verb is the first operand; each option is given at most once before it and at most once
after it.
-/

namespace StackVM

namespace CommandLine

inductive Command where
  | disasm (file : String)
  | cfg (file : String)
  | verify (file : String)
  /-- Runs code under the options of a file, after verifying it if asked for. -/
  | run (file : String) (verifies : Bool) (options : Option String)
  | explain (code : String)
  | version
deriving DecidableEq, Repr

structure Invocation where
  /-- Whether failures are told as JSON. -/
  json : Bool
  command : Command
deriving DecidableEq, Repr

/-- The files that a command reads. -/
def Command.files : Command → List String
  | .disasm file | .cfg file | .verify file => [file]
  | .run file _ options => options.toList ++ [file]
  | .explain _ | .version => []

/-! ### Words -/

/-- The form of a word. -/
inductive Argument where
  | option (name : String) (value : Option String)
  /-- A group of short options, by its first letter: no group needs a second one. -/
  | letter (first : Char)
  /-- Two dashes alone. -/
  | separator
  | operand (text : String)
deriving DecidableEq, Repr

def Argument.ofString (s : String) : Argument :=
  match s.toList with
  | ['-', '-'] => .separator
  | '-' :: '-' :: cs =>
    .option (String.ofList (cs.takeWhile (· != '=')))
      ((cs.dropWhile (· != '=')).tail?.map String.ofList)
  | '-' :: first :: _ => .letter first
  | _ => .operand s

/-! ### Words after the verb -/

inductive Verb where
  | disasm | cfg | verify | run | explain
deriving DecidableEq, Repr

def Verb.ofName? : String → Option Verb
  | "disasm" => some .disasm
  | "cfg" => some .cfg
  | "verify" => some .verify
  | "run" => some .run
  | "explain" => some .explain
  | _ => none

/-- What the next word may be. -/
inductive Expected where
  | anything
  /-- The value of an option that was given without one. -/
  | optionsFile
  | operands
deriving DecidableEq, Repr

/-- The words after a verb, sorted by their role. -/
structure Arguments where
  json : Bool := false
  noVerify : Bool := false
  options : Option String := none
  operand : Option String := none
  expected : Expected := .anything
deriving DecidableEq, Repr

namespace Arguments

/-- Adds the operand, of which there is one. -/
def addOperand? (a : Arguments) (text : String) : Option Arguments :=
  if a.operand.isNone then some { a with operand := some text } else none

/-- Adds an option that the verb knows and that was not given before. -/
def addOption? (verb : Verb) (a : Arguments) : String → Option String → Option Arguments
  | "json", none => if a.json then none else some { a with json := true }
  | "no-verify", none =>
    if verb = .run ∧ a.noVerify = false then some { a with noVerify := true } else none
  | "options", value =>
    if verb = .run ∧ a.options = none then
      match value with
      | some file => some { a with options := some file }
      | none => some { a with expected := .optionsFile }
    else
      none
  | _, _ => none

/-- Adds a word; `none` if it has no place. -/
def add? (verb : Verb) (a : Arguments) (word : String) : Option Arguments :=
  match a.expected, Argument.ofString word with
  | .operands, _ => a.addOperand? word
  | .optionsFile, .operand file => some { a with options := some file, expected := .anything }
  | .optionsFile, _ => none
  | .anything, .operand text => a.addOperand? text
  | .anything, .separator => some { a with expected := .operands }
  | .anything, .letter _ => none
  | .anything, .option name value => a.addOption? verb name value

/-- A file has a name that is not empty. -/
def fileName? (name : String) : Option String := if name = "" then none else some name

/-- The command that a verb and its words ask for. -/
def command? (verb : Verb) (a : Arguments) : Option Command := do
  if a.expected = .optionsFile then none
  let operand ← a.operand
  match verb with
  | .disasm => return .disasm (← fileName? operand)
  | .cfg => return .cfg (← fileName? operand)
  | .verify => return .verify (← fileName? operand)
  | .run =>
    let options ← match a.options with
      | none => some none
      | some name => (fileName? name).map some
    return .run (← fileName? operand) (!a.noVerify) options
  | .explain => return .explain operand

end Arguments

/-! ### All words -/

namespace Invocation

/-- Reads words; `json` says whether that option was given before. Asking for the version settles the
invocation whatever follows. -/
def parseAfter? (json : Bool) : List String → Option Invocation
  | [] => none
  | word :: rest =>
    match Argument.ofString word with
    | .option "json" none => if json then none else parseAfter? true rest
    | .option "version" none | .letter 'V' => some ⟨json, .version⟩
    | .operand name => do
      let verb ← Verb.ofName? name
      let a ← rest.foldlM (Arguments.add? verb) {}
      return ⟨json || a.json, ← a.command? verb⟩
    | _ => none

/-- The invocation that the words of a command line ask for. -/
def parse? (words : List String) : Option Invocation := parseAfter? false words

end Invocation

end CommandLine

end StackVM
