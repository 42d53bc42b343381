import StackVM.CommandLine.Arguments
import StackVM.CommandLine.Files
import StackVM.Diagnostic.Explanation
import StackVM.Diagnostic.Json
import StackVM.Diagnostic.Terminal
import StackVM.Flow
import StackVM.Machine.Step
import StackVM.Options.Reader
import StackVM.Verifier

/-!
# The command line

Inspects, verifies and runs files of code. Everything but reading the files is decided here: a command
gives what it prints, or a failure that is told as a diagnostic.
-/

namespace StackVM

namespace CommandLine

/-- What an invocation prints, and the status it ends with. -/
structure Output where
  status : Nat
  stdout : String := ""
  stderr : String := ""
deriving DecidableEq, Repr

/-- Why a command fails. -/
inductive Failure where
  | message (text : String)
  /-- An error in code. -/
  | error (e : Error) (code : Code)
deriving DecidableEq, Repr

def Failure.diagnostic : Failure → Diagnostic
  | .message text => { message := text }
  | .error e code => (Diagnostic.ofError e).withSource code

def readCode (files : Files) (file : String) : Except Failure Code :=
  match files file with
  | .ok code => .ok code
  | .error reason => .error (.message ("cannot read " ++ file ++ ": " ++ reason.message))

def readOptions (files : Files) : Option String → Except Failure Options
  | none => .ok {}
  | some file =>
    match files file >>= decodeText with
    | .error reason => .error (.message ("cannot read " ++ file ++ ": " ++ reason.message))
    | .ok text =>
      match Options.read text with
      | .ok options => .ok options
      | .error fault => .error (.message ("invalid options in " ++ file ++ ": " ++ fault.message))

def verified (program : Program) (options : Options) : Except Failure Unit :=
  match Verifier.verify (.new program options) with
  | .ok () _ => .ok ()
  | .error e _ => .error (.error e program.code)

/-- A value left on the stack. Strings and integers are shown also where they live on the heap. -/
def valueText (m : Machine) (v : Value) : String :=
  match m.string? v, m.int64? v with
  | some s, _ => "string " ++ Text.quoted s
  | none, some n => (Value.i64 n).text
  | none, none => v.text

/-- Runs a program, with fuel for that many instructions, and shows the stack that is left. -/
def runProgram (fuel : Nat) (program : Program) (options : Options) : Except Failure String :=
  match Exec.run fuel (.load program options) with
  | .ok () m => .ok (String.join (m.stack.reverse.map fun v => valueText m v ++ "\n"))
  | .error (.fault e) _ => .error (.error e program.code)
  | .error .exhausted _ => .error (.message "out of fuel")

/-- What the command prints. -/
def Command.execute (fuel : Nat) (files : Files) : Command → Except Failure String
  | .disasm file => do return (← readCode files file).listing
  | .cfg file => do
    let code ← readCode files file
    match Graph.build code with
    | .ok graph => return graph.text
    | .error e => throw (.error e code)
  | .verify file => do
    verified (.ofCode (← readCode files file)) {}
    return "ok\n"
  | .run file verifies options => do
    let options ← readOptions files options
    let program := Program.ofCode (← readCode files file)
    if verifies then verified program options
    runProgram fuel program options
  | .explain code =>
    match Explanation.find? code with
    | some e => .ok e.text
    | none => .error (.message ("unknown error code '" ++ code ++ "'"))
  | .version => .ok "nbvm 0.1.0\n"

/-- Executes the command and tells a failure, in colour if standard error is a terminal. -/
def Invocation.execute (fuel : Nat) (files : Files) (colour : Bool) (i : Invocation) : Output :=
  match i.command.execute fuel files with
  | .ok stdout => { status := 0, stdout }
  | .error failure =>
    let d := failure.diagnostic
    { status := 1, stderr := if i.json then d.json ++ "\n" else d.text colour }

def usage : String :=
  "Usage: nbvm [--json] <disasm|cfg|verify|run|explain> <file|code>\n"

/-- The files that the arguments name. -/
def filesOf (args : List String) : List String :=
  ((Invocation.parse? args).map fun i => i.command.files).getD []

/-- What the program does with its arguments. -/
def respond (fuel : Nat) (files : Files) (colour : Bool) (args : List String) : Output :=
  match Invocation.parse? args with
  | some i => i.execute fuel files colour
  | none => { status := 2, stderr := usage }

end CommandLine

end StackVM
