import StackVM.Diagnostic

/-!
# Diagnostics on a terminal

A diagnostic is laid out as a list of spans of text, some of them in a style. Writing the spans plainly
drops the styles; writing them in colour puts escape sequences around the styled ones.
-/

namespace StackVM

inductive Style where
  | bold | boldRed | cyan | dim
deriving DecidableEq, Repr

/-- The parameters of the escape sequence that switches the style on. -/
def Style.parameters : Style → String
  | .bold => "1"
  | .boldRed => "1;31"
  | .cyan => "36"
  | .dim => "2"

/-- A piece of text in at most one style. -/
structure Span where
  style : Option Style
  text : String
deriving DecidableEq, Repr

namespace Span

def write (colour : Bool) (s : Span) : String :=
  match s.style with
  | some style => if colour then "\x1b[" ++ style.parameters ++ "m" ++ s.text ++ "\x1b[0m" else s.text
  | none => s.text

def writeAll (colour : Bool) (spans : List Span) : String := String.join (spans.map (write colour))

end Span

namespace Diagnostic

def plain (text : String) : Span := ⟨none, text⟩

def styled (style : Style) (text : String) : Span := ⟨some style, text⟩

/-- Copies of a character. -/
def repeated (n : Nat) (c : Char) : String := String.ofList (List.replicate n c)

def header (d : Diagnostic) : List Span :=
  let code := match d.code with
    | some code => "[" ++ code ++ "]"
    | none => ""
  [styled .boldRed "error", plain (code ++ ": "), styled .bold d.message, plain "\n"]

/-- The instruction at an offset, with carets under each of its bytes. -/
def snippet (l : Label) (instruction : String) : List Span :=
  let offset := toString l.offset
  let margin := [plain (repeated offset.length ' ' ++ " "), styled .cyan "|"]
  let carets := styled .boldRed (repeated (max instruction.utf8ByteSize 1) '^')
  let remark := if l.message.isEmpty then [] else [plain " ", styled .boldRed l.message]
  margin ++ [plain "\n"] ++
    [styled .cyan offset, plain " ", styled .cyan "|", plain (" " ++ instruction ++ "\n")] ++
    margin ++ [plain " ", carets] ++ remark ++ [plain "\n"] ++
    margin ++ [plain "\n"]

def labelSpans (d : Diagnostic) (l : Label) : List Span :=
  [plain "  ", styled .cyan "-->", plain (" offset " ++ toString l.offset ++ "\n")] ++
    match d.instruction? l with
    | some instruction => snippet l instruction
    | none => []

/-- A line below the labels. -/
def remark (title text : String) : List Span :=
  [plain "  ", styled .dim "=", plain (" " ++ title ++ ": " ++ text ++ "\n")]

def spans (d : Diagnostic) : List Span :=
  d.header ++ d.labels.flatMap d.labelSpans ++ d.notes.flatMap (remark "note") ++
    d.suggestion.toList.flatMap (remark "suggestion")

/-- The diagnostic as it is shown on a terminal. -/
def text (colour : Bool) (d : Diagnostic) : String := Span.writeAll colour d.spans

end Diagnostic

end StackVM
