import StackVM.Diagnostic
import StackVM.Json.Text

/-!
# Diagnostics as JSON

One object on one line. Members stand in alphabetical order, and those that have no value are left out.
-/

namespace StackVM

namespace Diagnostic

/-- A member whose value may be missing. -/
def member? (key : String) (value : Option String) : List (String × String) :=
  (value.map fun v => (key, Json.string v)).toList

def labelJson (d : Diagnostic) (l : Label) : String :=
  Json.object <|
    member? "instruction" (d.instruction? l) ++
      [("message", Json.string l.message), ("offset", toString l.offset)]

def json (d : Diagnostic) : String :=
  Json.object <|
    member? "code" d.code ++
      [("labels", Json.array (d.labels.map d.labelJson)), ("message", Json.string d.message),
        ("notes", Json.array (d.notes.map Json.string)), ("severity", Json.string "error")] ++
      member? "suggestion" d.suggestion

end Diagnostic

end StackVM
