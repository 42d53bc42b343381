import StackVM.Code

/-!
# Diagnostics

What a user is told about a failure: a message, the places in the code that it concerns, notes and a
suggestion. Diagnostics are made from errors or built up part by part.
-/

namespace StackVM

/-- Points at the instruction that starts at `offset`. -/
structure Label where
  offset : Nat
  message : String
deriving DecidableEq, Repr

structure Diagnostic where
  /-- The code under which the failure is explained. -/
  code : Option String := none
  message : String
  labels : List Label := []
  notes : List String := []
  suggestion : Option String := none
  /-- The code that the labels point into. -/
  source : Option Code := none
deriving DecidableEq, Repr

namespace Diagnostic

def withCode (d : Diagnostic) (code : String) : Diagnostic := { d with code := some code }

def withLabel (d : Diagnostic) (offset : Nat) (message : String) : Diagnostic :=
  { d with labels := d.labels ++ [⟨offset, message⟩] }

def withNote (d : Diagnostic) (note : String) : Diagnostic := { d with notes := d.notes ++ [note] }

def withSuggestion (d : Diagnostic) (suggestion : String) : Diagnostic :=
  { d with suggestion := some suggestion }

def withSource (d : Diagnostic) (source : Code) : Diagnostic := { d with source := some source }

/-- What may help against a cause. -/
def hint? : Cause → Option String
  | .stackUnderflow => some "check that every path pushes the operands this instruction pops"
  | .segmentationFault => some "check the index against the table it reads from"
  | .invalidJump => some "displacements are relative to the instruction after the branch"
  | .divideByZero => some "test the divisor with i32.eqz or i64.eqz before dividing"
  | _ => none

/-- Tells an error: its place is a label, its block a note. -/
def ofError (e : Error) : Diagnostic where
  code := some e.cause.code
  message := e.cause.message
  labels := (e.offset.map fun offset => ⟨offset, "here"⟩).toList
  notes := (e.block.map fun block => "in basic block " ++ toString block).toList
  suggestion := hint? e.cause

/-- The instruction that a label points at, if the code is known and one starts there. -/
def instruction? (d : Diagnostic) (l : Label) : Option String :=
  d.source.bind fun code => code.line? l.offset

end Diagnostic

end StackVM
