/-!
# Kinds of values

A stack slot holds a number of one of four scalar kinds or a reference to the heap. The kind decides
how many bytes a value takes in memory and which instructions accept it.
-/

namespace StackVM

/-- The four kinds of numbers. -/
inductive Scalar where
  | i32 | i64 | f32 | f64
deriving DecidableEq, Repr, Inhabited

/-- What a slot holds: a number or a heap reference. -/
inductive Kind where
  | scalar (s : Scalar)
  | ref
deriving DecidableEq, Repr, Inhabited

def Scalar.all : List Scalar := [.i32, .i64, .f32, .f64]

def Scalar.text : Scalar → String
  | .i32 => "i32"
  | .i64 => "i64"
  | .f32 => "f32"
  | .f64 => "f64"

/-- Bytes that a number takes in memory and in code. -/
def Scalar.width : Scalar → Nat
  | .i32 | .f32 => 4
  | .i64 | .f64 => 8

def Kind.all : List Kind := Scalar.all.map .scalar ++ [.ref]

def Kind.text : Kind → String
  | .scalar s => s.text
  | .ref => "ref"

/-- Bytes that a value takes in memory; an address takes eight. -/
def Kind.width : Kind → Nat
  | .scalar s => s.width
  | .ref => 8

theorem Kind.width_pos (k : Kind) : 0 < k.width := by
  cases k with
  | scalar s => cases s <;> decide
  | ref => decide

end StackVM
