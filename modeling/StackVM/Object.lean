import StackVM.Instruction
import StackVM.Packed
import StackVM.Record
import StackVM.Text.Quoted

/-!
# Heap objects and host functions

Besides strings, arrays and structs the heap holds integers too wide for a word, functions, closures and
functions of the host. The body of a host function is a `Script`: a tree of requests to the machine that
called it, each followed by what to do with the answer. A script is data, so what the host can do to a
machine is exactly what its requests do.
-/

namespace StackVM

/-- A function in code: its locals beyond the parameters start as null. -/
structure Function where
  signature : Signature
  locals : Nat
  code : Code

mutual

/-- The contents of a heap slot. -/
inductive Object where
  /-- An integer that does not fit a word. -/
  | int64 (n : BitVec 64)
  | string (s : String)
  | packed (p : Packed)
  | array (elem : Ty) (elems : Array Value)
  | struct (r : Record)
  | function (f : Function)
  /-- A function whose first locals start as the captured values. -/
  | closure (f : Function) (captures : List Value)
  /-- A function of the host; the script depends on the arguments. -/
  | host (signature : Signature) (body : List Value → Script)

/-- What a host function does. -/
inductive Script where
  /-- Returns the results. -/
  | finish (results : List Value)
  | fail (e : Error)
  /-- Pushes a value. Like every request that may fail, it is answered with the error then. -/
  | tryPush (v : Value) (next : Except Error Unit → Script)
  /-- Pushes an integer, through the heap if it does not fit a word. -/
  | tryPushInt (n : BitVec 64) (next : Except Error Unit → Script)
  | tryPop (next : Except Error Value → Script)
  | alloc (o : Object) (next : Value → Script)
  | retain (v : Value) (next : Script)
  | release (v : Value) (next : Script)
  | getGlobal (index : Nat) (next : Option Value → Script)
  | setGlobal (index : Nat) (v : Value) (next : Script)
  /-- Asks for the integer that a value denotes. -/
  | readInt (v : Value) (next : Option (BitVec 64) → Script)
  /-- Asks for the string that a value refers to. -/
  | readString (v : Value) (next : Option String → Script)
  | reset (next : Script)
  /-- Runs the machine until its frames are used up. -/
  | tryRun (next : Except Error Unit → Script)

end

namespace Script

/-- Goes on with an answer; an error is passed on to the machine. -/
def orFail {α : Type} (next : α → Script) : Except Error α → Script
  | .ok a => next a
  | .error e => .fail e

/-! ### Requests whose errors are passed on -/

def push (v : Value) (next : Script) : Script := .tryPush v (orFail fun _ => next)

def pushInt (n : BitVec 64) (next : Script) : Script := .tryPushInt n (orFail fun _ => next)

def pop (next : Value → Script) : Script := .tryPop (orFail next)

def run (next : Script) : Script := .tryRun (orFail fun _ => next)

end Script

namespace Object

/-- The static type of the object. -/
def ty : Object → Ty
  | .int64 _ => .scalar .i64
  | .string _ => .string
  | .packed p => .packed p.scalar
  | .array elem _ => .array elem
  | .struct r => r.ty
  | .function f => f.signature.ty
  | .closure f _ => f.signature.ty
  | .host signature _ => signature.ty

/-- Addresses of the objects that this one holds, in order. -/
def children : Object → List Nat
  | .array _ elems => Value.addresses elems.toList
  | .struct r => r.addresses
  | .closure _ captures => Value.addresses captures
  | _ => []

/-! ### Elements and fields -/

/-- Number of elements of an array. -/
def length? : Object → Option Nat
  | .packed p => some p.size
  | .array _ elems => some elems.size
  | _ => none

/-- The element of an array at index `i`. -/
def element? (o : Object) (i : Nat) : Option Value :=
  match o with
  | .packed p => p.get? i
  | .array _ elems => elems[i]?
  | _ => none

/-- An array with another element at index `i`. -/
def setElement (o : Object) (i : Nat) (v : Value) : Object :=
  match o with
  | .packed p => .packed (p.set i v)
  | .array elem elems => .array elem (elems.setIfInBounds i v)
  | o => o

/-- A struct with another value in field `i`. -/
def setField (o : Object) (i : Nat) (v : Value) : Object :=
  match o with
  | .struct r => .struct (r.set i v)
  | o => o

/-! ### Text -/

/-- Texts in brackets. -/
def brackets (items : List String) : String := "[" ++ ", ".intercalate items ++ "]"

/-- A number without its kind. -/
def bare : Value → String
  | .i32 n => toString n.toInt
  | .i64 n => toString n.toInt
  | .f32 x => FloatStyle.listing.write x.decode
  | .f64 x => FloatStyle.listing.write x.decode
  | .ref a => toString a

/-- The name of a packed array in dumps. -/
def packedName : Scalar → String
  | .i32 => "I32Array"
  | .i64 => "I64Array"
  | .f32 => "F32Array"
  | .f64 => "F64Array"

/-- The form in dumps. -/
def dump : Object → String
  | .int64 n => "I64(" ++ toString n.toInt ++ ")"
  | .string s => "String(" ++ Text.quoted s ++ ")"
  | .packed p => packedName p.scalar ++ "(" ++ brackets (p.values.map bare) ++ ")"
  | .array _ elems => "Array(" ++ brackets (elems.toList.map Value.dump) ++ ")"
  | .struct r => "Struct(" ++ r.ty.text ++ ")"
  | .function f => "Function(" ++ f.signature.text ++ ")"
  | .closure f captures =>
    "Closure(" ++ f.signature.text ++ ", " ++ brackets (captures.map Value.dump) ++ ")"
  | .host signature _ => "NativeFunction(" ++ signature.text ++ ")"

end Object

end StackVM
