import StackVM.Code
import StackVM.Object
import StackVM.Word

/-!
# Programs

A program is its entry code with the constants and types that the code refers to by index. Numbers among
the constants load directly; all others become heap objects when a machine starts.
-/

namespace StackVM

inductive Constant where
  /-- A number, by its bits. -/
  | number (s : Scalar) (bits : BitVec (8 * s.width))
  | string (s : String)
  | packed (p : Packed)
  | function (f : Function)
  | host (signature : Signature) (body : List Value → Script)

namespace Constant

def ty : Constant → Ty
  | .number s _ => .scalar s
  | .string _ => .string
  | .packed p => .packed p.scalar
  | .function f => f.signature.ty
  | .host signature _ => signature.ty

/-- How a constant is loaded: as a word keeps it, or as an object on the heap. An integer that does not fit a
word goes to the heap. -/
def form : Constant → Value ⊕ Object
  | .number s bits =>
    match Value.ofRaw (.scalar s) bits.toNat with
    | .i64 n => if Value.fitsPayload n then .inl (.i64 n) else .inr (.int64 n)
    | v => .inl v.canonical
  | .string s => .inr (.string s)
  | .packed p => .inr (.packed p)
  | .function f => .inr (.function f)
  | .host signature body => .inr (.host signature body)

def isHost : Constant → Bool
  | .host _ _ => true
  | _ => false

end Constant

structure Program where
  code : Code
  constants : Array Constant
  types : Array Ty

namespace Program

def ofCode (code : Code) : Program := ⟨code, #[], #[]⟩

/-- The entry code as a function without parameters and results. -/
def entry (p : Program) : Function := ⟨⟨[], []⟩, 0, p.code⟩

/-- The entry and then every function among the constants, in order. -/
def functions (p : Program) : List Function :=
  p.entry :: p.constants.toList.filterMap fun
    | .function f => some f
    | _ => none

/-- The listing of the entry code, then of each function constant under its index and signature. -/
def text (p : Program) : String :=
  p.code.listing ++
    String.join (p.constants.toList.zipIdx.map fun
      | (.function f, i) =>
        "\nconst " ++ toString i ++ ": " ++ f.signature.text ++ " locals=" ++ toString f.locals ++
          "\n" ++ f.code.listing
      | _ => "")

end Program

end StackVM
