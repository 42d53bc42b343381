import StackVM.Kind

/-!
# Static types

The types that the verifier tracks and that heap layouts use. `ref` is the type of a reference about
which nothing more is known; it is compatible with every reference type in both directions.
-/

namespace StackVM

inductive Ty where
  | scalar (s : Scalar)
  /-- An unknown or null reference. -/
  | ref
  | string
  /-- An array that stores numbers of one kind without tags. -/
  | packed (s : Scalar)
  /-- An array of values of one type. -/
  | array (elem : Ty)
  | struct (fields : List Ty)
  | function (params returns : List Ty)
deriving Repr, Inhabited

/-- What a function takes and gives. -/
structure Signature where
  params : List Ty
  returns : List Ty
deriving Repr, Inhabited

namespace Ty

/-! ### Equality -/

mutual

def same : Ty → Ty → Bool
  | .scalar s, .scalar s' => s == s'
  | .ref, .ref => true
  | .string, .string => true
  | .packed s, .packed s' => s == s'
  | .array t, .array t' => t.same t'
  | .struct ts, .struct ts' => sameAll ts ts'
  | .function ps rs, .function ps' rs' => sameAll ps ps' && sameAll rs rs'
  | _, _ => false

def sameAll : List Ty → List Ty → Bool
  | [], [] => true
  | t :: ts, t' :: ts' => t.same t' && sameAll ts ts'
  | _, _ => false

end

mutual

theorem same_iff : ∀ t t' : Ty, t.same t' = true ↔ t = t'
  | .scalar s, t' => by cases t' <;> simp [same]
  | .ref, t' => by cases t' <;> simp [same]
  | .string, t' => by cases t' <;> simp [same]
  | .packed s, t' => by cases t' <;> simp [same]
  | .array t, t' => by cases t' <;> simp [same, same_iff t]
  | .struct ts, t' => by cases t' <;> simp [same, sameAll_iff ts]
  | .function ps rs, t' => by cases t' <;> simp [same, sameAll_iff ps, sameAll_iff rs]

theorem sameAll_iff : ∀ ts ts' : List Ty, sameAll ts ts' = true ↔ ts = ts'
  | [], ts' => by cases ts' <;> simp [sameAll]
  | t :: ts, ts' => by cases ts' <;> simp [sameAll, same_iff t, sameAll_iff ts]

end

instance : DecidableEq Ty := fun t t' => decidable_of_iff _ (same_iff t t')

/-! ### Kinds and compatibility -/

def ofKind : Kind → Ty
  | .scalar s => .scalar s
  | .ref => .ref

def i32 : Ty := .scalar .i32

def i64 : Ty := .scalar .i64

def f32 : Ty := .scalar .f32

def f64 : Ty := .scalar .f64

def kind : Ty → Kind
  | .scalar s => .scalar s
  | _ => .ref

def isRef (t : Ty) : Bool := t.kind == .ref

/-- Whether a value of type `actual` may flow where `expected` is asked for. -/
def accepts (expected actual : Ty) : Bool :=
  if expected = .ref then actual.isRef
  else if actual = .ref then expected.isRef
  else expected = actual

/-- The type of the elements of an array type. -/
def elem? : Ty → Option Ty
  | .packed s => some (.scalar s)
  | .array t => some t
  | _ => none

/-- The types of the fields of a struct type. -/
def fields? : Ty → Option (List Ty)
  | .struct fields => some fields
  | _ => none

/-- What a function type takes and gives. -/
def signature? : Ty → Option Signature
  | .function params returns => some ⟨params, returns⟩
  | _ => none

/-! ### Text -/

mutual

def text : Ty → String
  | .scalar s => s.text
  | .ref => "ref"
  | .string => "string"
  | .packed s => s.text ++ "[]"
  | .array t => "array<" ++ t.text ++ ">"
  | .struct fields => "struct \x7b" ++ commaText fields ++ "\x7d"
  | .function params returns =>
    "fn(" ++ commaText params ++ ")" ++
      match returns with
      | [] => ""
      | first :: rest => " -> " ++ first.text ++ afterText rest

/-- Types with commas between them. -/
def commaText : List Ty → String
  | [] => ""
  | t :: ts => t.text ++ afterText ts

/-- Types with a comma before each. -/
def afterText : List Ty → String
  | [] => ""
  | t :: ts => ", " ++ t.text ++ afterText ts

end

end Ty

namespace Signature

deriving instance DecidableEq for Signature

/-- The type of a reference to a function with the signature. -/
def ty (s : Signature) : Ty := .function s.params s.returns

def text (s : Signature) : String := s.ty.text

end Signature

end StackVM
