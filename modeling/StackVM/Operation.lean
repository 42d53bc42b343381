import StackVM.Kind

/-!
# Operations on operands

Most instructions take one or two operands of one kind and leave one result: comparisons, arithmetic,
conversions and the tests on references. An `Operation` is such an instruction. Its `Shape` says how many
operands the machine takes, of which kind, and the kind of the result.
-/

namespace StackVM

/-- Widths of integers. -/
inductive IntWidth where
  | w32 | w64
deriving DecidableEq, Repr

/-- Widths of floating-point numbers. -/
inductive FloatWidth where
  | w32 | w64
deriving DecidableEq, Repr

/-- Whether the bits of an integer are read with a sign. -/
inductive Signedness where
  | signed | unsigned
deriving DecidableEq, Repr

/-- Comparisons of integers. -/
inductive IntTest where
  | eq | ne | ltS | ltU | gtS | gtU | leS | leU | geS | geU
deriving DecidableEq, Repr

/-- Arithmetic on integers. -/
inductive IntBinary where
  | add | sub | mul | divS | divU | remS | remU | shl | shrS | shrU | xor | and | or
deriving DecidableEq, Repr

/-- Comparisons of floating-point numbers. -/
inductive FloatTest where
  | eq | ne | lt | gt | le | ge
deriving DecidableEq, Repr

/-- Arithmetic on floating-point numbers. -/
inductive FloatBinary where
  | add | sub | mul | div
deriving DecidableEq, Repr

/-- Conversions between the kinds of numbers. -/
inductive Conversion where
  /-- From 32 to 64 bits. -/
  | extend (sign : Signedness)
  /-- Keeps the low 32 bits. -/
  | wrap
  | intToFloat (source : IntWidth) (target : FloatWidth) (sign : Signedness)
  | floatToInt (source : FloatWidth) (target : IntWidth) (sign : Signedness)
  /-- From single to double precision. -/
  | promote
  /-- From double to single precision. -/
  | demote
deriving DecidableEq, Repr

/-- An instruction from operands of one kind to one result. -/
inductive Operation where
  | refIsNull
  | refEq
  | refNe
  | intEqz (width : IntWidth)
  | intTest (width : IntWidth) (test : IntTest)
  | intBinary (width : IntWidth) (op : IntBinary)
  | floatTest (width : FloatWidth) (test : FloatTest)
  | floatBinary (width : FloatWidth) (op : FloatBinary)
  | convert (conversion : Conversion)
deriving DecidableEq, Repr

def IntWidth.scalar : IntWidth → Scalar
  | .w32 => .i32
  | .w64 => .i64

def FloatWidth.scalar : FloatWidth → Scalar
  | .w32 => .f32
  | .w64 => .f64

def Conversion.source : Conversion → Scalar
  | .extend _ => .i32
  | .wrap => .i64
  | .intToFloat source _ _ => source.scalar
  | .floatToInt source _ _ => source.scalar
  | .promote => .f32
  | .demote => .f64

def Conversion.target : Conversion → Scalar
  | .extend _ => .i64
  | .wrap => .i32
  | .intToFloat _ target _ => target.scalar
  | .floatToInt _ target _ => target.scalar
  | .promote => .f64
  | .demote => .f32

/-- What an operation takes from the stack and leaves on it. -/
structure Shape where
  operand : Kind
  arity : Nat
  result : Kind
deriving DecidableEq, Repr

namespace Operation

/-- Tests leave an `i32` that is one or zero. -/
def shape : Operation → Shape
  | .refIsNull => ⟨.ref, 1, .scalar .i32⟩
  | .refEq | .refNe => ⟨.ref, 2, .scalar .i32⟩
  | .intEqz w => ⟨.scalar w.scalar, 1, .scalar .i32⟩
  | .intTest w _ => ⟨.scalar w.scalar, 2, .scalar .i32⟩
  | .intBinary w _ => ⟨.scalar w.scalar, 2, .scalar w.scalar⟩
  | .floatTest w _ => ⟨.scalar w.scalar, 2, .scalar .i32⟩
  | .floatBinary w _ => ⟨.scalar w.scalar, 2, .scalar w.scalar⟩
  | .convert c => ⟨.scalar c.source, 1, .scalar c.target⟩

end Operation

end StackVM
