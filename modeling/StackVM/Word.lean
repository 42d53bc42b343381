import StackVM.Value

/-!
# Words

A value packed into 64 bits. Doubles are stored as they are, and the bit patterns of positive NaNs,
which no stored double has, carry the other kinds: the top fifteen bits are a tag and the low 49 bits a
payload. Every NaN double is stored as the one negative quiet NaN.
-/

namespace StackVM

structure Word where
  bits : BitVec 64
deriving DecidableEq, Repr

namespace Word

/-- Numbers below this fit a payload. -/
def payloadSize : Nat := Nat.pow 2 Value.payloadBits

/-- The top fifteen bits of a positive NaN pattern whose three tag bits are zero. -/
def tagBase : Nat := 0x3FF8

/-- The top bits that mark a kind; doubles have no mark of their own. -/
def tag : Kind → Option Nat
  | .scalar .i32 => some (tagBase + 1)
  | .scalar .i64 => some (tagBase + 2)
  | .scalar .f32 => some (tagBase + 3)
  | .scalar .f64 => none
  | .ref => some (tagBase + 4)

/-- The word with the given top bits and the low 49 bits of `payload`. -/
def tagged (top payload : Nat) : Word :=
  ⟨.ofNat 64 (top * payloadSize + payload % payloadSize)⟩

/-- The pattern that stands for every NaN double. -/
def canonicalNaN : BitVec 64 := 0xFFF8000000000000

end Word

namespace Value

/-- What a word keeps of the value. All NaN doubles count as one. -/
def canonical : Value → Value
  | .f64 x => .f64 (if x.isNaN then ⟨Word.canonicalNaN⟩ else x)
  | v => v

@[simp]
theorem kind_canonical (v : Value) : v.canonical.kind = v.kind := by
  cases v <;> rfl

@[simp]
theorem canonical_canonical (v : Value) : v.canonical.canonical = v.canonical := by
  cases v with
  | f64 x =>
    simp only [canonical]
    split
    -- the canonical NaN is a NaN
    · rfl
    · rfl
  | _ => rfl

@[simp]
theorem canonical_eq_ref {v : Value} {a : Nat} : v.canonical = .ref a ↔ v = .ref a := by
  cases v <;> simp [canonical]

end Value

namespace Word

def ofI32 (n : BitVec 32) : Word := tagged (tagBase + 1) (n.signExtend 64).toNat

/-- Keeps the low 49 bits of the integer. -/
def ofI64 (n : BitVec 64) : Word := tagged (tagBase + 2) n.toNat

def ofF32 (x : Binary32) : Word := tagged (tagBase + 3) x.bits.toNat

def ofF64 (x : Binary64) : Word := ⟨if x.isNaN then canonicalNaN else x.bits⟩

/-- Keeps the low 49 bits of the address. -/
def ofAddress (a : Nat) : Word := tagged (tagBase + 4) a

/-- The top fifteen bits. -/
def top (w : Word) : Nat := w.bits.toNat / payloadSize

/-- The low 49 bits. -/
def payload (w : Word) : BitVec 49 := .ofNat 49 w.bits.toNat

/-- The kind that the tag names; a word with any other top bits is a double. -/
def kind (w : Word) : Kind :=
  if w.top = tagBase + 1 then .scalar .i32
  else if w.top = tagBase + 2 then .scalar .i64
  else if w.top = tagBase + 3 then .scalar .f32
  else if w.top = tagBase + 4 then .ref
  else .scalar .f64

def i32 (w : Word) : BitVec 32 := w.payload.setWidth 32

def i64 (w : Word) : BitVec 64 := w.payload.signExtend 64

def f32 (w : Word) : Binary32 := ⟨w.payload.setWidth 32⟩

def f64 (w : Word) : Binary64 := ⟨w.bits⟩

def address (w : Word) : Nat := w.payload.toNat

/-- The value that the word stands for. -/
def value (w : Word) : Value :=
  match w.kind with
  | .scalar .i32 => .i32 w.i32
  | .scalar .i64 => .i64 w.i64
  | .scalar .f32 => .f32 w.f32
  | .scalar .f64 => .f64 w.f64
  | .ref => .ref w.address

/-- Packs a value. Integers and addresses that do not fit the payload lose their high bits. -/
def ofValue : Value → Word
  | .i32 n => ofI32 n
  | .i64 n => ofI64 n
  | .f32 x => ofF32 x
  | .f64 x => ofF64 x
  | .ref a => ofAddress a

end Word

end StackVM
