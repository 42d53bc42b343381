import StackVM.Float.Text
import StackVM.Kind

/-!
# Values

A value is a number or the address of a heap slot; address zero is the null reference. Integers are bit
vectors: whether the top bit is a sign is up to each operation. A value in memory is a run of bytes,
read through `raw` and `ofRaw`.
-/

namespace StackVM

inductive Value where
  | i32 (n : BitVec 32)
  | i64 (n : BitVec 64)
  | f32 (x : Binary32)
  | f64 (x : Binary64)
  /-- The slot at `address`. -/
  | ref (address : Nat)
deriving DecidableEq, Repr, Inhabited

namespace Value

/-- The reference to nothing. Slot zero is never given out. -/
def null : Value := .ref 0

def kind : Value → Kind
  | .i32 _ => .scalar .i32
  | .i64 _ => .scalar .i64
  | .f32 _ => .scalar .f32
  | .f64 _ => .scalar .f64
  | .ref _ => .ref

def isRef (v : Value) : Bool := v.kind == .ref

def isNull (v : Value) : Bool := v == null

/-- The number whose bits the value consists of. -/
def raw : Value → Nat
  | .i32 n => n.toNat
  | .i64 n => n.toNat
  | .f32 x => x.bits.toNat
  | .f64 x => x.bits.toNat
  | .ref a => a

/-- The value of a kind with the given bits. -/
def ofRaw : Kind → Nat → Value
  | .scalar .i32, n => .i32 (.ofNat 32 n)
  | .scalar .i64, n => .i64 (.ofNat 64 n)
  | .scalar .f32, n => .f32 ⟨.ofNat 32 n⟩
  | .scalar .f64, n => .f64 ⟨.ofNat 64 n⟩
  | .ref, n => .ref n

@[simp]
theorem kind_ofRaw (k : Kind) (n : Nat) : (ofRaw k n).kind = k := by
  cases k with
  | scalar s => cases s <;> rfl
  | ref => rfl

@[simp]
theorem ofRaw_raw (v : Value) : ofRaw v.kind v.raw = v := by
  cases v <;> simp [ofRaw, raw, kind]

/-- What fresh array elements and struct fields start as. -/
def zero (k : Kind) : Value := ofRaw k 0

def ofBool (b : Bool) : Value := .i32 (if b then 1 else 0)

/-- Addresses that a list of values holds, in order; null holds none. -/
def addresses (vs : List Value) : List Nat :=
  vs.filterMap fun
    | .ref (a + 1) => some (a + 1)
    | _ => none

/-! ### Integers in a word

A word has room for integers of 49 bits. -/

/-- Bits of the payload of a word. -/
def payloadBits : Nat := 49

/-- The integers that fit are smaller than this and not smaller than its negative. -/
def payloadBound : Int := Nat.pow 2 (payloadBits - 1)

/-- Whether an integer fits the payload of a word with its sign. -/
def fitsPayload (n : BitVec 64) : Bool := -payloadBound ≤ n.toInt && n.toInt < payloadBound

/-! ### Text -/

/-- Kind and number, as results are printed. -/
def text : Value → String
  | .i32 n => "i32 " ++ toString n.toInt
  | .i64 n => "i64 " ++ toString n.toInt
  | .f32 x => "f32 " ++ FloatStyle.plain.write x.decode
  | .f64 x => "f64 " ++ FloatStyle.plain.write x.decode
  | .ref 0 => "ref null"
  | .ref a => "ref " ++ toString a

/-- The form in dumps of heap objects. -/
def dump : Value → String
  | .i32 n => "I32(" ++ toString n.toInt ++ ")"
  | .i64 n => "I64(" ++ toString n.toInt ++ ")"
  | .f32 x => "F32(" ++ FloatStyle.listing.write x.decode ++ ")"
  | .f64 x => "F64(" ++ FloatStyle.listing.write x.decode ++ ")"
  | .ref a => "Ref(" ++ toString a ++ ")"

end Value

end StackVM
