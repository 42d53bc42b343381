import StackVM.Bytes
import StackVM.Ty
import StackVM.Value

/-!
# Structs

A struct is a byte buffer that its field types lay out: each field starts at the next multiple of its
own width, and the total is rounded up to a multiple of eight.
-/

namespace StackVM

/-- Where the fields of a struct lie. -/
structure Layout where
  offsets : List Nat
  /-- Bytes of the whole buffer. -/
  size : Nat
deriving DecidableEq, Repr

namespace Layout

/-- The least multiple of `step` that is at least `n`. -/
def alignUp (n step : Nat) : Nat := (n + (step - 1)) / step * step

/-- Offsets of fields placed from `start` on, and the end of the last one. -/
def place (start : Nat) : List Kind → List Nat × Nat
  | [] => ([], start)
  | k :: ks =>
    let offset := alignUp start k.width
    let (rest, stop) := place (offset + k.width) ks
    (offset :: rest, stop)

def ofFields (fields : List Ty) : Layout :=
  let (offsets, stop) := place 0 (fields.map Ty.kind)
  ⟨offsets, alignUp stop 8⟩

end Layout

/-- An instance of a struct type. -/
structure Record where
  fields : List Ty
  data : List UInt8
deriving DecidableEq, Repr

namespace Record

def layout (r : Record) : Layout := .ofFields r.fields

/-- The type of a reference to the struct. -/
def ty (r : Record) : Ty := .struct r.fields

/-- All bytes zero, so that reference fields are null. -/
def zero (fields : List Ty) : Record :=
  ⟨fields, List.replicate (Layout.ofFields fields).size 0⟩

/-- Replaces the bytes from `offset` on by `bytes`. -/
def overwrite (data : List UInt8) (offset : Nat) (bytes : List UInt8) : List UInt8 :=
  data.take offset ++ bytes ++ data.drop (offset + bytes.length)

/-- The value of field `i`, if the buffer has all its bytes. -/
def get? (r : Record) (i : Nat) : Option Value := do
  let t ← r.fields[i]?
  let offset ← r.layout.offsets[i]?
  if offset + t.kind.width ≤ r.data.length then
    some (.ofRaw t.kind (Bytes.toNat ((r.data.drop offset).take t.kind.width)))
  else none

/-- Stores a value of the field's kind in field `i`. -/
def set (r : Record) (i : Nat) (v : Value) : Record :=
  match r.layout.offsets[i]? with
  | none => r
  | some offset => { r with data := overwrite r.data offset (Bytes.ofNat v.kind.width v.raw) }

/-- The values of all fields, in order. -/
def values (r : Record) : List Value := (List.range r.fields.length).filterMap r.get?

/-- A struct with the given values in its first fields. -/
def ofValues (fields : List Ty) (vs : List Value) : Record :=
  vs.zipIdx.foldl (fun r (v, i) => r.set i v) (zero fields)

/-- Addresses in the reference fields, in order. -/
def addresses (r : Record) : List Nat := Value.addresses r.values

end Record

end StackVM
