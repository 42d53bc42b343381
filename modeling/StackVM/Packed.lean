import StackVM.Value

/-!
# Packed arrays

An array that stores the bits of numbers of one kind. No element is a reference, so a packed array
holds no other object.
-/

namespace StackVM

structure Packed where
  scalar : Scalar
  elems : Array (BitVec (8 * scalar.width))

namespace Packed

def size (p : Packed) : Nat := p.elems.size

/-- The element at index `i`. -/
def get? (p : Packed) (i : Nat) : Option Value :=
  p.elems[i]?.map fun bits => .ofRaw (.scalar p.scalar) bits.toNat

/-- Stores a number of the array's kind at index `i`. -/
def set (p : Packed) (i : Nat) (v : Value) : Packed :=
  { p with elems := p.elems.setIfInBounds i (.ofNat _ v.raw) }

/-- `n` zeros. -/
def zeros (s : Scalar) (n : Nat) : Packed := ⟨s, Array.replicate n 0⟩

/-- An array of the given numbers, which have the array's kind. -/
def ofValues (s : Scalar) (vs : List Value) : Packed := ⟨s, (vs.map fun v => .ofNat _ v.raw).toArray⟩

def values (p : Packed) : List Value :=
  p.elems.toList.map fun bits => .ofRaw (.scalar p.scalar) bits.toNat

end Packed

end StackVM
