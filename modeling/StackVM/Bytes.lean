/-!
# Little-endian byte strings

Operands of instructions and fields of structs are stored least significant byte first. `ofNat`
writes a number into a given number of bytes and `toNat` reads one back. Reading and then writing keeps
the bytes.
-/

namespace StackVM.Bytes

/-- The `width` low bytes of `n`, least significant first. -/
def ofNat : (width n : Nat) → List UInt8
  | 0, _ => []
  | width + 1, n => UInt8.ofNat n :: ofNat width (n / 256)

/-- The number that a byte string denotes. -/
def toNat : List UInt8 → Nat
  | [] => 0
  | b :: bs => b.toNat + 256 * toNat bs

@[simp]
theorem length_ofNat (width n : Nat) : (ofNat width n).length = width := by
  induction width generalizing n with
  | zero => rfl
  | succ width ih => simp [ofNat, ih]

/-- Writing back what was read keeps the bytes. -/
theorem ofNat_toNat (bs : List UInt8) : ofNat bs.length (toNat bs) = bs := by
  induction bs with
  | nil => rfl
  | cons b bs ih =>
    have hb : b.toNat < 256 := b.toNat_lt
    have low : UInt8.ofNat (b.toNat + 256 * toNat bs) = b := by
      apply UInt8.toNat.inj
      simp only [UInt8.toNat_ofNat']
      omega
    have high : (b.toNat + 256 * toNat bs) / 256 = toNat bs := by omega
    simp [ofNat, toNat, low, high, ih]

end StackVM.Bytes
