import Mathlib.Algebra.Order.Ring.Nat
import StackVM.Bytes

/-!
# The numbers that bytes can hold

The bytes of a given width stand for the numbers below `256 ^ width`: writing a number and reading it back
keeps it modulo that power.
-/

namespace StackVM.Bytes

/-- Reading back what was written keeps the number modulo `256 ^ width`. -/
theorem toNat_ofNat (width n : Nat) : toNat (ofNat width n) = n % 256 ^ width := by
  induction width generalizing n with
  | zero => simp [ofNat, toNat, Nat.mod_one]
  | succ width ih =>
    have hb : (UInt8.ofNat n).toNat = n % 256 := by simp
    rw [ofNat, toNat, ih, hb, Nat.pow_succ, Nat.mul_comm (256 ^ width) 256, Nat.mod_mul]

end StackVM.Bytes
