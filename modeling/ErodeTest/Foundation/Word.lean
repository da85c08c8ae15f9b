import Mathlib.Algebra.Order.Ring.Int
import Mathlib.Tactic.Common

/-! # Machine words as integers

The value of a 32-bit operation is the operation on the values while these stay in
range, and casting between the signed and the unsigned reading of a word keeps values
below two to the thirty-first.
-/

namespace MachineWord

theorem toInt_add {a b : Int32} (lower : -2 ^ 31 ≤ a.toInt + b.toInt)
    (upper : a.toInt + b.toInt < 2 ^ 31) : (a + b).toInt = a.toInt + b.toInt := by
  rw [Int32.toInt_add]
  exact Int.bmod_eq_of_le (by omega) (by omega)

theorem toInt_sub {a b : Int32} (lower : -2 ^ 31 ≤ a.toInt - b.toInt)
    (upper : a.toInt - b.toInt < 2 ^ 31) : (a - b).toInt = a.toInt - b.toInt := by
  rw [Int32.toInt_sub]
  exact Int.bmod_eq_of_le (by omega) (by omega)

theorem toInt_mul {a b : Int32} (lower : -2 ^ 31 ≤ a.toInt * b.toInt)
    (upper : a.toInt * b.toInt < 2 ^ 31) : (a * b).toInt = a.toInt * b.toInt := by
  rw [Int32.toInt_mul]
  exact Int.bmod_eq_of_le (by omega) (by omega)

theorem toInt_min (a b : Int32) : (min a b).toInt = min a.toInt b.toInt := by
  change (if a ≤ b then a else b).toInt = _
  rw [apply_ite Int32.toInt, Int.min_def]
  simp only [Int32.le_iff_toInt_le]

theorem toInt_max (a b : Int32) : (max a b).toInt = max a.toInt b.toInt := by
  change (if a ≤ b then b else a).toInt = _
  rw [apply_ite Int32.toInt, Int.max_def]
  simp only [Int32.le_iff_toInt_le]

theorem toInt_toInt32 {x : UInt32} (small : x.toNat < 2 ^ 31) : x.toInt32.toInt = x.toNat := by
  change x.toBitVec.toInt = x.toBitVec.toNat
  exact BitVec.toInt_eq_toNat_of_lt (Nat.mul_lt_mul_of_pos_left small (by decide))

theorem toNat_toUInt32 {a : Int32} (nonnegative : 0 ≤ a.toInt) :
    (a.toUInt32.toNat : ℤ) = a.toInt := by
  change (a.toBitVec.toNat : ℤ) = a.toBitVec.toInt
  have signed : 0 ≤ a.toBitVec.toInt := nonnegative
  have bound := a.toBitVec.isLt
  rw [BitVec.toInt_eq_toNat_cond] at signed ⊢
  split
  · rfl
  · omega

end MachineWord
