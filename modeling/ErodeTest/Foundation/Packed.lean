import Mathlib.Order.Defs.LinearOrder
import Mathlib.Tactic.Common
import Mathlib.Tactic.Ring

/-! # Bytes, and bytes packed into machine words

Unsigned bytes are ordered by their comparison. A word holds its bytes in little-endian
order: byte `k` is made of the bits from `8 * k` on.
-/

/-- Unsigned bytes are linearly ordered by their comparison. -/
instance instLinearOrderByte : LinearOrder UInt8 where
  le_refl := UInt8.le_refl
  le_trans _ _ _ := UInt8.le_trans
  le_antisymm _ _ := UInt8.le_antisymm
  le_total := UInt8.le_total
  lt_iff_le_not_ge a b := by
    rw [UInt8.not_le]
    exact ⟨fun below => ⟨UInt8.le_of_lt below, below⟩, fun below => below.2⟩
  toDecidableLE := inferInstance
  toDecidableEq := inferInstance
  toDecidableLT := inferInstance

theorem UInt8.le_255 (a : UInt8) : a ≤ 255 :=
  UInt8.le_iff_toNat_le.mpr (Nat.le_of_lt_succ a.toNat_lt)

namespace Packed

/-- A byte of a word. -/
def byte {n : ℕ} (word : BitVec n) (k : ℕ) : UInt8 := .ofBitVec (word.extractLsb' (8 * k) 8)

/-- The word of the first `n` bytes of a sequence. -/
def ofBytes : (n : ℕ) → (ℕ → UInt8) → BitVec (8 * n)
  | 0, _ => 0#0
  | n + 1, bytes => ((bytes n).toBitVec ++ ofBytes n bytes).cast (by omega)

theorem byte_congr {m n : ℕ} {first : BitVec m} {second : BitVec n} {k l : ℕ}
    (same : ∀ i < 8, first.getLsbD (8 * k + i) = second.getLsbD (8 * l + i)) :
    byte first k = byte second l := by
  refine congrArg UInt8.ofBitVec (BitVec.eq_of_getLsbD_eq fun i bound => ?_)
  simp only [BitVec.getLsbD_extractLsb', bound, decide_true, Bool.true_and, same i bound]

theorem byte_ofBytes {n k : ℕ} (bytes : ℕ → UInt8) (inside : k < n) :
    byte (ofBytes n bytes) k = bytes k := by
  induction n with
  | zero => omega
  | succ n ih =>
      by_cases last : k = n
      · subst last
        refine congrArg UInt8.ofBitVec (BitVec.eq_of_getLsbD_eq fun i bound => ?_)
        simp only [ofBytes, BitVec.getLsbD_extractLsb', BitVec.getLsbD_cast, BitVec.getLsbD_append,
          bound, decide_true, Bool.true_and, show ¬ 8 * k + i < 8 * k by omega, if_false,
          Nat.add_sub_cancel_left]
      · rw [← ih (by omega)]
        refine byte_congr fun i bound => ?_
        simp only [ofBytes, BitVec.getLsbD_cast, BitVec.getLsbD_append,
          show 8 * k + i < 8 * n by omega, if_true]

/-- The bytes of two words put together. -/
theorem byte_append {m n j : ℕ} (high : BitVec m) (low : BitVec n) (width : n = 8 * j) (k : ℕ) :
    byte (high ++ low) k = if k < j then byte low k else byte high (k - j) := by
  subst width
  split
  · refine byte_congr fun i bound => ?_
    simp only [BitVec.getLsbD_append, show 8 * k + i < 8 * j by omega, if_true]
  · refine byte_congr fun i bound => ?_
    simp only [BitVec.getLsbD_append, show ¬ 8 * k + i < 8 * j by omega, if_false,
      show 8 * k + i - 8 * j = 8 * (k - j) + i by omega]

/-- The bytes of a part of a word. -/
theorem byte_extract {n start len s k : ℕ} (word : BitVec n) (aligned : start = 8 * s)
    (inside : 8 * (k + 1) ≤ len) : byte (word.extractLsb' start len) k = byte word (s + k) := by
  subst aligned
  refine byte_congr fun i bound => ?_
  simp only [BitVec.getLsbD_extractLsb', show 8 * k + i < len by omega, decide_true,
    Bool.true_and, mul_add, add_assoc]

/-- The bytes of a word widened with zeros. -/
theorem byte_setWidth {m n k : ℕ} (word : BitVec n) (inside : 8 * (k + 1) ≤ m) :
    byte (word.setWidth m) k = byte word k := by
  refine byte_congr fun i bound => ?_
  simp only [BitVec.getLsbD_setWidth, show 8 * k + i < m by omega, decide_true, Bool.true_and]

end Packed
