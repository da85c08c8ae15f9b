import ErodeTest.Foundation.Packed
import Mathlib.Tactic.IntervalCases

/-! # The word arithmetic of the TI DSP kernel

The kernel of `erode3x3_tidsp.cl` packs ten bytes of each line into a word of
eight and a word of two. The bytes slide by one and by two with the C66x
instructions that shift or pack across two words of four bytes.
-/

namespace ErodeTest.TiDsp

open Packed

/-- The bytewise minimum of eight bytes. -/
def dminu4 (a b : BitVec 64) : BitVec 64 := ofBytes 8 fun k => min (byte a k) (byte b k)

/-- The bytewise minimum of four bytes. -/
def minu4 (a b : BitVec 32) : BitVec 32 := ofBytes 4 fun k => min (byte a k) (byte b k)

/-- The three high bytes of the second word under the low byte of the first. -/
def shrmb (src1 src2 : BitVec 32) : BitVec 32 := src1.extractLsb' 0 8 ++ src2.extractLsb' 8 24

/-- The high half of the second word under the low half of the first. -/
def packlh2 (src1 src2 : BitVec 32) : BitVec 32 := src1.extractLsb' 0 16 ++ src2.extractLsb' 16 16

def itoll (hi lo : BitVec 32) : BitVec 64 := hi ++ lo

def hill (a : BitVec 64) : BitVec 32 := a.extractLsb' 32 32

def loll (a : BitVec 64) : BitVec 32 := a.extractLsb' 0 32

theorem byte_dminu4 (a b : BitVec 64) {k : ℕ} (inside : k < 8) :
    byte (dminu4 a b) k = min (byte a k) (byte b k) := byte_ofBytes _ inside

theorem byte_minu4 (a b : BitVec 32) {k : ℕ} (inside : k < 4) :
    byte (minu4 a b) k = min (byte a k) (byte b k) := byte_ofBytes _ inside

theorem byte_hill (a : BitVec 64) {k : ℕ} (inside : k < 4) : byte (hill a) k = byte a (4 + k) :=
  byte_extract a (s := 4) rfl (by omega)

theorem byte_loll (a : BitVec 64) {k : ℕ} (inside : k < 4) : byte (loll a) k = byte a k := by
  rw [loll, byte_extract a (s := 0) rfl (by omega), Nat.zero_add]

theorem byte_itoll (hi lo : BitVec 32) (k : ℕ) :
    byte (itoll hi lo) k = if k < 4 then byte lo k else byte hi (k - 4) :=
  byte_append hi lo rfl k

theorem byte_shrmb (src1 src2 : BitVec 32) {k : ℕ} (inside : k < 4) :
    byte (shrmb src1 src2) k = if k < 3 then byte src2 (k + 1) else byte src1 0 := by
  rw [shrmb, byte_append _ _ (j := 3) rfl]
  split
  · rw [byte_extract src2 (s := 1) rfl (by omega), Nat.add_comm]
  · obtain rfl : k = 3 := by omega
    exact byte_extract src1 (s := 0) rfl (by omega)

theorem byte_packlh2 (src1 src2 : BitVec 32) {k : ℕ} (inside : k < 4) :
    byte (packlh2 src1 src2) k = if k < 2 then byte src2 (k + 2) else byte src1 (k - 2) := by
  rw [packlh2, byte_append _ _ (j := 2) rfl]
  split
  · rw [byte_extract src2 (s := 2) rfl (by omega), Nat.add_comm]
  · rw [byte_extract src1 (s := 0) rfl (by omega), Nat.zero_add]

/-- The minima of eight columns and their neighbours, from the ten bytes of three lines. -/
def columnMin (r0_76543210 r1_76543210 r2_76543210 : BitVec 64)
    (r0_98 r1_98 r2_98 : BitVec 32) : BitVec 64 :=
  let min8 := dminu4 r0_76543210 r1_76543210
  let min8 := dminu4 min8 r2_76543210
  let min2 := minu4 r0_98 r1_98
  let min2 := minu4 min2 r2_98
  let min8_d1 := itoll (shrmb min2 (hill min8)) (shrmb (hill min8) (loll min8))
  let min8_d2 := itoll (packlh2 min2 (hill min8)) (packlh2 (hill min8) (loll min8))
  let min8_a := dminu4 min8 min8_d1
  dminu4 min8_a min8_d2

/-- The bytes slid by one. -/
theorem byte_slide1 (min8 : BitVec 64) (min2 : BitVec 32) {k : ℕ} (inside : k < 8) :
    byte (itoll (shrmb min2 (hill min8)) (shrmb (hill min8) (loll min8))) k =
      if k < 7 then byte min8 (k + 1) else byte min2 0 := by
  rw [byte_itoll]
  interval_cases k <;> simp [byte_shrmb, byte_hill, byte_loll]

/-- The bytes slid by two. -/
theorem byte_slide2 (min8 : BitVec 64) (min2 : BitVec 32) {k : ℕ} (inside : k < 8) :
    byte (itoll (packlh2 min2 (hill min8)) (packlh2 (hill min8) (loll min8))) k =
      if k < 6 then byte min8 (k + 2) else byte min2 (k - 6) := by
  rw [byte_itoll]
  interval_cases k <;> simp [byte_packlh2, byte_hill, byte_loll]

/-- The ten bytes of a line in their two words. -/
def lineByte (low : BitVec 64) (high : BitVec 32) (k : ℕ) : UInt8 :=
  if k < 8 then byte low k else byte high (k - 8)

/-- Every stored byte is the minimum of nine. -/
theorem byte_columnMin (r0_76543210 r1_76543210 r2_76543210 : BitVec 64)
    (r0_98 r1_98 r2_98 : BitVec 32) {k : ℕ} (inside : k < 8) :
    byte (columnMin r0_76543210 r1_76543210 r2_76543210 r0_98 r1_98 r2_98) k =
      let column (j : ℕ) : UInt8 :=
        min (min (lineByte r0_76543210 r0_98 j) (lineByte r1_76543210 r1_98 j))
          (lineByte r2_76543210 r2_98 j)
      min (min (column k) (column (k + 1))) (column (k + 2)) := by
  rw [columnMin, byte_dminu4 _ _ inside, byte_dminu4 _ _ inside, byte_slide1 _ _ inside,
    byte_slide2 _ _ inside]
  interval_cases k <;> simp [lineByte, byte_dminu4, byte_minu4]

end ErodeTest.TiDsp
