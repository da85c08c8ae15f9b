import ErodeTest.Foundation.Accesses
import ErodeTest.Scalar.Erode

/-! # Bounds of the scalar implementation

The row pointers of `erode3x3` move through the buffers, and the indices relative
to them reach one row back and one row ahead. Every access stays in the buffers,
the output bytes are stored one after the other from the first to the last, and no
index expression leaves the range of an `int`.
-/

namespace ErodeTest.Scalar

open BufferProgram BufferProgram.Program Morphology

/-- What an access may be: its address in the buffers, its index values within a row
before and a buffer ahead of the row pointer. -/
def Inside (w size : ℤ) : Access UInt8 → Prop
  | .load k => 0 ≤ k ∧ k < size
  | .store k _ => 0 ≤ k ∧ k < size
  | .index n => -w ≤ n ∧ n < size

@[simp] theorem inside_load (w size k : ℤ) : Inside w size (.load k) ↔ 0 ≤ k ∧ k < size := Iff.rfl

@[simp] theorem inside_store (w size k : ℤ) (value : UInt8) :
    Inside w size (.store k value) ↔ 0 ≤ k ∧ k < size := Iff.rfl

@[simp] theorem inside_index (w size n : ℤ) : Inside w size (.index n) ↔ -w ≤ n ∧ n < size :=
  Iff.rfl

section Rows

variable {w size start : ℤ} (wide : 2 ≤ w) (input : ℤ → UInt8)

include wide

/-- The top row reaches into the second row. -/
theorem every_topRow (ahead : 2 * w ≤ size) : (topRow 0 0 w).Every (Inside w size) input := by
  simp [topRow, partialSums, final_one (by omega : 1 ≤ w - 1)]
  and_intros
  all_goals intros; omega

/-- A middle row reaches into the row before and the row after. -/
theorem every_middleRow (back : w ≤ start) (ahead : start + 2 * w ≤ size) :
    (middleRow start start w).Every (Inside w size) input := by
  simp [middleRow, partialSums, final_one (by omega : 1 ≤ w - 1)]
  and_intros
  all_goals intros; omega

/-- The bottom row reaches into the row before. -/
theorem every_bottomRow (back : w ≤ start) (ahead : start + w ≤ size) :
    (bottomRow start start w).Every (Inside w size) input := by
  simp [bottomRow, partialSums, final_one (by omega : 1 ≤ w - 1)]
  and_intros
  all_goals intros; omega

omit wide in
theorem every_middleRound (j : ℤ) (middle : (middleRow start start w).Every (Inside w size) input)
    (counted : -w ≤ j ∧ j + 1 < size) :
    (middleRound w j (start, start)).Every (Inside w size) input := by
  rw [middleRound, every_bind_of _ _ (result_middleRow _ _ _ _)]
  refine ⟨middle, ?_⟩
  simp only [every_index_bind, every_index, partialSums, List.forall_mem_cons, zero_add,
    inside_index, List.not_mem_nil, false_implies, implies_true, and_true, every_pure]
  omega

/-- A row is stored from left to right. -/
theorem addresses_rowStores (left : UInt8) (inner : ℤ → UInt8) (right : UInt8) :
    (rowStores start w left inner right).map Prod.fst = counters start (start + w) 1 := by
  rw [counters_shift, counters_ends wide]
  simp [rowStores, Function.comp_def, ← List.map_eq_flatMap]

end Rows

section Image

variable {w h : ℤ} (wide : 2 ≤ w) (tall : 2 ≤ h) (input : ℤ → UInt8)

include wide tall

/-- **Every access stays in the image.** -/
theorem every_erode3x3 : (erode3x3 0 0 w h).Every (Inside w (w * h)) input := by
  have two : 2 * w ≤ w * h := by nlinarith
  have rows : ∀ y, 1 ≤ y → y < h - 1 → w ≤ y * w ∧ y * w + 2 * w ≤ w * h := by
    intro y below above
    constructor <;> nlinarith
  have bottom : w ≤ (h - 1) * w ∧ (h - 1) * w + w ≤ w * h := by constructor <;> nlinarith
  have high : 2 * h ≤ w * h := by nlinarith
  rw [every_iff_collect, collect_erode3x3 wide tall]
  simp only [List.forall_mem_append, List.forall_mem_flatMap, ← every_iff_collect,
    mem_counters_one]
  refine ⟨every_topRow wide input two, ?_, ?_, every_bottomRow wide input bottom.1 bottom.2⟩
  · simp [partialSums]
    omega
  · rintro y ⟨below, above⟩
    have reach := rows y below above
    exact every_middleRound input y (every_middleRow wide input reach.1 reach.2) (by omega)

/-- The bytes of the output buffer are stored one after the other. -/
theorem addresses_erode3x3 :
    ((erode3x3 0 0 w h).stores input).map Prod.fst = counters 0 (w * h) 1 := by
  have middle : ∀ j, ((middleRound w j (j * w, j * w)).stores input).map Prod.fst =
      counters (j * w) (j * w + w) 1 := by
    intro j
    rw [middleRound, stores, collect_bind_of _ (result_middleRow _ _ _ _)]
    simp [stores_middleRow wide, addresses_rowStores wide]
  have whole := counters_rows (w := w) (by omega) (by omega : 0 ≤ h)
  rw [counters_ends tall] at whole
  simp only [collect_erode3x3 wide tall, stores_index, List.nil_append, List.map_append,
    List.map_flatMap, middle, stores_topRow wide, stores_bottomRow wide,
    addresses_rowStores wide]
  rw [mul_comm w h, ← zero_mul w, ← whole]
  simp

/-- **No access of the scalar implementation leaves its buffer.** Every output byte is
stored exactly once, and every index expression stays an `int`, up to images of
as many bytes as an `int` counts. -/
theorem erode3x3_accesses (fits : w * h ≤ 2 ^ 31 - 1) :
    (erode3x3 0 0 w h).result input = some () ∧
      (∀ k ∈ (erode3x3 0 0 w h).loads input, 0 ≤ k ∧ k < w * h) ∧
      (∀ k v, (k, v) ∈ (erode3x3 0 0 w h).stores input → 0 ≤ k ∧ k < w * h) ∧
      (∀ k, 0 ≤ k → k < w * h →
        (((erode3x3 0 0 w h).stores input).map Prod.fst).count k = 1) ∧
      ∀ n ∈ (erode3x3 0 0 w h).indices input, -2 ^ 31 ≤ n ∧ n ≤ 2 ^ 31 - 1 := by
  have every := every_erode3x3 wide tall input
  have two : 2 * w ≤ w * h := by nlinarith
  refine ⟨result_erode3x3 wide tall input, ?_, ?_, ?_, ?_⟩
  · intro k member
    exact every.loads _ _ member
  · intro k v member
    exact every.stores _ _ member
  · intro k lower upper
    rw [addresses_erode3x3 wide tall]
    exact List.count_eq_one_of_mem (counters_nodup one_pos) (mem_counters_one.mpr ⟨lower, upper⟩)
  · intro n member
    have range := every.indices _ _ member
    rw [inside_index] at range
    omega

end Image

/-- An image with three rows of four pixels: the inner pixel (2, 1) is stored once. -/
theorem erode3x3_accesses_four_by_three :
    (((erode3x3 0 0 4 3).stores fun k => UInt8.ofNat k.toNat).map Prod.fst).count 6 = 1 :=
  (erode3x3_accesses (by decide : (2 : ℤ) ≤ 4) (by decide : (2 : ℤ) ≤ 3)
    (fun k => UInt8.ofNat k.toNat) (by decide)).2.2.2.1 6 (by decide) (by decide)

end ErodeTest.Scalar
