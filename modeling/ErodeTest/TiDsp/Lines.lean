import ErodeTest.TiDsp.Columns

/-! # The rotating lines of the TI DSP kernel

A work-item fetches a sequence of rows, three at the start and one more for each row
it computes. The row fetched as number `n` is in line `n % 4`; round `n` of the row
loop computes with the rows fetched as numbers `n`, `n + 1` and `n + 2` while number
`n + 3` is in flight.
-/

namespace ErodeTest.TiDsp

open AsyncCopy BufferProgram Morphology

/-! ## The rows fetched -/

/-- The row `fetch_rd_idx` points at in a round of the row loop. -/
def fetchRow (rows offset : ℤ) : ℕ → ℤ
  | 0 => if offset = 0 then 2 else if offset = rows - 1 then rows - 1 else offset + 2
  | y + 1 => if offset + y + 3 < rows then fetchRow rows offset y + 1 else fetchRow rows offset y

/-- The rows in the order they are fetched. -/
def fetched (rows offset : ℤ) : ℕ → ℤ
  | 0 => if offset = 0 then offset else offset - 1
  | 1 => offset
  | 2 => if offset ≠ 0 ∧ offset = rows - 1 then offset else offset + 1
  | y + 3 => fetchRow rows offset y

theorem startUp_eq (cols rows offset : ℤ) :
    startUp cols rows offset =
      ((fetched rows offset 0 * cols, fetched rows offset 1 * cols, fetched rows offset 2 * cols),
        fetchRow rows offset 0 * cols, offset * cols) := by
  simp only [startUp, fetched, fetchRow]
  by_cases top : offset = 0
  · simp [top]
  · simp only [ne_eq, not_false_eq_true, top, true_and, if_false]
    split <;> rfl

/-- The first three rows are fetched before the row loop, the others in its rounds. -/
theorem fetched_cases (n : ℕ) : n = 0 ∨ n = 1 ∨ n = 2 ∨ ∃ y, n = y + 3 := by
  by_cases started : n < 3
  · omega
  · exact Or.inr (Or.inr (Or.inr ⟨n - 3, by omega⟩))

section Fetched

variable {rows offset : ℤ} (tall : 2 < rows) (lower : 0 ≤ offset) (upper : offset < rows)

include tall lower upper

omit lower in
/-- The prefetch stops at the last row, except that a work-item that begins at the last
row but one fetches the row after the image. -/
theorem fetchRow_eq (y : ℕ) :
    fetchRow rows offset y =
      if offset = rows - 2 then rows else min (offset + 2 + y) (rows - 1) := by
  induction y with
  | zero =>
      unfold fetchRow
      split_ifs <;> omega
  | succ y ih =>
      rw [fetchRow, ih]
      push_cast
      split_ifs <;> omega

/-- The rows fetched are rows of the image unless the work-item begins at the last row
but one. -/
theorem fetched_inside (n : ℕ) (regular : offset ≠ rows - 2 ∨ n < 3) :
    0 ≤ fetched rows offset n ∧ fetched rows offset n < rows := by
  obtain rfl | rfl | rfl | ⟨y, rfl⟩ := fetched_cases n
  · rw [fetched]
    split_ifs <;> omega
  · exact ⟨lower, upper⟩
  · rw [fetched]
    split_ifs <;> omega
  · rw [fetched, fetchRow_eq tall upper, if_neg (by omega)]
    omega

/-- The rows a round computes with are those near the row it computes, unless the
work-item begins at the last row but one and this is its second round. -/
theorem near_fetched_iff {n : ℕ} (inside : offset + n < rows)
    (regular : offset ≠ rows - 2 ∨ n = 0) (r : ℤ) :
    (r = fetched rows offset n ∨ r = fetched rows offset (n + 1)) ∨
        r = fetched rows offset (n + 2) ↔ r ∈ near rows (offset + n) := by
  rw [mem_near]
  obtain rfl | rfl | rfl | ⟨y, rfl⟩ := fetched_cases n
  · simp only [fetched, Nat.cast_zero]
    split_ifs <;> omega
  · simp only [fetched, fetchRow_eq tall upper, Nat.cast_one]
    split_ifs <;> omega
  · simp only [fetched, fetchRow_eq tall upper, Nat.cast_ofNat]
    split_ifs <;> omega
  · simp only [fetched, fetchRow_eq tall upper]
    push_cast at inside ⊢
    split_ifs <;> omega

end Fetched

/-! ## The bytes of a line -/

/-- The bytes of a line that holds a row: the row between two guard bytes. -/
def paddedRow (source : ℤ → UInt8) (cols row p : ℤ) : UInt8 :=
  if 1 ≤ p ∧ p ≤ cols then source (row * cols + (p - 1)) else 255

/-- What a work-item stores at a pixel of its rows. -/
def rowValue (source : ℤ → UInt8) (cols rows offset : ℤ) (pixel : ℤ × ℤ) : UInt8 :=
  let n := (pixel.2 - offset).toNat
  nineMin (paddedRow source cols (fetched rows offset n))
    (paddedRow source cols (fetched rows offset (n + 1)))
    (paddedRow source cols (fetched rows offset (n + 2))) pixel.1

/-- The nine bytes are those of the near columns of the three rows. -/
theorem minOver_nineMin (source : ℤ → UInt8) {cols x : ℤ} (wide : 2 ≤ cols) (lower : 0 ≤ x)
    (upper : x < cols) (first second third : ℤ) :
    MinOver (raster source cols) (near cols x ×ˢ ({first} ∪ {second} ∪ {third}))
      (nineMin (paddedRow source cols first) (paddedRow source cols second)
        (paddedRow source cols third) x) := by
  have column (p : ℤ) (left : 1 ≤ p) (right : p ≤ cols) :
      MinOver (raster source cols) ({p - 1} ×ˢ ({first} ∪ {second} ∪ {third}))
        (min (min (paddedRow source cols first p) (paddedRow source cols second p))
          (paddedRow source cols third p)) := by
    simp only [paddedRow, left, right, and_self, if_true]
    exact ((MinOver.pixel (raster source cols) (p - 1) first).min_rows
      (MinOver.pixel (raster source cols) (p - 1) second)).min_rows
        (MinOver.pixel (raster source cols) (p - 1) third)
  have guard (row p : ℤ) (outside : p < 1 ∨ cols < p) : paddedRow source cols row p = 255 :=
    if_neg (by omega)
  unfold nineMin
  by_cases left : x = 0
  · subst left
    simp only [guard _ 0 (by omega), min_self, min_eq_right (UInt8.le_255 _)]
    refine ((column (0 + 1) (by omega) (by omega)).min_columns
      (column (0 + 2) (by omega) (by omega))).congr_prod (fun i => ?_) fun _ => Iff.rfl
    simp only [Set.mem_union, Set.mem_singleton_iff, mem_near]
    omega
  by_cases right : x = cols - 1
  · simp only [guard _ (x + 2) (by omega), min_self, min_eq_left (UInt8.le_255 _)]
    refine ((column x (by omega) (by omega)).min_columns
      (column (x + 1) (by omega) (by omega))).congr_prod (fun i => ?_) fun _ => Iff.rfl
    simp only [Set.mem_union, Set.mem_singleton_iff, mem_near]
    omega
  · refine (((column x (by omega) (by omega)).min_columns
      (column (x + 1) (by omega) (by omega))).min_columns
        (column (x + 2) (by omega) (by omega))).congr_prod (fun i => ?_) fun _ => Iff.rfl
    simp only [Set.mem_union, Set.mem_singleton_iff, mem_near]
    omega

end ErodeTest.TiDsp
