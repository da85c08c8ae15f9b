import Mathlib.Tactic.Ring
import Mathlib.Tactic.Linarith
import Mathlib.Data.Int.DivMod

/-! # The rows of a work-item

A work-item of `tidsp_morph_erode` computes `mLocal` rows from row `offset` on. The
quotient of rows and work-items goes to each of them and one more row to the first
ones while the remainder lasts; with fewer rows than work-items the surplus ones
return at once.
-/

namespace ErodeTest.TiDsp

/-- The number of rows and the first row of a work-item. -/
def partition (rows chunks id : ℤ) : ℤ × ℤ :=
  let mLocal := if rows < chunks then 1 else Int.tdiv rows chunks
  let offset := mLocal * id
  if rows > chunks then
    (mLocal + (if id < Int.tmod rows chunks then 1 else 0),
      offset + (if id < Int.tmod rows chunks then id else Int.tmod rows chunks))
  else (mLocal, offset)

def mLocal (rows chunks id : ℤ) : ℤ := (partition rows chunks id).1

def offset (rows chunks id : ℤ) : ℤ := (partition rows chunks id).2

/-- The work-item returns at once. -/
def Surplus (rows chunks id : ℤ) : Prop := rows < chunks ∧ id ≥ rows

instance (rows chunks id : ℤ) : Decidable (Surplus rows chunks id) :=
  inferInstanceAs (Decidable (_ ∧ _))

section Partition

variable {rows chunks : ℤ} (nonempty : 0 < rows) (several : 0 < chunks)

include nonempty several

omit nonempty in
/-- With no more rows than work-items, a work-item has the row of its number. -/
theorem partition_of_le (few : rows ≤ chunks) (id : ℤ) : partition rows chunks id = (1, id) := by
  have whole : (if rows < chunks then 1 else Int.tdiv rows chunks) = 1 := by
    split
    · rfl
    · rw [show rows = chunks by omega, Int.tdiv_self several.ne']
  simp only [partition, whole, one_mul, if_neg (not_lt.mpr few)]

omit several in
theorem partition_of_gt (many : chunks < rows) (id : ℤ) :
    partition rows chunks id =
      (rows / chunks + (if id < rows % chunks then 1 else 0),
        rows / chunks * id + min id (rows % chunks)) := by
  have smaller : (if id < rows % chunks then id else rows % chunks) = min id (rows % chunks) := by
    split <;> omega
  simp only [partition, if_neg (not_lt.mpr many.le), if_pos many,
    Int.tdiv_eq_ediv_of_nonneg nonempty.le, Int.tmod_eq_emod_of_nonneg nonempty.le, smaller]

omit nonempty several in
/-- Where the rows of the work-items from a number on begin. -/
def start (rows chunks id : ℤ) : ℤ :=
  if rows ≤ chunks then min id rows else rows / chunks * id + min id (rows % chunks)

theorem start_zero : start rows chunks 0 = 0 := by
  have := Int.emod_nonneg rows several.ne'
  unfold start
  split
  · omega
  · rw [mul_zero]
    omega

omit nonempty in
theorem start_chunks : start rows chunks chunks = rows := by
  have bound := Int.emod_lt_of_pos rows several
  have whole := Int.mul_ediv_add_emod rows chunks
  unfold start
  split
  · omega
  · rw [min_eq_right bound.le, mul_comm]
    exact whole

/-- A work-item that does not return begins where its number says and leaves off where
the next one begins, with at least one row. -/
theorem partition_spec {id : ℤ} (active : ¬ Surplus rows chunks id) (listed : id < chunks) :
    offset rows chunks id = start rows chunks id ∧
      start rows chunks (id + 1) = start rows chunks id + mLocal rows chunks id ∧
      1 ≤ mLocal rows chunks id := by
  unfold offset mLocal start
  by_cases few : rows ≤ chunks
  · simp only [partition_of_le several few, if_pos few]
    unfold Surplus at active
    omega
  · simp only [partition_of_gt nonempty (not_le.mp few), if_neg few, mul_add, mul_one,
      true_and]
    have positive : 1 ≤ rows / chunks :=
      (Int.le_ediv_iff_mul_le several).mpr (by omega)
    split <;> omega

omit nonempty several in
/-- A surplus work-item has no rows left. -/
theorem start_surplus {id : ℤ} (surplus : Surplus rows chunks id) :
    start rows chunks id = rows ∧ start rows chunks (id + 1) = rows := by
  unfold Surplus at surplus
  unfold start
  rw [if_pos surplus.1.le, if_pos surplus.1.le]
  omega

theorem start_le_succ (id : ℤ) : start rows chunks id ≤ start rows chunks (id + 1) := by
  unfold start
  split
  · omega
  · have := Int.ediv_nonneg nonempty.le several.le
    rw [mul_add, mul_one]
    omega

theorem start_mono {first second : ℤ} (ordered : first ≤ second) :
    start rows chunks first ≤ start rows chunks second := by
  induction second, ordered using Int.leInduction with
  | base => exact le_rfl
  | succ second _ ih => exact ih.trans (start_le_succ nonempty several second)

/-- The rows of a work-item are rows of the image. -/
theorem partition_inside {id : ℤ} (active : ¬ Surplus rows chunks id) (lower : 0 ≤ id)
    (listed : id < chunks) :
    0 ≤ offset rows chunks id ∧ 1 ≤ mLocal rows chunks id ∧
      offset rows chunks id + mLocal rows chunks id ≤ rows := by
  obtain ⟨begins, ends, size⟩ := partition_spec nonempty several active listed
  have first := start_mono nonempty several lower
  have last := start_mono nonempty several (by omega : id + 1 ≤ chunks)
  rw [start_zero nonempty several] at first
  rw [start_chunks several] at last
  omega

/-- Every row belongs to a work-item. -/
theorem exists_workItem {y : ℤ} (lower : 0 ≤ y) (upper : y < rows) :
    ∃ id, (0 ≤ id ∧ id < chunks ∧ ¬ Surplus rows chunks id) ∧ offset rows chunks id ≤ y ∧
      y < offset rows chunks id + mLocal rows chunks id := by
  have search : ∀ n : ℕ, (n : ℤ) ≤ chunks → y < start rows chunks n →
      ∃ id, (0 ≤ id ∧ id < chunks) ∧ start rows chunks id ≤ y ∧ y < start rows chunks (id + 1) := by
    intro n
    induction n with
    | zero =>
        intro _ below
        rw [Nat.cast_zero, start_zero nonempty several] at below
        omega
    | succ n ih =>
        intro inside below
        push_cast at inside below
        by_cases before : y < start rows chunks n
        · exact ih (by omega) before
        · exact ⟨n, ⟨by omega, by omega⟩, not_lt.mp before, below⟩
  obtain ⟨id, ⟨first, last⟩, begins, ends⟩ := search chunks.toNat (by omega) (by
    rw [Int.toNat_of_nonneg several.le, start_chunks several]
    exact upper)
  have active : ¬ Surplus rows chunks id := by
    intro surplus
    have := (start_surplus surplus).1
    omega
  obtain ⟨begin, next, _⟩ := partition_spec nonempty several active last
  exact ⟨id, ⟨first, last, active⟩, by omega, by omega⟩

/-- Which work-item, if any, begins at the last row but one. -/
theorem offset_eq_iff {id : ℤ} (active : ¬ Surplus rows chunks id) (lower : 0 ≤ id)
    (listed : id < chunks) :
    offset rows chunks id = rows - 2 ↔
      rows ≤ chunks ∧ id = rows - 2 ∨
        chunks < rows ∧ rows < 2 * chunks - 1 ∧ id = chunks - 2 ∨
          2 * chunks ≤ rows ∧ rows < 3 * chunks ∧ id = chunks - 1 := by
  rw [(partition_spec nonempty several active listed).1]
  unfold start
  by_cases few : rows ≤ chunks
  · unfold Surplus at active
    rw [if_pos few]
    omega
  · rw [if_neg few]
    obtain ⟨q, quotient⟩ : ∃ q, rows / chunks = q := ⟨_, rfl⟩
    obtain ⟨r, remainder⟩ : ∃ r, rows % chunks = r := ⟨_, rfl⟩
    have whole := Int.mul_ediv_add_emod rows chunks
    have small := Int.emod_lt_of_pos rows several
    have nonneg := Int.emod_nonneg rows several.ne'
    have positive : 1 ≤ q := quotient ▸ (Int.le_ediv_iff_mul_le several).mpr (by omega)
    rw [quotient, remainder] at *
    obtain rfl | rfl | large : q = 1 ∨ q = 2 ∨ 3 ≤ q := by omega
    · omega
    · omega
    · have := mul_le_mul_of_nonneg_right large (by omega : 0 ≤ chunks - id)
      have := mul_le_mul_of_nonneg_left large several.le
      have split : q * chunks - q * id = q * (chunks - id) := by ring
      rw [mul_comm chunks q] at *
      omega

/-- The work-item with the last two rows of the image. -/
theorem last_pair_iff {id : ℤ} (active : ¬ Surplus rows chunks id) (lower : 0 ≤ id)
    (listed : id < chunks) :
    offset rows chunks id = rows - 2 ∧ mLocal rows chunks id = 2 ↔
      rows / chunks = 2 ∧ id = chunks - 1 := by
  have size : rows / chunks = 2 ↔ 2 * chunks ≤ rows ∧ rows < 3 * chunks := by
    rw [← Int.le_ediv_iff_mul_le several, ← Int.ediv_lt_iff_lt_mul several]
    omega
  have small := Int.emod_lt_of_pos rows several
  have single : rows / chunks = 1 → rows = chunks + rows % chunks := by
    intro quotient
    have whole := Int.mul_ediv_add_emod rows chunks
    rw [quotient, mul_one] at whole
    exact whole.symm
  rw [offset_eq_iff nonempty several active lower listed, mLocal]
  by_cases few : rows ≤ chunks
  · rw [partition_of_le several few]
    omega
  · rw [partition_of_gt nonempty (not_le.mp few)]
    dsimp only
    constructor
    · rintro ⟨begins, rowCount⟩
      split at rowCount <;> omega
    · rintro ⟨pair, rfl⟩
      rw [if_neg (by omega)]
      omega

end Partition

end ErodeTest.TiDsp
