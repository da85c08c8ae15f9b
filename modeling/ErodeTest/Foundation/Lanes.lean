import ErodeTest.Foundation.Program
import ErodeTest.Foundation.Raster
import Mathlib.Data.Fintype.Basic
import Mathlib.Data.Fin.SuccPred

/-! # Vectors of lanes

A vector register is a fixed number of lanes. A vector load reads consecutive
elements of the input buffer, a vector store writes consecutive elements of the
output buffer.

A line of `w` elements is processed in tiles of `t` by a first tile, a loop over
the tiles from the second on that stops short of the end, and a last tile moved
back to end with the line; the tiles cover the line (`BufferProgram.tiles_cover`).
-/

namespace BufferProgram

variable {α β δ : Type} {n : ℕ}

/-- A vector of lanes. -/
abbrev Lanes (α : Type) (n : ℕ) : Type := Fin n → α

namespace Program

/-- Read consecutive elements. -/
def loadLanes (n : ℕ) (address : ℤ) : Program α (Lanes α n) :=
  fun input => (some fun lane : Fin n => input (address + lane.val),
    (List.finRange n).map fun lane : Fin n => .load (address + lane.val))

/-- Write consecutive elements. -/
def storeLanes (address : ℤ) (lanes : Lanes α n) : Program α Unit :=
  fun _ => (some (), (List.finRange n).map fun lane => .store (address + lane.val) (lanes lane))

section Lanes

variable (address : ℤ) (lanes : Lanes α n) (input : ℤ → α) (select : Access α → Option δ)

@[simp] theorem result_loadLanes :
    (loadLanes n address).result input = some fun lane : Fin n => input (address + lane.val) := rfl

@[simp] theorem result_storeLanes : (storeLanes address lanes).result input = some () := rfl

@[simp] theorem loads_loadLanes :
    (loadLanes n address).loads input =
      (List.finRange n).map fun lane : Fin n => address + (lane.val : ℤ) := by
  simp [collect, loadLanes, trace, List.filterMap_map, Function.comp_def, Access.load?]

@[simp] theorem stores_loadLanes : (loadLanes n address).stores input = [] := by
  simp [collect, loadLanes, trace, List.filterMap_map, Function.comp_def, Access.store?]

@[simp] theorem loads_storeLanes : (storeLanes address lanes).loads input = [] := by
  simp [collect, storeLanes, trace, List.filterMap_map, Function.comp_def, Access.load?]

@[simp] theorem stores_storeLanes :
    (storeLanes address lanes).stores input =
      (List.finRange n).map fun lane => (address + lane.val, lanes lane) := by
  simp [collect, storeLanes, trace, List.filterMap_map, Function.comp_def, Access.store?]

theorem mem_loads_loadLanes {k : ℤ} :
    k ∈ (loadLanes n address).loads input ↔ address ≤ k ∧ k < address + n := by
  rw [loads_loadLanes, List.mem_map]
  constructor
  · rintro ⟨lane, _, rfl⟩
    have := lane.isLt
    omega
  · rintro ⟨lower, upper⟩
    exact ⟨⟨(k - address).toNat, by omega⟩, List.mem_finRange _, by simp only; omega⟩

theorem mem_stores_storeLanes {k : ℤ} {v : α} :
    (k, v) ∈ (storeLanes address lanes).stores input ↔
      ∃ lane, k = address + lane.val ∧ v = lanes lane := by
  simp [eq_comm]

@[simp] theorem result_loadLanes_bind (next : Lanes α n → Program α β) :
    (loadLanes n address >>= next).result input =
      (next fun lane : Fin n => input (address + lane.val)).result input :=
  result_bind_of (result_loadLanes address input) next

@[simp] theorem collect_loadLanes_bind (next : Lanes α n → Program α β) :
    (loadLanes n address >>= next).collect select input =
      (loadLanes n address).collect select input ++
        (next fun lane : Fin n => input (address + lane.val)).collect select input :=
  collect_bind_of select (result_loadLanes address input) next

@[simp] theorem collect_storeLanes_bind (next : Unit → Program α β) :
    (storeLanes address lanes >>= next).collect select input =
      (storeLanes address lanes).collect select input ++ (next ()).collect select input :=
  collect_bind_of select (result_storeLanes address lanes input) next

end Lanes

/-- Lanes with the values of consecutive pixels paint them. -/
theorem paints_storeLanes {address x y w : ℤ} {lanes : Lanes α n} {value : ℤ × ℤ → α}
    (start : address = y * w + x) (values : ∀ lane, lanes lane = value (x + lane.val, y))
    (input : ℤ → α) :
    Paints ((storeLanes address lanes).stores input) w
      {pixel | (x ≤ pixel.1 ∧ pixel.1 < x + n) ∧ pixel.2 = y} value := by
  subst start
  intro k v
  rw [mem_stores_storeLanes]
  constructor
  · rintro ⟨lane, rfl, rfl⟩
    refine ⟨(x + lane.val, y), ⟨⟨by simp, ?_⟩, rfl⟩, ?_, values lane⟩
    · have := lane.isLt
      simp only
      omega
    · simp only [BufferProgram.address]
      ring
  · rintro ⟨⟨i, _⟩, ⟨⟨lower, upper⟩, rfl⟩, rfl, rfl⟩
    dsimp only at lower upper
    have column : x + (i - x).toNat = i := by omega
    refine ⟨⟨(i - x).toNat, by omega⟩, ?_, ?_⟩
    · simp only [BufferProgram.address]
      omega
    · rw [values, column]

end Program

/-! ## Tiles of a line -/

/-- The left ends of the tiles of a line of `w` elements. -/
def tiles (t w : ℤ) : List ℤ := 0 :: (counters t (w - t) t ++ [w - t])

/-- Every tile lies in the line. -/
theorem tiles_inside {t w : ℤ} (positive : 0 < t) (fits : t ≤ w) {i : ℤ} (listed : i ∈ tiles t w) :
    0 ≤ i ∧ i + t ≤ w := by
  simp only [tiles, List.mem_cons, List.mem_append, mem_counters positive, List.not_mem_nil,
    or_false] at listed
  rcases listed with rfl | ⟨n, rfl, below⟩ | rfl
  · omega
  · have := mul_nonneg (Int.natCast_nonneg n) positive.le
    omega
  · omega

/-- The tiles cover the line. -/
theorem tiles_cover {t w x : ℤ} (positive : 0 < t) (lower : 0 ≤ x) (upper : x < w) :
    ∃ i ∈ tiles t w, i ≤ x ∧ x < i + t := by
  simp only [tiles, List.mem_cons, List.mem_append, mem_counters positive, List.not_mem_nil,
    or_false]
  by_cases first : x < t
  · exact ⟨0, Or.inl rfl, lower, by omega⟩
  · by_cases last : w - t ≤ x
    · exact ⟨w - t, Or.inr (Or.inr rfl), last, by omega⟩
    · have quotient : 0 ≤ (x - t) / t := Int.ediv_nonneg (by omega) positive.le
      have remainder := Int.emod_nonneg (x - t) positive.ne'
      have small := Int.emod_lt_of_pos (x - t) positive
      have split := Int.mul_ediv_add_emod (x - t) t
      refine ⟨t + (x - t) / t * t, Or.inr (Or.inl ⟨((x - t) / t).toNat, ?_, ?_⟩), ?_, ?_⟩
      · rw [Int.toNat_of_nonneg quotient]
      all_goals rw [mul_comm]; omega

namespace Program

/-- The accesses of a line are those of its tiles; a tile's border flags are read off
its left end. -/
theorem collect_tileLine {t w : ℤ} (positive : 0 < t) (several : t < w)
    (tile : ℤ → Bool → Bool → Program α Unit) {input : ℤ → α}
    (runs : ∀ i left right, (tile i left right).result input = some ())
    (select : Access α → Option δ) :
    (do
      tile 0 true false
      let _ ← forRange t (w - t) t fun i => tile i false false
      tile (w - t) false true : Program α Unit).collect select input =
      (tiles t w).flatMap fun i =>
        (tile i (decide (i = 0)) (decide (i + t = w))).collect select input := by
  have first : ¬ (0 : ℤ) + t = w := by omega
  have last : ¬ w - t = 0 := by omega
  have inner : ∀ i ∈ counters t (w - t) t, ¬ i = 0 ∧ ¬ i + t = w := by
    intro i listed
    obtain ⟨n, rfl, below⟩ := (mem_counters positive).mp listed
    have := mul_nonneg (Int.natCast_nonneg n) positive.le
    omega
  rw [collect_bind_of _ (runs _ _ _), collect_forRange_bind _ _ positive _ _ fun i => runs _ _ _]
  simp only [tiles, List.flatMap_cons, List.flatMap_append, List.flatMap_nil, List.append_nil,
    decide_true, first, last, decide_false, sub_add_cancel]
  congr 2
  refine List.flatMap_congr fun i listed => ?_
  simp only [inner i listed, decide_false]

end Program

end BufferProgram
