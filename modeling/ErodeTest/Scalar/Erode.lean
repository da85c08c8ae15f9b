import ErodeTest.Foundation.Packed
import ErodeTest.Foundation.Program
import ErodeTest.Foundation.Raster

/-! # The scalar implementation

`erode3x3` of `erode.cc`, the reference the other back ends are compared with.
It treats the top row, the middle rows and the bottom row separately, and in
each of them the left column, the inner columns and the right column. The right
column is reached with the counter of the inner loop.

Buffers are addressed from their first byte, so the row pointers `in_data` and
`out_data` are integers that grow by `w` from row to row.
-/

namespace ErodeTest.Scalar

open BufferProgram BufferProgram.Program Morphology

/-- The byte minimum of `erode.cc`. -/
def min (a b : UInt8) : UInt8 := if a < b then a else b

theorem min_eq (a b : UInt8) : min a b = Min.min a b := (min_def_lt a b).symm

/-- The top row, which has no row above. -/
def topRow (in_data out_data w : ℤ) : Program UInt8 Unit := do
  let tmp1 := min (← loadAt in_data [0]) (← loadAt in_data [1])
  let tmp2 := min (← loadAt in_data [w]) (← loadAt in_data [w, 1])
  storeAt out_data [0] (min tmp1 tmp2)
  let _ ← index [w, -1]
  let i ← forRange 1 (w - 1) 1 fun i => do
    let tmp1 := min (min (← loadAt in_data [i, -1]) (← loadAt in_data [i])) (← loadAt in_data [i, 1])
    let tmp2 := min (min (← loadAt in_data [i, w, -1]) (← loadAt in_data [i, w]))
      (← loadAt in_data [i, w, 1])
    storeAt out_data [i] (min tmp1 tmp2)
    let _ ← index [i, 1]
  let tmp1 := min (← loadAt in_data [i, -1]) (← loadAt in_data [i])
  let tmp2 := min (← loadAt in_data [i, w, -1]) (← loadAt in_data [i, w])
  storeAt out_data [i] (min tmp1 tmp2)

/-- One middle row. -/
def middleRow (in_data out_data w : ℤ) : Program UInt8 Unit := do
  let tmp1 := min (← loadAt in_data [-w]) (← loadAt in_data [-w, 1])
  let tmp2 := min (← loadAt in_data [0]) (← loadAt in_data [1])
  let tmp1 := min tmp1 tmp2
  let tmp2 := min (← loadAt in_data [w]) (← loadAt in_data [w, 1])
  storeAt out_data [0] (min tmp1 tmp2)
  let _ ← index [w, -1]
  let i ← forRange 1 (w - 1) 1 fun i => do
    let tmp1 := min (min (← loadAt in_data [i, -w, -1]) (← loadAt in_data [i, -w]))
      (← loadAt in_data [i, -w, 1])
    let tmp2 := min (min (← loadAt in_data [i, -1]) (← loadAt in_data [i])) (← loadAt in_data [i, 1])
    let tmp1 := min tmp1 tmp2
    let tmp2 := min (min (← loadAt in_data [i, w, -1]) (← loadAt in_data [i, w]))
      (← loadAt in_data [i, w, 1])
    storeAt out_data [i] (min tmp1 tmp2)
    let _ ← index [i, 1]
  let tmp1 := min (← loadAt in_data [i, -w, -1]) (← loadAt in_data [i, -w])
  let tmp2 := min (← loadAt in_data [i, -1]) (← loadAt in_data [i])
  let tmp1 := min tmp1 tmp2
  let tmp2 := min (← loadAt in_data [i, w, -1]) (← loadAt in_data [i, w])
  storeAt out_data [i] (min tmp1 tmp2)

/-- The bottom row, which has no row below. -/
def bottomRow (in_data out_data w : ℤ) : Program UInt8 Unit := do
  let tmp1 := min (← loadAt in_data [-w]) (← loadAt in_data [-w, 1])
  let tmp2 := min (← loadAt in_data [0]) (← loadAt in_data [1])
  storeAt out_data [0] (min tmp1 tmp2)
  let _ ← index [w, -1]
  let i ← forRange 1 (w - 1) 1 fun i => do
    let tmp1 := min (min (← loadAt in_data [i, -w, -1]) (← loadAt in_data [i, -w]))
      (← loadAt in_data [i, -w, 1])
    let tmp2 := min (min (← loadAt in_data [i, -1]) (← loadAt in_data [i])) (← loadAt in_data [i, 1])
    storeAt out_data [i] (min tmp1 tmp2)
    let _ ← index [i, 1]
  let tmp1 := min (← loadAt in_data [i, -w, -1]) (← loadAt in_data [i, -w])
  let tmp2 := min (← loadAt in_data [i, -1]) (← loadAt in_data [i])
  storeAt out_data [i] (min tmp1 tmp2)

/-- One round of the loop over the middle rows, which carries the row pointers. -/
def middleRound (w j : ℤ) : ℤ × ℤ → Program UInt8 (ℤ × ℤ)
  | (in_data, out_data) => do
    middleRow in_data out_data w
    let _ ← index [j, 1]
    pure (in_data + w, out_data + w)

/-- `erode3x3` of `erode.cc`. -/
def erode3x3 (in_data out_data w h : ℤ) : Program UInt8 Unit := do
  assert (h ≥ 2)
  assert (w ≥ 2)
  topRow in_data out_data w
  let in_data := in_data + w
  let out_data := out_data + w
  let _ ← index [h, -1]
  let (_, in_data, out_data) ← forLoop 1 (h - 1) 1 (in_data, out_data) (middleRound w)
  bottomRow in_data out_data w

/-! ## The rows -/

section Rows

variable {w h : ℤ} (wide : 2 ≤ w) (input : ℤ → UInt8)

/-- The stores of one row: the left column, the inner columns, the right column. -/
def rowStores (out_data w : ℤ) (left : UInt8) (inner : ℤ → UInt8) (right : UInt8) :
    List (ℤ × UInt8) :=
  (out_data, left) ::
    ((counters 1 (w - 1) 1).flatMap (fun i => [(out_data + i, inner i)]) ++
      [(out_data + (w - 1), right)])

include wide

theorem paints_rowStores {y out_data : ℤ} {left right : UInt8} {inner : ℤ → UInt8}
    {value : ℤ × ℤ → UInt8} (start : out_data = y * w) (leftValue : left = value (0, y))
    (innerValue : ∀ i, 1 ≤ i → i < w - 1 → inner i = value (i, y))
    (rightValue : right = value (w - 1, y)) :
    Paints (rowStores out_data w left inner right) w
      {pixel | 0 ≤ pixel.1 ∧ pixel.1 < w ∧ pixel.2 = y} value := by
  subst start leftValue rightValue
  intro k v
  simp only [rowStores, List.mem_cons, Prod.mk.injEq, List.mem_append, List.mem_flatMap,
    mem_counters_one, List.not_mem_nil, or_false, address, Set.mem_ofPred_eq]
  constructor
  · rintro (⟨rfl, rfl⟩ | ⟨i, ⟨lower, upper⟩, rfl, rfl⟩ | ⟨rfl, rfl⟩)
    · exact ⟨(0, y), by simp; omega, by simp, rfl⟩
    · exact ⟨(i, y), by simp; omega, rfl, innerValue i lower upper⟩
    · exact ⟨(w - 1, y), by simp; omega, rfl, rfl⟩
  · rintro ⟨⟨x, _⟩, ⟨lower, upper, rfl⟩, rfl, rfl⟩
    dsimp only at lower upper ⊢
    by_cases first : x = 0
    · subst first
      exact Or.inl ⟨by ring, rfl⟩
    · by_cases last : x = w - 1
      · subst last
        exact Or.inr (Or.inr ⟨rfl, rfl⟩)
      · exact Or.inr (Or.inl ⟨x, by omega, rfl, (innerValue x (by omega) (by omega)).symm⟩)

theorem stores_topRow (in_data out_data : ℤ) :
    (topRow in_data out_data w).stores input = rowStores out_data w
      (min (min (input in_data) (input (in_data + 1)))
        (min (input (in_data + w)) (input (in_data + (w + 1)))))
      (fun i => min
        (min (min (input (in_data + (i + -1))) (input (in_data + i)))
          (input (in_data + (i + 1))))
        (min (min (input (in_data + (i + (w + -1)))) (input (in_data + (i + w))))
          (input (in_data + (i + (w + 1))))))
      (min (min (input (in_data + (w - 1 + -1))) (input (in_data + (w - 1))))
        (min (input (in_data + (w - 1 + (w + -1)))) (input (in_data + (w - 1 + w))))) := by
  simp [topRow, rowStores, final_one (by omega : 1 ≤ w - 1)]

theorem stores_middleRow (in_data out_data : ℤ) :
    (middleRow in_data out_data w).stores input = rowStores out_data w
      (min (min (min (input (in_data + -w)) (input (in_data + (-w + 1))))
          (min (input in_data) (input (in_data + 1))))
        (min (input (in_data + w)) (input (in_data + (w + 1)))))
      (fun i => min
        (min
          (min (min (input (in_data + (i + (-w + -1)))) (input (in_data + (i + -w))))
            (input (in_data + (i + (-w + 1)))))
          (min (min (input (in_data + (i + -1))) (input (in_data + i)))
            (input (in_data + (i + 1)))))
        (min (min (input (in_data + (i + (w + -1)))) (input (in_data + (i + w))))
          (input (in_data + (i + (w + 1))))))
      (min
        (min (min (input (in_data + (w - 1 + (-w + -1)))) (input (in_data + (w - 1 + -w))))
          (min (input (in_data + (w - 1 + -1))) (input (in_data + (w - 1)))))
        (min (input (in_data + (w - 1 + (w + -1)))) (input (in_data + (w - 1 + w))))) := by
  simp [middleRow, rowStores, final_one (by omega : 1 ≤ w - 1)]

theorem stores_bottomRow (in_data out_data : ℤ) :
    (bottomRow in_data out_data w).stores input = rowStores out_data w
      (min (min (input (in_data + -w)) (input (in_data + (-w + 1))))
        (min (input in_data) (input (in_data + 1))))
      (fun i => min
        (min (min (input (in_data + (i + (-w + -1)))) (input (in_data + (i + -w))))
          (input (in_data + (i + (-w + 1)))))
        (min (min (input (in_data + (i + -1))) (input (in_data + i)))
          (input (in_data + (i + 1)))))
      (min (min (input (in_data + (w - 1 + (-w + -1)))) (input (in_data + (w - 1 + -w))))
        (min (input (in_data + (w - 1 + -1))) (input (in_data + (w - 1))))) := by
  simp [bottomRow, rowStores, final_one (by omega : 1 ≤ w - 1)]

/-- The left column of a row looks at two pixels of it. -/
theorem minOver_left (y : ℤ) {a b : ℤ} (first : a = y * w) (second : b = y * w + 1) :
    MinOver (raster input w) (near w 0 ×ˢ {y}) (Min.min (input a) (input b)) := by
  have least := (MinOver.pixel (raster input w) 0 y).min_columns
    (MinOver.pixel (raster input w) 1 y)
  subst first second
  simp only [raster, address, add_zero] at least
  refine least.congr_prod (fun x => ?_) fun _ => Iff.rfl
  simp only [Set.mem_union, Set.mem_singleton_iff, mem_near]
  omega

/-- The right column of a row looks at two pixels of it. -/
theorem minOver_right (y : ℤ) {a b : ℤ} (first : a = y * w + (w - 2))
    (second : b = y * w + (w - 1)) :
    MinOver (raster input w) (near w (w - 1) ×ˢ {y}) (Min.min (input a) (input b)) := by
  have least := (MinOver.pixel (raster input w) (w - 2) y).min_columns
    (MinOver.pixel (raster input w) (w - 1) y)
  simp only [raster, address, ← first, ← second] at least
  refine least.congr_prod (fun x => ?_) fun _ => Iff.rfl
  simp only [Set.mem_union, Set.mem_singleton_iff, mem_near]
  omega

omit wide in
/-- An inner column of a row looks at three pixels of it. -/
theorem minOver_inner (y : ℤ) {i a b c : ℤ} (lower : 1 ≤ i) (upper : i < w - 1)
    (first : a = y * w + (i - 1)) (second : b = y * w + i) (third : c = y * w + (i + 1)) :
    MinOver (raster input w) (near w i ×ˢ {y})
      (Min.min (Min.min (input a) (input b)) (input c)) := by
  refine minOver_bytes input y _ _ _ first second third fun x => ?_
  rw [mem_near]
  omega

variable (tall : 2 ≤ h)

include tall

/-- The top row is painted with the erosion. -/
theorem paints_topRow :
    Paints ((topRow 0 0 w).stores input) w {pixel | 0 ≤ pixel.1 ∧ pixel.1 < w ∧ pixel.2 = 0}
      (erosion (raster input w) w h) := by
  have rows : ∀ j : ℤ, j ∈ ({0} ∪ {1} : Set ℤ) ↔ j ∈ near h 0 := by
    intro j
    simp only [Set.mem_union, Set.mem_singleton_iff, mem_near]
    omega
  simp only [stores_topRow wide, min_eq]
  apply paints_rowStores wide
  · ring
  · exact ((minOver_left wide input 0 (by ring) (by ring)).min_rows
      (minOver_left wide input 1 (by ring) (by ring))).eq_erosion_of_rows rows (by simp; omega)
  · intro i lower upper
    exact ((minOver_inner input 0 lower upper (by ring) (by ring) (by ring)).min_rows
      (minOver_inner input 1 lower upper (by ring) (by ring) (by ring))).eq_erosion_of_rows rows
        (by simp; omega)
  · exact ((minOver_right wide input 0 (by ring) (by ring)).min_rows
      (minOver_right wide input 1 (by ring) (by ring))).eq_erosion_of_rows rows (by simp; omega)

omit tall in
/-- A middle row is painted with the erosion. -/
theorem paints_middleRow {y : ℤ} (below : 1 ≤ y) (above : y < h - 1) :
    Paints ((middleRow (y * w) (y * w) w).stores input) w
      {pixel | 0 ≤ pixel.1 ∧ pixel.1 < w ∧ pixel.2 = y} (erosion (raster input w) w h) := by
  have rows : ∀ j : ℤ, j ∈ ({y - 1} ∪ {y} ∪ {y + 1} : Set ℤ) ↔ j ∈ near h y := by
    intro j
    simp only [Set.mem_union, Set.mem_singleton_iff, mem_near]
    omega
  simp only [stores_middleRow wide, min_eq]
  apply paints_rowStores wide
  · rfl
  · exact (((minOver_left wide input (y - 1) (by ring) (by ring)).min_rows
      (minOver_left wide input y (by ring) (by ring))).min_rows
        (minOver_left wide input (y + 1) (by ring) (by ring))).eq_erosion_of_rows rows
          (by simp; omega)
  · intro i lower upper
    exact (((minOver_inner input (y - 1) lower upper (by ring) (by ring) (by ring)).min_rows
      (minOver_inner input y lower upper (by ring) (by ring) (by ring))).min_rows
        (minOver_inner input (y + 1) lower upper (by ring) (by ring) (by ring))).eq_erosion_of_rows
          rows (by simp; omega)
  · exact (((minOver_right wide input (y - 1) (by ring) (by ring)).min_rows
      (minOver_right wide input y (by ring) (by ring))).min_rows
        (minOver_right wide input (y + 1) (by ring) (by ring))).eq_erosion_of_rows rows
          (by simp; omega)

/-- The bottom row is painted with the erosion. -/
theorem paints_bottomRow :
    Paints ((bottomRow ((h - 1) * w) ((h - 1) * w) w).stores input) w
      {pixel | 0 ≤ pixel.1 ∧ pixel.1 < w ∧ pixel.2 = h - 1} (erosion (raster input w) w h) := by
  have rows : ∀ j : ℤ, j ∈ ({h - 2} ∪ {h - 1} : Set ℤ) ↔ j ∈ near h (h - 1) := by
    intro j
    simp only [Set.mem_union, Set.mem_singleton_iff, mem_near]
    omega
  simp only [stores_bottomRow wide, min_eq]
  apply paints_rowStores wide
  · rfl
  · exact ((minOver_left wide input (h - 2) (by ring) (by ring)).min_rows
      (minOver_left wide input (h - 1) (by ring) (by ring))).eq_erosion_of_rows rows
        (by simp; omega)
  · intro i lower upper
    exact ((minOver_inner input (h - 2) lower upper (by ring) (by ring) (by ring)).min_rows
      (minOver_inner input (h - 1) lower upper (by ring) (by ring) (by ring))).eq_erosion_of_rows
        rows (by simp; omega)
  · exact ((minOver_right wide input (h - 2) (by ring) (by ring)).min_rows
      (minOver_right wide input (h - 1) (by ring) (by ring))).eq_erosion_of_rows rows
        (by simp; omega)

end Rows

/-! ## The whole image -/

section Image

variable {w h : ℤ} (wide : 2 ≤ w) (tall : 2 ≤ h) (input : ℤ → UInt8)

@[simp] theorem result_topRow (in_data out_data w : ℤ) (input : ℤ → UInt8) :
    (topRow in_data out_data w).result input = some () := by
  simp [topRow]

@[simp] theorem result_middleRow (in_data out_data w : ℤ) (input : ℤ → UInt8) :
    (middleRow in_data out_data w).result input = some () := by
  simp [middleRow]

@[simp] theorem result_bottomRow (in_data out_data w : ℤ) (input : ℤ → UInt8) :
    (bottomRow in_data out_data w).result input = some () := by
  simp [bottomRow]

/-- The row pointers of round `j` point at row `j`. -/
theorem result_middleRound (w j : ℤ) (input : ℤ → UInt8) :
    (middleRound w j (j * w, j * w)).result input = some ((j + 1) * w, (j + 1) * w) := by
  rw [middleRound, result_bind_of (result_middleRow _ _ _ _)]
  simp only [result_index_bind, result_pure, Option.some.injEq, Prod.mk.injEq]
  constructor <;> ring

include wide tall

omit wide in
/-- The row pointers after the loop point at the bottom row. -/
theorem result_middleRows :
    (forLoop 1 (h - 1) 1 (0 + w, 0 + w) (middleRound w)).result input =
      some (h - 1, (h - 1) * w, (h - 1) * w) := by
  have loop := result_forLoop 1 (h - 1) one_pos (middleRound w) input (fun j => (j * w, j * w))
    fun j _ => result_middleRound w j input
  rw [final_one (by omega)] at loop
  simpa only [one_mul, zero_add] using loop

theorem result_erode3x3 : (erode3x3 0 0 w h).result input = some () := by
  rw [erode3x3, result_assert_bind input tall, result_assert_bind input wide,
    result_bind_of (result_topRow _ _ _ _), result_index_bind,
    result_bind_of (result_middleRows tall input)]
  exact result_bottomRow _ _ _ _

/-- The accesses of a call are those of the rows from top to bottom. -/
theorem collect_erode3x3 {δ : Type} (select : Access UInt8 → Option δ) :
    (erode3x3 0 0 w h).collect select input =
      (topRow 0 0 w).collect select input ++
        ((index [h, -1]).collect select input ++
          (((counters 1 (h - 1) 1).flatMap fun j =>
              (middleRound w j (j * w, j * w)).collect select input) ++
            (bottomRow ((h - 1) * w) ((h - 1) * w) w).collect select input)) := by
  have loop := collect_forLoop 1 (h - 1) one_pos (middleRound w) input (fun j => (j * w, j * w))
    (fun j _ => result_middleRound w j input) select
  simp only [one_mul] at loop
  rw [erode3x3, collect_assert_bind select input tall, collect_assert_bind select input wide,
    collect_bind_of select (result_topRow _ _ _ _), collect_index_bind,
    collect_bind_of select (result_middleRows tall input), zero_add, loop]

/-- **The scalar implementation erodes.** -/
theorem paints_erode3x3 :
    Paints ((erode3x3 0 0 w h).stores input) w (frame w h) (erosion (raster input w) w h) := by
  have middle : ∀ j ∈ counters 1 (h - 1) 1,
      Paints ((middleRound w j (j * w, j * w)).stores input) w
        {pixel | 0 ≤ pixel.1 ∧ pixel.1 < w ∧ pixel.2 = j} (erosion (raster input w) w h) := by
    intro j listed
    rw [mem_counters_one] at listed
    rw [middleRound, stores, collect_bind_of _ (result_middleRow _ _ _ _)]
    simpa using paints_middleRow wide input listed.1 listed.2
  simp only [collect_erode3x3 wide tall, stores_index, List.nil_append]
  refine ((paints_topRow wide input tall).append ((Paints.flatMap _ middle).append
    (paints_bottomRow wide input tall))).region_congr (Set.ext fun pixel => ?_)
  simp only [mem_counters_one, Set.mem_union, Set.mem_ofPred_eq, mem_frame]
  constructor
  · rintro (row | ⟨j, listed, row⟩ | row) <;> omega
  · intro inside
    by_cases top : pixel.2 = 0
    · exact Or.inl ⟨inside.1, inside.2.1, top⟩
    · by_cases bottom : pixel.2 = h - 1
      · exact Or.inr (Or.inr ⟨inside.1, inside.2.1, bottom⟩)
      · exact Or.inr (Or.inl ⟨pixel.2, by omega, inside.1, inside.2.1, rfl⟩)

/-- **The scalar implementation leaves the window minima.** Every output byte
is the least of the input bytes of its neighbourhood, which is also the least of
the nine neighbours with clamped coordinates; every byte of the image is
written and no other. -/
theorem erode3x3_window_minimum (content : ℤ → UInt8) :
    (erode3x3 0 0 w h).result input = some () ∧
      (∀ x y, 0 ≤ x → x < w → 0 ≤ y → y < h →
        IsLeast {b | ∃ x' y', 0 ≤ x' ∧ x' < w ∧ 0 ≤ y' ∧ y' < h ∧ |x' - x| ≤ 1 ∧ |y' - y| ≤ 1 ∧
            b = input (y' * w + x')}
          (replay ((erode3x3 0 0 w h).stores input) content (y * w + x)) ∧
        replay ((erode3x3 0 0 w h).stores input) content (y * w + x) =
          min3 fun dy => min3 fun dx => input (clamp h (y + dy) * w + clamp w (x + dx))) ∧
      (∀ k, 0 ≤ k → k < w * h → ∃ v, (k, v) ∈ (erode3x3 0 0 w h).stores input) ∧
      ∀ k v, (k, v) ∈ (erode3x3 0 0 w h).stores input → 0 ≤ k ∧ k < w * h := by
  have paints := paints_erode3x3 wide tall input
  refine ⟨result_erode3x3 wide tall input, ?_, ?_, ?_⟩
  · intro x y left right top bottom
    have inside : (x, y) ∈ frame w h := ⟨left, right, top, bottom⟩
    have value := paints.replay_inside (fun pixel member => ⟨member.1, member.2.1⟩) content inside
    have least := minOver_erosion (raster input w) inside
    rw [← value, MinOver, raster_image_window] at least
    exact ⟨least, value⟩
  · intro k lower upper
    obtain ⟨pixel, inside, rfl⟩ := exists_pixel lower upper (by omega)
    exact ⟨_, (paints _ _).mpr ⟨pixel, inside, rfl, rfl⟩⟩
  · intro k v member
    obtain ⟨pixel, inside, rfl, _⟩ := (paints k v).mp member
    exact address_bounds inside

end Image

/-- On a three by two image the middle pixel of the top row becomes the least byte. -/
theorem erode3x3_window_minimum_three_by_two :
    replay ((erode3x3 0 0 3 2).stores fun k => UInt8.ofNat (9 - k.toNat)) (fun _ => 0) 1 = 4 :=
  ((erode3x3_window_minimum (by decide : (2 : ℤ) ≤ 3) (by decide : (2 : ℤ) ≤ 2)
    (fun k => UInt8.ofNat (9 - k.toNat)) fun _ => 0).2.1 1 0 (by decide) (by decide) (by decide)
      (by decide)).2.trans (by decide)

end ErodeTest.Scalar
