import ErodeTest.Neon.Kernel
import ErodeTest.Scalar.Erode

/-! # The NEON implementation

`erode3x3_neon` of `erode_neon.cc` produces the rows in pairs and ends with a
pair or, for an odd height, with a single row. A row of tiles is a first tile at
the left border, tiles eight columns apart, and a last tile moved back to end
with the row.

The erosion is right for every width (`paints_erode3x3_neon`). The inner tiles
load sixteen bytes for the ten they use, so on the last row they read past the
image unless the width modulo eight is zero or seven
(`erode3x3_neon_accesses_inside_iff`).
-/

namespace ErodeTest.Neon

open BufferProgram BufferProgram.Program Morphology

/-- The tiles of one row or pair of rows; the source writes this out for the top
pair, the middle pairs and what is left over. -/
def tileRow (held : U8x16) (in_data out_data w : ℤ) (parallel_2_rows top bottom : Bool) :
    Program UInt8 Unit := do
  erode3x3_neon_kernel held in_data out_data w parallel_2_rows true top false bottom
  let _ ← forRange 8 (w - 8) 8 fun i =>
    erode3x3_neon_kernel held (in_data + i) (out_data + i) w parallel_2_rows false top false bottom
  erode3x3_neon_kernel held (in_data + w - 8) (out_data + w - 8) w parallel_2_rows false top true
    bottom

/-- One round of the loop over the middle rows. -/
def middleRound (held : U8x16) (w : ℤ) (_j : ℤ) : ℤ × ℤ → Program UInt8 (ℤ × ℤ)
  | (in_data, out_data) => do
    tileRow held in_data out_data w true false false
    pure (in_data + 2 * w, out_data + 2 * w)

/-- `erode3x3_neon` of `erode_neon.cc`. -/
def erode3x3_neon (held : U8x16) (in_data out_data w h : ℤ) : Program UInt8 Unit := do
  assert (w ≥ 16)
  assert (h > 2)
  tileRow held in_data out_data w true true false
  let in_data := in_data + 2 * w
  let out_data := out_data + 2 * w
  let (j, in_data, out_data) ← forLoop 2 (h - 2) 2 (in_data, out_data) (middleRound held w)
  let two_rows := decide (j = h - 2)
  tileRow held in_data out_data w two_rows false true

/-! ## Rows of tiles -/

section Row

variable (held : U8x16) (input : ℤ → UInt8)

theorem result_tileRow (in_data out_data w : ℤ) (parallel_2_rows top bottom : Bool) :
    (tileRow held in_data out_data w parallel_2_rows top bottom).result input = some () := by
  simp [tileRow, result_bind_of (result_kernel _ _ _ _ _ _ _ _ _ _), result_kernel]

theorem collect_tileRow {δ : Type} {w : ℤ} (wide : 16 ≤ w) (select : Access UInt8 → Option δ)
    (in_data out_data : ℤ) (parallel_2_rows top bottom : Bool) :
    (tileRow held in_data out_data w parallel_2_rows top bottom).collect select input =
      (tiles 8 w).flatMap fun i =>
        (erode3x3_neon_kernel held (in_data + i) (out_data + i) w parallel_2_rows
          (decide (i = 0)) top (decide (i + 8 = w)) bottom).collect select input := by
  have line := collect_tileLine (by decide) (by omega : 8 < w)
    (fun i left right =>
      erode3x3_neon_kernel held (in_data + i) (out_data + i) w parallel_2_rows left top right
        bottom)
    (fun i left right => result_kernel held _ _ w parallel_2_rows left top right bottom input)
    select
  simpa only [tileRow, add_zero, ← add_sub_assoc] using line

end Row

/-! ## Pairs of rows -/

/-- The first rows of the pairs, and the row or pair left over. -/
def rowPairs (h : ℤ) : List ℤ := 0 :: (counters 2 (h - 2) 2 ++ [final 2 (h - 2) 2])

section Pairs

variable {h : ℤ} (tall : 2 < h)

include tall

/-- What is left over is one of the last two rows. -/
theorem final_rows : 2 ≤ final 2 (h - 2) 2 ∧ h - 2 ≤ final 2 (h - 2) 2 ∧
    final 2 (h - 2) 2 < h := by
  by_cases three : h = 3
  · rw [final_of_le (by decide) (by omega)]
    omega
  · have := final_bounds two_pos (by omega : 2 ≤ h - 2)
    omega

theorem rowPairs_inside {y : ℤ} (listed : y ∈ rowPairs h) : 0 ≤ y ∧ y < h := by
  have last := final_rows tall
  simp only [rowPairs, List.mem_cons, List.mem_append, mem_counters two_pos, List.not_mem_nil,
    or_false] at listed
  rcases listed with rfl | ⟨n, rfl, below⟩ | rfl <;> omega

/-- Every row is produced, as the first or the second row of a pair. -/
theorem rowPairs_cover {r : ℤ} (lower : 0 ≤ r) (upper : r < h) :
    ∃ y ∈ rowPairs h, r = y ∨ y + 2 ≤ h ∧ r = y + 1 := by
  have last := final_rows tall
  simp only [rowPairs, List.mem_cons, List.mem_append, List.not_mem_nil, or_false]
  by_cases first : r < 2
  · exact ⟨0, Or.inl rfl, by omega⟩
  by_cases left : final 2 (h - 2) 2 ≤ r
  · exact ⟨_, Or.inr (Or.inr rfl), by omega⟩
  have below : 2 + (((r - 2) / 2).toNat : ℤ) * 2 < h - 2 := by
    rw [← lt_trips_iff 2 (h - 2) two_pos]
    unfold final at left
    omega
  refine ⟨_, Or.inr (Or.inl ((mem_counters two_pos).mpr ⟨((r - 2) / 2).toNat, rfl, below⟩)), ?_⟩
  omega

end Pairs

/-! ## The whole image -/

section Image

variable {w h : ℤ} (wide : 16 ≤ w) (tall : 2 < h) (held : U8x16) (input : ℤ → UInt8)

/-- The tile of a pair of rows at a listed column is placed by its flags. -/
theorem placed_tile {w h x y : ℤ} (wide : 16 ≤ w) (tall : 2 < h) (listed : x ∈ tiles 8 w)
    (row : y ∈ rowPairs h) :
    Placed w h x y (decide (y + 2 ≤ h)) (decide (x = 0)) (decide (y = 0)) (decide (x + 8 = w))
      (decide (h ≤ y + 2)) where
  columns := tiles_inside (by decide) (by omega) listed
  wide := wide
  rows := rowPairs_inside tall row
  second := decide_eq_true_iff
  atLeft := decide_eq_true_iff
  atRight := decide_eq_true_iff
  atTop := decide_eq_true_iff
  atBottom := decide_eq_true_iff

/-- The row pointers of round `j` point at row `j`. -/
theorem result_middleRound (w j : ℤ) :
    (middleRound held w j (j * w, j * w)).result input = some ((j + 2) * w, (j + 2) * w) := by
  rw [middleRound, result_bind_of (result_tileRow _ _ _ _ _ _ _ _), result_pure]
  simp only [Option.some.injEq, Prod.mk.injEq]
  constructor <;> ring

/-- The row pointers after the loop point at the rows left over. -/
theorem result_middleRows (w h : ℤ) :
    (forLoop 2 (h - 2) 2 (0 + 2 * w, 0 + 2 * w) (middleRound held w)).result input =
      some (final 2 (h - 2) 2, final 2 (h - 2) 2 * w, final 2 (h - 2) 2 * w) := by
  have loop := result_forLoop 2 (h - 2) two_pos (middleRound held w) input
    (fun j => (j * w, j * w)) fun j _ => result_middleRound held input w j
  simpa only [zero_add] using loop

include wide tall

theorem result_erode3x3_neon : (erode3x3_neon held 0 0 w h).result input = some () := by
  rw [erode3x3_neon, result_assert_bind input wide, result_assert_bind input tall,
    result_bind_of (result_tileRow _ _ _ _ _ _ _ _),
    result_bind_of (result_middleRows held input w h)]
  exact result_tileRow _ _ _ _ _ _ _ _

/-- The accesses of a call are those of the tiles of all pairs of rows, each tile with the
flags its place calls for. -/
theorem collect_erode3x3_neon {δ : Type} (select : Access UInt8 → Option δ) :
    (erode3x3_neon held 0 0 w h).collect select input =
      (rowPairs h).flatMap fun y => (tiles 8 w).flatMap fun x =>
        (erode3x3_neon_kernel held (y * w + x) (y * w + x) w (decide (y + 2 ≤ h)) (decide (x = 0))
          (decide (y = 0)) (decide (x + 8 = w)) (decide (h ≤ y + 2))).collect select input := by
  have last := final_rows tall
  have inner : ∀ j ∈ counters 2 (h - 2) 2, j + 2 ≤ h ∧ ¬ j = 0 ∧ ¬ h ≤ j + 2 := by
    intro j listed
    obtain ⟨n, rfl, below⟩ := (mem_counters two_pos).mp listed
    omega
  have top : (0 : ℤ) + 2 ≤ h ∧ ¬ h ≤ 0 + 2 := by omega
  have bottom : ¬ final 2 (h - 2) 2 = 0 ∧ h ≤ final 2 (h - 2) 2 + 2 := by omega
  have pair : decide (final 2 (h - 2) 2 + 2 ≤ h) = decide (final 2 (h - 2) 2 = h - 2) :=
    decide_eq_decide.mpr (by omega)
  have loop := collect_forLoop 2 (h - 2) two_pos (middleRound held w) input
    (fun j => (j * w, j * w)) (fun j _ => result_middleRound held input w j) select
  simp only [middleRound, collect_bind_of select (result_tileRow held input _ _ _ _ _ _),
    collect_pure, List.append_nil] at loop
  rw [erode3x3_neon, collect_assert_bind select input wide, collect_assert_bind select input tall,
    collect_bind_of select (result_tileRow _ _ _ _ _ _ _ _),
    collect_bind_of select (result_middleRows held input w h), zero_add, loop]
  simp only [collect_tileRow held input wide, rowPairs, List.flatMap_cons, List.flatMap_append,
    List.flatMap_nil, List.append_nil, zero_mul, decide_true, pair, top, bottom, decide_false]
  congr 2
  refine List.flatMap_congr fun j listed => ?_
  simp only [inner j listed, decide_true, decide_false]

/-- **The NEON implementation erodes.** -/
theorem paints_erode3x3_neon :
    Paints ((erode3x3_neon held 0 0 w h).stores input) w (frame w h)
      (erosion (raster input w) w h) := by
  have rows : ∀ y ∈ rowPairs h,
      Paints ((tiles 8 w).flatMap fun x =>
        (erode3x3_neon_kernel held (y * w + x) (y * w + x) w (decide (y + 2 ≤ h)) (decide (x = 0))
          (decide (y = 0)) (decide (x + 8 = w)) (decide (h ≤ y + 2))).stores input) w
        {pixel | ∃ x ∈ tiles 8 w, (x ≤ pixel.1 ∧ pixel.1 < x + 8) ∧
          (pixel.2 = y ∨ decide (y + 2 ≤ h) = true ∧ pixel.2 = y + 1)}
        (erosion (raster input w) w h) := by
    intro y row
    exact Paints.flatMap _ fun x listed =>
      paints_kernel (placed_tile wide tall listed row) input held
  simp only [collect_erode3x3_neon wide tall]
  refine (Paints.flatMap _ rows).region_congr (Set.ext fun pixel => ?_)
  simp only [Set.mem_ofPred_eq, mem_frame, decide_eq_true_iff]
  constructor
  · rintro ⟨y, row, x, listed, column, produced⟩
    have := tiles_inside (by decide) (by omega) listed
    have := rowPairs_inside tall row
    omega
  · rintro ⟨left, right, above, below⟩
    obtain ⟨x, listed, column⟩ := tiles_cover (t := 8) (by decide) left right
    obtain ⟨y, row, produced⟩ := rowPairs_cover tall above below
    exact ⟨y, row, x, listed, column, produced⟩

/-- **NEON and scalar implementation agree.** Both calls return, and whatever
the output buffers held before and whatever lies outside the image, they leave
the same image. -/
theorem erode3x3_neon_eq_erode3x3 {image : ℤ → UInt8}
    (same : ∀ k, 0 ≤ k → k < w * h → input k = image k) (neonContent scalarContent : ℤ → UInt8) :
    (erode3x3_neon held 0 0 w h).result input = some () ∧
      (Scalar.erode3x3 0 0 w h).result image = some () ∧
      ∀ k, 0 ≤ k → k < w * h →
        replay ((erode3x3_neon held 0 0 w h).stores input) neonContent k =
          replay ((Scalar.erode3x3 0 0 w h).stores image) scalarContent k := by
  refine ⟨result_erode3x3_neon wide tall held input,
    Scalar.result_erode3x3 (by omega) (by omega) image, fun k lower upper => ?_⟩
  have paints := (paints_erode3x3_neon wide tall held input).value_congr
    fun pixel inside => erosion_raster_congr same inside
  exact paints.replay_eq (Scalar.paints_erode3x3 (by omega) (by omega) image) (by omega) _ _
    lower upper

end Image

/-- One row is left over and the last tile starts one column after the first; the bytes
outside the image differ. -/
theorem erode3x3_neon_eq_erode3x3_seventeen_wide :
    replay ((erode3x3_neon (fun _ => 0) 0 0 17 3).stores fun k =>
      if k < 51 then UInt8.ofNat (99 - k.toNat) else 0) (fun _ => 0) 50 = 49 :=
  ((erode3x3_neon_eq_erode3x3 (by decide : (16 : ℤ) ≤ 17) (by decide : (2 : ℤ) < 3) (fun _ => 0)
    (fun k => if k < 51 then UInt8.ofNat (99 - k.toNat) else 0)
    (fun _ _ upper => if_pos upper) (fun _ => 0) fun _ => 0).2.2 50 (by decide)
      (by decide)).trans (by decide)

section Bounds

variable {w h : ℤ} (wide : 16 ≤ w) (tall : 2 < h) (held : U8x16) (input : ℤ → UInt8)

/-- The inner tiles end seven columns before the right border for two residues of the width. -/
theorem inner_tiles_fit_iff {w : ℤ} (wide : 16 ≤ w) :
    (∀ x ∈ counters 8 (w - 8) 8, x + 15 ≤ w) ↔ w % 8 = 0 ∨ w % 8 = 7 := by
  simp only [mem_counters (by decide : (0 : ℤ) < 8)]
  constructor
  · intro fits
    by_contra residue
    have := fits (w - w % 8 - 8) ⟨((w - 16) / 8).toNat, by omega, by omega⟩
    omega
  · rintro residue x ⟨n, rfl, below⟩
    omega

include wide tall

/-- **When the NEON implementation stays inside its buffers.** It never writes
outside the output image; it reads the input image only when the width modulo
eight is zero or seven. -/
theorem erode3x3_neon_accesses_inside_iff :
    ((∀ k ∈ (erode3x3_neon held 0 0 w h).loads input, 0 ≤ k ∧ k < w * h) ∧
        ∀ k v, (k, v) ∈ (erode3x3_neon held 0 0 w h).stores input → 0 ≤ k ∧ k < w * h) ↔
      w % 8 = 0 ∨ w % 8 = 7 := by
  rw [← inner_tiles_fit_iff wide]
  have last := final_rows tall
  have tile {x y : ℤ} (listed : x ∈ tiles 8 w) (row : y ∈ rowPairs h) :=
    loads_kernel_inside_iff (placed_tile wide tall listed row) input held
  simp only [collect_erode3x3_neon wide tall, List.mem_flatMap]
  constructor
  · rintro ⟨inside, _⟩ x listed
    have inner : x ∈ tiles 8 w := by simp [tiles, listed]
    have row : final 2 (h - 2) 2 ∈ rowPairs h := by simp [rowPairs]
    obtain ⟨n, rfl, below⟩ := (mem_counters (by decide)).mp listed
    refine (tile inner row).mp (fun k read => inside k ⟨_, row, _, inner, read⟩) ?_ ?_ (by omega)
    · exact decide_eq_false (by omega)
    · exact decide_eq_false (by omega)
  · intro fits
    constructor
    · rintro k ⟨y, row, x, listed, read⟩
      refine (tile listed row).mpr (fun notLeft notRight _ => fits x ?_) k read
      simp only [tiles, List.mem_cons, List.mem_append, List.not_mem_nil, or_false] at listed
      simp only [decide_eq_false_iff_not] at notLeft notRight
      rcases listed with rfl | listed | rfl
      · omega
      · exact listed
      · omega
    · intro k v written
      simp only [← List.mem_flatMap, ← collect_erode3x3_neon wide tall] at written
      obtain ⟨pixel, inside, rfl, _⟩ := (paints_erode3x3_neon wide tall held input k v).mp written
      exact address_bounds inside

end Bounds

theorem erode3x3_neon_accesses_inside_iff_twenty_three_wide :
    ((erode3x3_neon (fun _ => 0) 0 0 23 3).loads fun _ => 0).all
      (fun k => 0 ≤ k ∧ k < 69) = true :=
  List.all_eq_true.mpr fun k read => decide_eq_true
    (((erode3x3_neon_accesses_inside_iff (by decide : (16 : ℤ) ≤ 23) (by decide : (2 : ℤ) < 3)
      (fun _ => 0) fun _ => 0).mpr (by decide)).1 k read)

/-- At width seventeen the inner tile reads six bytes past the image. -/
theorem erode3x3_neon_reads_past_the_image :
    ¬ ((∀ k ∈ (erode3x3_neon (fun _ => 0) 0 0 17 3).loads fun _ => 0, 0 ≤ k ∧ k < 17 * 3) ∧
      ∀ k v, (k, v) ∈ (erode3x3_neon (fun _ => 0) 0 0 17 3).stores (fun _ => 0) →
        0 ≤ k ∧ k < 17 * 3) := by
  intro inside
  have past := (inside.1 56 (by decide)).2
  omega

end ErodeTest.Neon
