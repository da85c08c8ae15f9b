import ErodeTest.Scalar.Erode
import ErodeTest.Sse.Kernel

/-! # The SSE implementation

`erode3x3_sse` of `erode_sse.cc` walks the rows from top to bottom. A row is a
first tile at the left border, tiles sixteen columns apart, and a last tile
moved back to end with the row; the last tile overwrites part of the previous
one unless the width is a multiple of sixteen.
-/

namespace ErodeTest.Sse

open BufferProgram BufferProgram.Program Morphology

/-- The tiles of one row; the source writes this out for the top row, the
middle rows and the bottom row. -/
def tileRow (held : M128i) (in_data out_data w : ℤ) (top bottom : Bool) :
    Program UInt8 Unit := do
  erode3x3_sse_kernel held in_data out_data w true top false bottom
  let _ ← forRange 16 (w - 16) 16 fun i =>
    erode3x3_sse_kernel held (in_data + i) (out_data + i) w false top false bottom
  erode3x3_sse_kernel held (in_data + w - 16) (out_data + w - 16) w false top true bottom

/-- One round of the loop over the middle rows. -/
def middleRound (held : M128i) (w : ℤ) (_j : ℤ) : ℤ × ℤ → Program UInt8 (ℤ × ℤ)
  | (in_data, out_data) => do
    tileRow held in_data out_data w false false
    pure (in_data + w, out_data + w)

/-- `erode3x3_sse` of `erode_sse.cc`. -/
def erode3x3_sse (held : M128i) (in_data out_data w h : ℤ) : Program UInt8 Unit := do
  assert (w > 16)
  assert (h ≥ 2)
  tileRow held in_data out_data w true false
  let in_data := in_data + w
  let out_data := out_data + w
  let (_, in_data, out_data) ← forLoop 1 (h - 1) 1 (in_data, out_data) (middleRound held w)
  tileRow held in_data out_data w false true

/-! ## Rows of tiles -/

section Row

variable (held : M128i) (input : ℤ → UInt8)

theorem result_tileRow (in_data out_data w : ℤ) (top bottom : Bool) :
    (tileRow held in_data out_data w top bottom).result input = some () := by
  simp [tileRow, result_bind_of (result_kernel _ _ _ _ _ _ _ _ _), result_kernel]

variable {w : ℤ} (wide : 16 < w)

include wide

/-- The accesses of a row are those of its tiles; a tile's flags are read off
its column. -/
theorem collect_tileRow {δ : Type} (select : Access UInt8 → Option δ) (in_data out_data : ℤ)
    (top bottom : Bool) :
    (tileRow held in_data out_data w top bottom).collect select input =
      (tiles 16 w).flatMap fun i =>
        (erode3x3_sse_kernel held (in_data + i) (out_data + i) w (decide (i = 0)) top
          (decide (i + 16 = w)) bottom).collect select input := by
  have line := collect_tileLine (by decide) wide
    (fun i left right =>
      erode3x3_sse_kernel held (in_data + i) (out_data + i) w left top right bottom)
    (fun i left right => result_kernel held _ _ w left top right bottom input) select
  simpa only [tileRow, add_zero, ← add_sub_assoc] using line

end Row

/-! ## The whole image -/

section Image

variable {w h : ℤ} (wide : 16 < w) (tall : 2 ≤ h) (held : M128i) (input : ℤ → UInt8)

/-- The tile of a row at a listed column is placed by its flags. -/
theorem placed_tile {w h x y : ℤ} (wide : 16 < w) (tall : 2 ≤ h) (listed : x ∈ tiles 16 w)
    (above : 0 ≤ y) (below : y < h) :
    Placed w h x y (decide (x = 0)) (decide (y = 0)) (decide (x + 16 = w))
      (decide (y + 1 = h)) where
  columns := tiles_inside (by decide) wide.le listed
  rows := ⟨above, below⟩
  tall := tall
  atLeft := decide_eq_true_iff
  atRight := decide_eq_true_iff
  atTop := decide_eq_true_iff
  atBottom := decide_eq_true_iff

/-- The row pointers of round `j` point at row `j`. -/
theorem result_middleRound (w j : ℤ) :
    (middleRound held w j (j * w, j * w)).result input = some ((j + 1) * w, (j + 1) * w) := by
  rw [middleRound, result_bind_of (result_tileRow _ _ _ _ _ _ _), result_pure]
  simp only [Option.some.injEq, Prod.mk.injEq]
  constructor <;> ring

include tall

/-- The row pointers after the loop point at the bottom row. -/
theorem result_middleRows :
    (forLoop 1 (h - 1) 1 (0 + w, 0 + w) (middleRound held w)).result input =
      some (h - 1, (h - 1) * w, (h - 1) * w) := by
  have loop := result_forLoop 1 (h - 1) one_pos (middleRound held w) input
    (fun j => (j * w, j * w)) fun j _ => result_middleRound held input w j
  rw [final_one (by omega)] at loop
  simpa only [one_mul, zero_add] using loop

include wide

theorem result_erode3x3_sse : (erode3x3_sse held 0 0 w h).result input = some () := by
  rw [erode3x3_sse, result_assert_bind input wide, result_assert_bind input tall,
    result_bind_of (result_tileRow _ _ _ _ _ _ _),
    result_bind_of (result_middleRows tall held input)]
  exact result_tileRow _ _ _ _ _ _ _

/-- The accesses of a call are those of the tiles of all rows, each tile with
the flags its place calls for. -/
theorem collect_erode3x3_sse {δ : Type} (select : Access UInt8 → Option δ) :
    (erode3x3_sse held 0 0 w h).collect select input =
      (counters 0 h 1).flatMap fun y => (tiles 16 w).flatMap fun x =>
        (erode3x3_sse_kernel held (y * w + x) (y * w + x) w (decide (x = 0)) (decide (y = 0))
          (decide (x + 16 = w)) (decide (y + 1 = h))).collect select input := by
  have inner : ∀ j ∈ counters 1 (h - 1) 1, ¬ j = 0 ∧ ¬ j + 1 = h := by
    intro j listed
    rw [mem_counters_one] at listed
    omega
  have top : ¬ (0 : ℤ) + 1 = h := by omega
  have bottom : ¬ h - 1 = 0 := by omega
  have loop := collect_forLoop 1 (h - 1) one_pos (middleRound held w) input
    (fun j => (j * w, j * w)) (fun j _ => result_middleRound held input w j) select
  simp only [one_mul, middleRound, collect_bind_of select (result_tileRow held input _ _ _ _ _),
    collect_pure, List.append_nil] at loop
  rw [erode3x3_sse, collect_assert_bind select input wide, collect_assert_bind select input tall,
    collect_bind_of select (result_tileRow _ _ _ _ _ _ _),
    collect_bind_of select (result_middleRows tall held input), zero_add, loop,
    counters_ends tall]
  simp only [collect_tileRow held input wide, List.flatMap_cons, List.flatMap_append,
    List.flatMap_nil, List.append_nil, zero_mul, decide_true, sub_add_cancel, top, bottom,
    decide_false]
  congr 2
  refine List.flatMap_congr fun j listed => ?_
  simp only [inner j listed, decide_false]

/-- **The SSE implementation erodes.** -/
theorem paints_erode3x3_sse :
    Paints ((erode3x3_sse held 0 0 w h).stores input) w (frame w h)
      (erosion (raster input w) w h) := by
  have rows : ∀ y ∈ counters 0 h 1,
      Paints ((tiles 16 w).flatMap fun x =>
        (erode3x3_sse_kernel held (y * w + x) (y * w + x) w (decide (x = 0)) (decide (y = 0))
          (decide (x + 16 = w)) (decide (y + 1 = h))).stores input) w
        {pixel | ∃ x ∈ tiles 16 w, (x ≤ pixel.1 ∧ pixel.1 < x + 16) ∧ pixel.2 = y}
        (erosion (raster input w) w h) := by
    intro y row
    rw [mem_counters_one] at row
    exact Paints.flatMap _ fun x listed =>
      paints_kernel (placed_tile wide tall listed row.1 row.2) input held
  simp only [collect_erode3x3_sse wide tall]
  refine (Paints.flatMap _ rows).region_congr (Set.ext fun pixel => ?_)
  simp only [mem_counters_one, Set.mem_ofPred_eq, mem_frame]
  constructor
  · rintro ⟨y, row, x, listed, column, rfl⟩
    have := tiles_inside (by decide) wide.le listed
    omega
  · rintro ⟨left, right, above, below⟩
    obtain ⟨x, listed, column⟩ := tiles_cover (t := 16) (by decide) left right
    exact ⟨pixel.2, ⟨above, below⟩, x, listed, column, rfl⟩

/-- **SSE and scalar implementation agree.** Both calls return, and whatever
the output buffers held before, they hold the same image afterwards. -/
theorem erode3x3_sse_eq_erode3x3 (sseContent scalarContent : ℤ → UInt8) :
    (erode3x3_sse held 0 0 w h).result input = some () ∧
      (Scalar.erode3x3 0 0 w h).result input = some () ∧
      ∀ k, 0 ≤ k → k < w * h →
        replay ((erode3x3_sse held 0 0 w h).stores input) sseContent k =
          replay ((Scalar.erode3x3 0 0 w h).stores input) scalarContent k := by
  refine ⟨result_erode3x3_sse wide tall held input,
    Scalar.result_erode3x3 (by omega) tall input, fun k lower upper => ?_⟩
  exact (paints_erode3x3_sse wide tall held input).replay_eq
    (Scalar.paints_erode3x3 (by omega) tall input) (by omega) _ _ lower upper

end Image

/-- At the least width the last tile starts one column after the first. -/
theorem erode3x3_sse_eq_erode3x3_seventeen_wide :
    replay ((erode3x3_sse (fun _ => 0) 0 0 17 2).stores fun k => UInt8.ofNat (99 - k.toNat))
      (fun _ => 0) 16 = 66 :=
  ((erode3x3_sse_eq_erode3x3 (by decide : (16 : ℤ) < 17) (by decide : (2 : ℤ) ≤ 2) (fun _ => 0)
    (fun k => UInt8.ofNat (99 - k.toNat)) (fun _ => 0) fun _ => 0).2.2 16 (by decide)
      (by decide)).trans (by decide)

section Bounds

variable {w h : ℤ} (wide : 16 < w) (tall : 2 ≤ h) (held : M128i) (input : ℤ → UInt8)

include wide tall

/-- **Every access of the SSE implementation is inside its buffer.** -/
theorem erode3x3_sse_accesses_inside :
    (∀ k ∈ (erode3x3_sse held 0 0 w h).loads input, 0 ≤ k ∧ k < w * h) ∧
      ∀ k v, (k, v) ∈ (erode3x3_sse held 0 0 w h).stores input → 0 ≤ k ∧ k < w * h := by
  constructor
  · intro k read
    simp only [collect_erode3x3_sse wide tall, List.mem_flatMap, mem_counters_one] at read
    obtain ⟨y, row, x, listed, read⟩ := read
    exact loads_kernel_inside (placed_tile wide tall listed row.1 row.2) input held read
  · intro k v written
    obtain ⟨pixel, inside, rfl, _⟩ := (paints_erode3x3_sse wide tall held input k v).mp written
    exact address_bounds inside

end Bounds

theorem erode3x3_sse_accesses_inside_seventeen_wide :
    ((erode3x3_sse (fun _ => 0) 0 0 17 2).loads fun _ => 0).all
      (fun k => 0 ≤ k ∧ k < 34) = true :=
  List.all_eq_true.mpr fun k read => decide_eq_true
    ((erode3x3_sse_accesses_inside (by decide : (16 : ℤ) < 17) (by decide : (2 : ℤ) ≤ 2)
      (fun _ => 0) fun _ => 0).1 k read)

end ErodeTest.Sse
