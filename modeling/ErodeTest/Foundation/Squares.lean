import ErodeTest.Foundation.Raster
import Mathlib.Data.Set.Lattice
import Mathlib.Order.MinMax

/-! # Erosion by larger squares, and what it commutes with

Eroding an image by one square and the result by another erodes it by a square whose
radius is the sum (`Morphology.Eroded.comp`); a minimum of minima is the minimum over
the union of their pixels.

Erosion commutes with every map of pixels that takes the neighbourhood of a pixel to
that of its image (`Morphology.erosion_comp`), among them the symmetries of the frame,
and with every monotone map of values (`Morphology.erosion_map`).
-/

namespace Morphology

variable {ι κ α β : Type*} [LinearOrder α] [LinearOrder β]

namespace MinOver

/-- A minimum of minima is the minimum over the union. -/
theorem biUnion {image : ι → α} {middle : κ → α} {outer : Set κ} {inner : κ → Set ι} {value : α}
    (least : MinOver middle outer value)
    (each : ∀ k ∈ outer, MinOver image (inner k) (middle k)) :
    MinOver image (⋃ k ∈ outer, inner k) value := by
  obtain ⟨k, chosen, attained⟩ := least.exists_eq
  obtain ⟨i, seen, lowest⟩ := (each k chosen).exists_eq
  constructor
  · exact ⟨i, Set.mem_biUnion chosen seen, lowest.trans attained⟩
  · rintro _ ⟨i, member, rfl⟩
    obtain ⟨k, listed, near⟩ := Set.mem_iUnion₂.mp member
    exact (least.le_of_mem listed).trans ((each k listed).le_of_mem near)

/-- Only the values met matter, not where they are met. -/
theorem comp {image : ι → α} {support : Set κ} {value : α} {σ : κ → ι} :
    MinOver (image ∘ σ) support value ↔ MinOver image (σ '' support) value := by
  rw [MinOver, MinOver, Set.image_comp]

end MinOver

/-! ## Squares -/

/-- The coordinates of a line of `n` pixels at distance at most `r` from `i`. -/
def nearBy (r : ℕ) (n i : ℤ) : Set ℤ := {j | 0 ≤ j ∧ j < n ∧ i - r ≤ j ∧ j ≤ i + r}

@[simp] theorem mem_nearBy {r : ℕ} {n i j : ℤ} :
    j ∈ nearBy r n i ↔ 0 ≤ j ∧ j < n ∧ i - r ≤ j ∧ j ≤ i + r := Iff.rfl

/-- The square of radius `r` around a pixel, cut off at the image border. -/
def square (r : ℕ) (w h : ℤ) (pixel : ℤ × ℤ) : Set (ℤ × ℤ) :=
  nearBy r w pixel.1 ×ˢ nearBy r h pixel.2

@[simp] theorem mem_square {r : ℕ} {w h : ℤ} {pixel other : ℤ × ℤ} :
    other ∈ square r w h pixel ↔
      other.1 ∈ nearBy r w pixel.1 ∧ other.2 ∈ nearBy r h pixel.2 := Iff.rfl

/-- What is near something near is as near as both distances together. -/
theorem exists_nearBy_iff {r s : ℕ} {n i j : ℤ} (lower : 0 ≤ i) (upper : i < n) :
    (∃ m ∈ nearBy s n i, j ∈ nearBy r n m) ↔ j ∈ nearBy (r + s) n i := by
  simp only [mem_nearBy]
  constructor
  · rintro ⟨m, _, _⟩
    omega
  · intro near
    exact ⟨max (i - s) (min j (i + s)), by omega, by omega⟩

theorem biUnion_square {r s : ℕ} {w h : ℤ} {pixel : ℤ × ℤ} (inside : pixel ∈ frame w h) :
    ⋃ other ∈ square s w h pixel, square r w h other = square (r + s) w h pixel := by
  obtain ⟨left, right, top, bottom⟩ := inside
  ext found
  simp only [Set.mem_iUnion, mem_square, exists_prop, ← exists_nearBy_iff left right,
    ← exists_nearBy_iff top bottom, Prod.exists]
  constructor
  · rintro ⟨x, y, ⟨column, row⟩, near, close⟩
    exact ⟨⟨x, column, near⟩, y, row, close⟩
  · rintro ⟨⟨x, column, near⟩, y, row, close⟩
    exact ⟨x, y, ⟨column, row⟩, near, close⟩

theorem square_frame {r : ℕ} {w h : ℤ} {pixel other : ℤ × ℤ}
    (member : other ∈ square r w h pixel) : other ∈ frame w h := by
  simp only [mem_square, mem_nearBy] at member
  simp only [mem_frame]
  omega

/-! ## Eroded images -/

/-- The result is the image eroded by the square of radius `r`. -/
def Eroded (r : ℕ) (w h : ℤ) (image result : ℤ × ℤ → α) : Prop :=
  ∀ pixel ∈ frame w h, MinOver image (square r w h pixel) (result pixel)

namespace Eroded

variable {r s : ℕ} {w h : ℤ} {image middle result : ℤ × ℤ → α}

/-- An image is eroded by a single pixel. -/
theorem refl (w h : ℤ) (image : ℤ × ℤ → α) : Eroded 0 w h image image := by
  rintro ⟨x, y⟩ ⟨left, right, top, bottom⟩
  refine (MinOver.pixel image x y).congr_prod (fun i => ?_) fun j => ?_
  all_goals
    simp only [Set.mem_singleton_iff, mem_nearBy]
    omega

/-- **Radii add up.** -/
theorem comp (first : Eroded r w h image middle) (second : Eroded s w h middle result) :
    Eroded (r + s) w h image result := by
  intro pixel inside
  rw [← biUnion_square inside]
  exact (second pixel inside).biUnion fun other member => first other (square_frame member)

/-- Only the frame of the result matters. -/
theorem congr {other : ℤ × ℤ → α} (eroded : Eroded r w h image result)
    (same : ∀ pixel ∈ frame w h, result pixel = other pixel) : Eroded r w h image other :=
  fun pixel inside => same pixel inside ▸ eroded pixel inside

end Eroded

/-- Erosion by the three-by-three square has radius one. -/
theorem eroded_erosion (image : ℤ × ℤ → α) (w h : ℤ) : Eroded 1 w h image (erosion image w h) :=
  fun _ inside => minOver_erosion image inside

/-! ## Maps of pixels and of values -/

section Commutes

variable {w h w' h' : ℤ} {pixel : ℤ × ℤ}

/-- **Erosion commutes with maps of pixels** that take neighbourhoods to neighbourhoods. -/
theorem erosion_comp (image : ℤ × ℤ → α) {σ : ℤ × ℤ → ℤ × ℤ}
    (neighbours : σ '' window w' h' pixel = window w h (σ pixel))
    (inside : pixel ∈ frame w' h') (mapped : σ pixel ∈ frame w h) :
    erosion (image ∘ σ) w' h' pixel = erosion image w h (σ pixel) :=
  ((MinOver.comp.mp (minOver_erosion (image ∘ σ) inside)).congr neighbours).eq_erosion mapped

/-- **Erosion commutes with monotone maps of values.** -/
theorem erosion_map {f : α → β} (monotone : Monotone f) (image : ℤ × ℤ → α) (w h : ℤ)
    (pixel : ℤ × ℤ) :
    erosion (f ∘ image) w h pixel = f (erosion image w h pixel) := by
  simp only [erosion, min3, Function.comp_apply, monotone.map_min]

/-- Left and right exchanged. -/
def mirror (w : ℤ) (pixel : ℤ × ℤ) : ℤ × ℤ := (w - 1 - pixel.1, pixel.2)

/-- Columns and rows exchanged. -/
def transpose (pixel : ℤ × ℤ) : ℤ × ℤ := (pixel.2, pixel.1)

theorem erosion_mirror (image : ℤ × ℤ → α) (inside : pixel ∈ frame w h) :
    erosion (image ∘ mirror w) w h pixel = erosion image w h (mirror w pixel) := by
  refine erosion_comp image (Set.ext fun other => ?_) inside ?_
  · simp only [Set.mem_image, mem_window, mem_near, mirror, Prod.exists, Prod.ext_iff]
    constructor
    · rintro ⟨x, y, near, column, row⟩
      omega
    · intro near
      exact ⟨w - 1 - other.1, other.2, by omega, by omega, rfl⟩
  · simp only [mem_frame, mirror] at inside ⊢
    omega

theorem erosion_transpose (image : ℤ × ℤ → α) (inside : pixel ∈ frame h w) :
    erosion (image ∘ transpose) h w pixel = erosion image w h (transpose pixel) := by
  refine erosion_comp image (Set.ext fun other => ?_) inside ?_
  · simp only [Set.mem_image, mem_window, mem_near, transpose, Prod.exists, Prod.ext_iff]
    constructor
    · rintro ⟨x, y, near, rfl, rfl⟩
      exact near.symm
    · intro near
      exact ⟨other.2, other.1, near.symm, rfl, rfl⟩
  · simp only [mem_frame, transpose] at inside ⊢
    omega

end Commutes

end Morphology

/-! ## Row-major images -/

namespace BufferProgram

open Morphology

/-- The bytes of a square, by the coordinates of their pixels. -/
theorem raster_image_square {α : Type} (content : ℤ → α) (w h x y : ℤ) (r : ℕ) :
    raster content w '' square r w h (x, y) =
      {b | ∃ x' y', 0 ≤ x' ∧ x' < w ∧ 0 ≤ y' ∧ y' < h ∧ |x' - x| ≤ r ∧ |y' - y| ≤ r ∧
        b = content (y' * w + x')} := by
  ext b
  simp only [Set.mem_image, Prod.exists, mem_square, mem_nearBy, abs_le, Set.mem_ofPred_eq]
  constructor
  · rintro ⟨x', y', near, rfl⟩
    exact ⟨x', y', by omega, by omega, by omega, by omega, by omega, by omega, rfl⟩
  · rintro ⟨x', y', left, right, top, bottom, nearX, nearY, rfl⟩
    exact ⟨x', y', by omega, rfl⟩

end BufferProgram
