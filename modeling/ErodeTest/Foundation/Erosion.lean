import Mathlib.Order.Bounds.Basic
import Mathlib.Order.Lattice
import Mathlib.Data.Set.Prod
import Mathlib.Data.Int.Order.Basic
import Mathlib.Tactic.Common

/-! # Minima over pixel sets and erosion by a square

A value is the minimum of an image over a set of pixels when it is the least
element of their values (`Morphology.MinOver`). Minima combine along unions, so
the value an implementation computes is characterized by the set of pixels it
has looked at, whatever the order and however often.

Erosion by the three-by-three square takes at every pixel the minimum over the
pixels of the image at distance at most one in each coordinate; clamping the
nine coordinates to the image gives the same value
(`Morphology.minOver_erosion`).
-/

namespace Morphology

variable {ι κ α : Type*} [LinearOrder α]

/-- The value is the least of the image's values on a set. -/
def MinOver (image : ι → α) (support : Set ι) (value : α) : Prop :=
  IsLeast (image '' support) value

namespace MinOver

variable {image : ι → α} {first second : Set ι} {a b : α}

theorem single (image : ι → α) (i : ι) : MinOver image {i} (image i) := by
  simp [MinOver, isLeast_singleton]

theorem min (left : MinOver image first a) (right : MinOver image second b) :
    MinOver image (first ∪ second) (min a b) := by
  rw [MinOver, Set.image_union]
  exact left.union right

theorem congr (least : MinOver image first a) (same : first = second) :
    MinOver image second a := same ▸ least

theorem unique (left : MinOver image first a) (right : MinOver image first b) : a = b :=
  IsLeast.unique left right

theorem le_of_mem (least : MinOver image first a) {i : ι} (member : i ∈ first) : a ≤ image i :=
  least.2 ⟨i, member, rfl⟩

theorem exists_eq (least : MinOver image first a) : ∃ i ∈ first, image i = a := least.1

/-- A minimum lies above a bound exactly when all values do. -/
theorem le_iff (least : MinOver image first a) : b ≤ a ↔ ∀ i ∈ first, b ≤ image i := by
  constructor
  · exact fun below i member => below.trans (least.le_of_mem member)
  · intro below
    obtain ⟨i, member, attained⟩ := least.exists_eq
    exact attained ▸ below i member

/-- Looking at more leaves a minimum as it is when nothing more is below everything seen. -/
theorem eq_iff_of_union (least : MinOver image first a) (wider : MinOver image (first ∪ second) b) :
    b = a ↔ ∀ i ∈ second, ∃ j ∈ first, image j ≤ image i := by
  constructor
  · rintro rfl i member
    obtain ⟨j, seen, attained⟩ := least.exists_eq
    exact ⟨j, seen, attained ▸ wider.le_of_mem (Or.inr member)⟩
  · intro covered
    obtain ⟨j, seen, attained⟩ := least.exists_eq
    refine le_antisymm (attained ▸ wider.le_of_mem (Or.inl seen)) ?_
    refine wider.le_iff.mpr fun i member => ?_
    rcases member with old | new
    · exact least.le_of_mem old
    · obtain ⟨k, known, below⟩ := covered i new
      exact (least.le_of_mem known).trans below

/-- Only the values on the set matter. -/
theorem image_congr {other : ι → α} (least : MinOver image first a)
    (same : ∀ i ∈ first, image i = other i) : MinOver other first a := by
  rwa [MinOver, Set.image_congr same] at least

end MinOver

/-! ## Pixel sets that are products of columns and rows -/

section Product

variable {image : ℤ × ℤ → α} {columns otherColumns rows otherRows : Set ℤ} {a b : α}

theorem MinOver.pixel (image : ℤ × ℤ → α) (x y : ℤ) :
    MinOver image ({x} ×ˢ {y}) (image (x, y)) :=
  (MinOver.single image (x, y)).congr Set.singleton_prod_singleton.symm

/-- Minima over the same rows combine along the columns. -/
theorem MinOver.min_columns (left : MinOver image (columns ×ˢ rows) a)
    (right : MinOver image (otherColumns ×ˢ rows) b) :
    MinOver image ((columns ∪ otherColumns) ×ˢ rows) (Min.min a b) :=
  (left.min right).congr Set.union_prod.symm

/-- Minima over the same columns combine along the rows. -/
theorem MinOver.min_rows (upper : MinOver image (columns ×ˢ rows) a)
    (lower : MinOver image (columns ×ˢ otherRows) b) :
    MinOver image (columns ×ˢ (rows ∪ otherRows)) (Min.min a b) :=
  (upper.min lower).congr Set.prod_union.symm

theorem MinOver.congr_prod (least : MinOver image (columns ×ˢ rows) a)
    (sameColumns : ∀ x, x ∈ columns ↔ x ∈ otherColumns) (sameRows : ∀ y, y ∈ rows ↔ y ∈ otherRows) :
    MinOver image (otherColumns ×ˢ otherRows) a := by
  rwa [← Set.ext sameColumns, ← Set.ext sameRows]

end Product

/-! ## The three-by-three neighbourhood -/

/-- The coordinates of a line of `n` pixels at distance at most one from `i`. -/
def near (n i : ℤ) : Set ℤ := {j | 0 ≤ j ∧ j < n ∧ i - 1 ≤ j ∧ j ≤ i + 1}

/-- The three-by-three neighbourhood of a pixel, cut off at the image border. -/
def window (w h : ℤ) (pixel : ℤ × ℤ) : Set (ℤ × ℤ) := near w pixel.1 ×ˢ near h pixel.2

@[simp] theorem mem_near {n i j : ℤ} :
    j ∈ near n i ↔ 0 ≤ j ∧ j < n ∧ i - 1 ≤ j ∧ j ≤ i + 1 := Iff.rfl

@[simp] theorem mem_window {w h : ℤ} {pixel other : ℤ × ℤ} :
    other ∈ window w h pixel ↔ other.1 ∈ near w pixel.1 ∧ other.2 ∈ near h pixel.2 := Iff.rfl

/-- The pixels of an image. -/
def frame (w h : ℤ) : Set (ℤ × ℤ) := {pixel | 0 ≤ pixel.1 ∧ pixel.1 < w ∧ 0 ≤ pixel.2 ∧ pixel.2 < h}

@[simp] theorem mem_frame {w h : ℤ} {pixel : ℤ × ℤ} :
    pixel ∈ frame w h ↔ 0 ≤ pixel.1 ∧ pixel.1 < w ∧ 0 ≤ pixel.2 ∧ pixel.2 < h := Iff.rfl

/-- The nearest coordinate of a line of `n` pixels. -/
def clamp (n i : ℤ) : ℤ := max 0 (min i (n - 1))

/-- The minimum of a function at a coordinate offset of minus one, zero and one. -/
def min3 (f : ℤ → α) : α := min (min (f (-1)) (f 0)) (f 1)

/-- Erosion by the three-by-three square, with the coordinates clamped to the image. -/
def erosion (image : ℤ × ℤ → α) (w h : ℤ) (pixel : ℤ × ℤ) : α :=
  min3 fun dy => min3 fun dx => image (clamp w (pixel.1 + dx), clamp h (pixel.2 + dy))

/-- Clamping repeats a coordinate of the neighbourhood and adds no other. -/
theorem mem_near_iff_clamp {n i j : ℤ} (lower : 0 ≤ i) (upper : i < n) :
    j ∈ near n i ↔ (j = clamp n (i + -1) ∨ j = clamp n (i + 0)) ∨ j = clamp n (i + 1) := by
  simp only [mem_near, clamp]
  omega

/-- The values of a neighbourhood, by the nine offsets. -/
theorem image_window_eq_offsets {β : Type*} (image : ℤ × ℤ → β) {w h i j : ℤ}
    (inside : (i, j) ∈ frame w h) :
    image '' window w h (i, j) =
      {b | ∃ dx ∈ ({-1, 0, 1} : Set ℤ), ∃ dy ∈ ({-1, 0, 1} : Set ℤ),
        b = image (clamp w (i + dx), clamp h (j + dy))} := by
  obtain ⟨left, right, top, bottom⟩ := inside
  ext b
  simp only [Set.mem_image, mem_window, mem_near_iff_clamp left right,
    mem_near_iff_clamp top bottom, Set.mem_ofPred_eq, Set.mem_insert_iff, Set.mem_singleton_iff,
    exists_eq_or_imp, exists_eq_left]
  constructor
  · rintro ⟨⟨x, y⟩, ⟨column, row⟩, rfl⟩
    dsimp only at column row
    grind
  · grind

/-- **Erosion is the minimum over the neighbourhood.** -/
theorem minOver_erosion (image : ℤ × ℤ → α) {w h : ℤ} {pixel : ℤ × ℤ}
    (inside : pixel ∈ frame w h) :
    MinOver image (window w h pixel) (erosion image w h pixel) := by
  obtain ⟨left, right, top, bottom⟩ := inside
  have near (dx dy : ℤ) :=
    MinOver.pixel image (clamp w (pixel.1 + dx)) (clamp h (pixel.2 + dy))
  have row (dy : ℤ) := ((near (-1) dy).min_columns (near 0 dy)).min_columns (near 1 dy)
  exact (((row (-1)).min_rows (row 0)).min_rows (row 1)).congr_prod
    (fun x => (mem_near_iff_clamp left right).symm) (fun y => (mem_near_iff_clamp top bottom).symm)

/-- What is the minimum over the neighbourhood is the erosion. -/
theorem MinOver.eq_erosion {image : ℤ × ℤ → α} {w h : ℤ} {pixel : ℤ × ℤ} {value : α}
    (least : MinOver image (window w h pixel) value) (inside : pixel ∈ frame w h) :
    value = erosion image w h pixel :=
  least.unique (minOver_erosion image inside)

/-- A minimum over the near columns and rows equal to the near rows is the erosion. -/
theorem MinOver.eq_erosion_of_rows {image : ℤ × ℤ → α} {w h x y : ℤ} {rows : Set ℤ} {value : α}
    (least : MinOver image (near w x ×ˢ rows) value) (same : ∀ j, j ∈ rows ↔ j ∈ near h y)
    (inside : (x, y) ∈ frame w h) : value = erosion image w h (x, y) :=
  MinOver.eq_erosion (least.congr_prod (fun _ => Iff.rfl) same) inside

/-- Erosion looks at no pixel outside the image. -/
theorem erosion_congr {image other : ℤ × ℤ → α} {w h : ℤ} {pixel : ℤ × ℤ}
    (same : ∀ q ∈ frame w h, image q = other q) (inside : pixel ∈ frame w h) :
    erosion image w h pixel = erosion other w h pixel := by
  refine ((minOver_erosion image inside).image_congr fun q member => same q ?_).eq_erosion inside
  simp only [mem_window, mem_near] at member
  simp only [mem_frame]
  omega

end Morphology
