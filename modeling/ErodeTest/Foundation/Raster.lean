import ErodeTest.Foundation.Access
import ErodeTest.Foundation.Erosion
import Mathlib.Algebra.Order.Group.Unbundled.Int
import Mathlib.Algebra.Order.Group.Abs
import Mathlib.Tactic.Ring
import Mathlib.Tactic.Linarith

/-! # Row-major images

The pixel in column `x` and row `y` of an image of width `w` lies at the address
`y * w + x`. A sequence of stores paints a region when it stores at every pixel
of the region that pixel's value, and nothing else (`BufferProgram.Paints`);
what a painted region holds afterwards does not depend on the order of the
stores, nor on how often a pixel is stored.
-/

namespace BufferProgram

open Morphology

variable {α : Type}

/-- The address of a pixel. -/
def address (w : ℤ) (pixel : ℤ × ℤ) : ℤ := pixel.2 * w + pixel.1

/-- The image held by a buffer. -/
def raster (content : ℤ → α) (w : ℤ) (pixel : ℤ × ℤ) : α := content (address w pixel)

/-- A column and a row of an image are read off the address. -/
theorem address_injective {w : ℤ} {pixel other : ℤ × ℤ} (pixelLower : 0 ≤ pixel.1)
    (pixelUpper : pixel.1 < w) (otherLower : 0 ≤ other.1) (otherUpper : other.1 < w)
    (same : address w pixel = address w other) : pixel = other := by
  have positive : w ≠ 0 := by omega
  have column (q : ℤ × ℤ) (lower : 0 ≤ q.1) (upper : q.1 < w) : address w q % w = q.1 := by
    rw [address, add_comm, Int.add_mul_emod_self_right, Int.emod_eq_of_lt lower upper]
  have row (q : ℤ × ℤ) (lower : 0 ≤ q.1) (upper : q.1 < w) : address w q / w = q.2 := by
    rw [address, add_comm, Int.add_mul_ediv_right _ _ positive, Int.ediv_eq_zero_of_lt lower upper,
      zero_add]
  apply Prod.ext
  · rw [← column pixel pixelLower pixelUpper, same, column other otherLower otherUpper]
  · rw [← row pixel pixelLower pixelUpper, same, row other otherLower otherUpper]

/-- Addresses of pixels lie in the buffer. -/
theorem address_bounds {w h : ℤ} {pixel : ℤ × ℤ} (inside : pixel ∈ frame w h) :
    0 ≤ address w pixel ∧ address w pixel < w * h := by
  obtain ⟨left, right, top, bottom⟩ := inside
  unfold address
  constructor
  · have := mul_nonneg top (by omega : 0 ≤ w)
    omega
  · have := mul_le_mul_of_nonneg_right (by omega : pixel.2 + 1 ≤ h) (by omega : 0 ≤ w)
    linarith

/-- Every address of the buffer is that of a pixel. -/
theorem exists_pixel {w h k : ℤ} (lower : 0 ≤ k) (upper : k < w * h) (positive : 0 < w) :
    ∃ pixel ∈ frame w h, k = address w pixel := by
  refine ⟨(k % w, k / w), ⟨Int.emod_nonneg _ positive.ne', Int.emod_lt_of_pos _ positive,
    Int.ediv_nonneg lower positive.le, ?_⟩, ?_⟩
  · exact Int.ediv_lt_of_lt_mul positive (by linarith)
  · rw [address, mul_comm]
    exact (Int.mul_ediv_add_emod k w).symm

/-- The bytes of a neighbourhood, by the coordinates of their pixels. -/
theorem raster_image_window (content : ℤ → α) (w h x y : ℤ) :
    raster content w '' window w h (x, y) =
      {b | ∃ x' y', 0 ≤ x' ∧ x' < w ∧ 0 ≤ y' ∧ y' < h ∧ |x' - x| ≤ 1 ∧ |y' - y| ≤ 1 ∧
        b = content (y' * w + x')} := by
  ext b
  simp only [Set.mem_image, Prod.exists, mem_window, mem_near, abs_le, Set.mem_ofPred_eq]
  constructor
  · rintro ⟨x', y', near, rfl⟩
    exact ⟨x', y', by omega, by omega, by omega, by omega, by omega, by omega, rfl⟩
  · rintro ⟨x', y', left, right, top, bottom, nearX, nearY, rfl⟩
    exact ⟨x', y', by omega, rfl⟩

/-- The erosion of an image does not depend on what lies around it. -/
theorem erosion_raster_congr [LinearOrder α] {content other : ℤ → α} {w h : ℤ}
    (same : ∀ k, 0 ≤ k → k < w * h → content k = other k) {pixel : ℤ × ℤ}
    (inside : pixel ∈ frame w h) :
    erosion (raster content w) w h pixel = erosion (raster other w) w h pixel :=
  erosion_congr (fun _ member => same _ (address_bounds member).1 (address_bounds member).2) inside

/-- The least of three bytes of a row is the minimum of the near columns when these
are the columns of the bytes. -/
theorem minOver_bytes [LinearOrder α] (content : ℤ → α) {w i a b c : ℤ}
    (y first second third : ℤ)
    (atFirst : a = y * w + first) (atSecond : b = y * w + second) (atThird : c = y * w + third)
    (same : ∀ x, (x = first ∨ x = second) ∨ x = third ↔ x ∈ near w i) :
    MinOver (raster content w) (near w i ×ˢ {y})
      (min (min (content a) (content b)) (content c)) := by
  subst atFirst atSecond atThird
  exact (((MinOver.pixel (raster content w) first y).min_columns
    (MinOver.pixel (raster content w) second y)).min_columns
      (MinOver.pixel (raster content w) third y)).congr_prod same fun _ => Iff.rfl

/-- The stores write at the pixels of the region their values and nothing else. -/
def Paints (stores : List (ℤ × α)) (w : ℤ) (region : Set (ℤ × ℤ)) (value : ℤ × ℤ → α) : Prop :=
  ∀ k v, (k, v) ∈ stores ↔ ∃ pixel ∈ region, k = address w pixel ∧ v = value pixel

namespace Paints

variable {stores : List (ℤ × α)} {w : ℤ} {region : Set (ℤ × ℤ)} {value : ℤ × ℤ → α}

/-- A painted pixel holds its value. -/
theorem replay_inside (paints : Paints stores w region value)
    (columns : ∀ pixel ∈ region, 0 ≤ pixel.1 ∧ pixel.1 < w) (content : ℤ → α)
    {pixel : ℤ × ℤ} (inside : pixel ∈ region) :
    replay stores content (address w pixel) = value pixel := by
  apply replay_of_stored
  · exact (paints _ _).mpr ⟨pixel, inside, rfl, rfl⟩
  · intro other member
    obtain ⟨found, foundInside, same, rfl⟩ := (paints _ _).mp member
    rw [address_injective (columns pixel inside).1 (columns pixel inside).2
      (columns found foundInside).1 (columns found foundInside).2 same]

/-- Two sequences of stores that paint an image alike leave the same image, whatever
the buffers held before. -/
theorem replay_eq {other : List (ℤ × α)} {h : ℤ} (paints : Paints stores w (frame w h) value)
    (also : Paints other w (frame w h) value) (positive : 0 < w) (content otherContent : ℤ → α)
    {k : ℤ} (lower : 0 ≤ k) (upper : k < w * h) :
    replay stores content k = replay other otherContent k := by
  obtain ⟨pixel, inside, rfl⟩ := exists_pixel lower upper positive
  rw [paints.replay_inside (fun _ member => ⟨member.1, member.2.1⟩) content inside,
    also.replay_inside (fun _ member => ⟨member.1, member.2.1⟩) otherContent inside]

/-- An address of no painted pixel keeps its content. -/
theorem replay_outside (paints : Paints stores w region value) (content : ℤ → α) {k : ℤ}
    (outside : ∀ pixel ∈ region, k ≠ address w pixel) : replay stores content k = content k := by
  apply replay_of_not_stored
  intro v member
  obtain ⟨pixel, inside, same, _⟩ := (paints _ _).mp member
  exact outside pixel inside same

/-- Painting two regions one after the other paints their union. -/
theorem append {second : List (ℤ × α)} {other : Set (ℤ × ℤ)}
    (paints : Paints stores w region value) (next : Paints second w other value) :
    Paints (stores ++ second) w (region ∪ other) value := by
  intro k v
  rw [List.mem_append, paints k v, next k v]
  simp only [Set.mem_union, or_and_right, exists_or]

/-- Painting the regions of a family one after the other paints their union. -/
theorem flatMap {ι : Type} {family : ι → List (ℤ × α)} {regions : ι → Set (ℤ × ℤ)}
    (indices : List ι) (each : ∀ i ∈ indices, Paints (family i) w (regions i) value) :
    Paints (indices.flatMap family) w {pixel | ∃ i ∈ indices, pixel ∈ regions i} value := by
  intro k v
  rw [List.mem_flatMap]
  constructor
  · rintro ⟨i, listed, member⟩
    obtain ⟨pixel, inside, painted⟩ := (each i listed k v).mp member
    exact ⟨pixel, ⟨i, listed, inside⟩, painted⟩
  · rintro ⟨pixel, ⟨i, listed, inside⟩, painted⟩
    exact ⟨i, listed, (each i listed k v).mpr ⟨pixel, inside, painted⟩⟩

/-- Only the values on the region matter. -/
theorem value_congr {other : ℤ × ℤ → α} (paints : Paints stores w region value)
    (same : ∀ pixel ∈ region, value pixel = other pixel) : Paints stores w region other := by
  intro k v
  rw [paints k v]
  exact exists_congr fun pixel => and_congr_right fun inside => by rw [same pixel inside]

/-- The region may be named differently. -/
theorem region_congr {other : Set (ℤ × ℤ)} (paints : Paints stores w region value)
    (same : region = other) : Paints stores w other value := same ▸ paints

end Paints

end BufferProgram
