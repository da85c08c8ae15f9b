import ErodeTest.Foundation.Packed
import ErodeTest.Foundation.Erosion
import Mathlib.Algebra.BigOperators.Fin
import Mathlib.Data.Rat.Floor
import Mathlib.Tactic.FieldSimp
import Mathlib.Tactic.FinCases
import Mathlib.Tactic.Linarith
import Mathlib.Tactic.Ring

/-! # Triangles and texture lookups

A triangle gives every point of the plane three weights that sum to one; a point
is covered when its weights are positive, and a value given at the corners is
interpolated with them. Interpolating an affine function gives the function back
(`Rasterization.interpolate_affine`), so what a triangle covers and what it hands
to its points is read off its corners.

A nearest lookup with coordinates clamped to the edge finds, at the centre of a
texel moved by whole texels, the texel at the clamped coordinate
(`Rasterization.nearestTexel_centre`).
-/

namespace Rasterization

open Morphology

section Triangle

variable {K : Type*} [Field K]

/-- Twice the signed area of a triangle. -/
def doubleArea (a b c : K × K) : K := (b.1 - a.1) * (c.2 - a.2) - (b.2 - a.2) * (c.1 - a.1)

/-- The weight of a corner at a point. -/
def weight (corners : Fin 3 → K × K) (point : K × K) (k : Fin 3) : K :=
  doubleArea point (corners (k + 1)) (corners (k + 2)) /
    doubleArea (corners 0) (corners 1) (corners 2)

/-- The value at a point of a function given at the corners. -/
def interpolate (corners : Fin 3 → K × K) (value : Fin 3 → K) (point : K × K) : K :=
  weight corners point 0 * value 0 + weight corners point 1 * value 1 +
    weight corners point 2 * value 2

/-- The triangle covers a point. -/
def Covers [LinearOrder K] (corners : Fin 3 → K × K) (point : K × K) : Prop :=
  ∀ k, 0 < weight corners point k

instance [LinearOrder K] (corners : Fin 3 → K × K) (point : K × K) :
    Decidable (Covers corners point) :=
  inferInstanceAs (Decidable (∀ k, 0 < weight corners point k))

variable {corners : Fin 3 → K × K} (proper : doubleArea (corners 0) (corners 1) (corners 2) ≠ 0)

include proper

/-- **Interpolation is exact on affine functions.** -/
theorem interpolate_affine {value : Fin 3 → K} {a b c : K}
    (affine : ∀ k, value k = a * (corners k).1 + b * (corners k).2 + c) (point : K × K) :
    interpolate corners value point = a * point.1 + b * point.2 + c := by
  simp only [interpolate, weight, affine, Fin.reduceAdd]
  field_simp
  simp only [doubleArea]
  ring

end Triangle

section Lookup

/-- The centre of a pixel. -/
def centre (pixel : ℤ × ℤ) : ℚ × ℚ := (pixel.1 + 1 / 2, pixel.2 + 1 / 2)

/-- The coordinate moved into the texture of `n` texels, half a texel away from its ends. -/
def clampToEdge (n : ℤ) (s : ℚ) : ℚ := max (1 / (2 * n)) (min s (1 - 1 / (2 * n)))

/-- The texel of a line of `n` texels nearest to a normalized coordinate. -/
def nearestTexel (n : ℤ) (s : ℚ) : ℤ := ⌊clampToEdge n s * n⌋

theorem nearestTexel_eq_clamp {n : ℤ} (positive : 0 < n) (s : ℚ) :
    nearestTexel n s = clamp n ⌊s * n⌋ := by
  have size : (0 : ℚ) < n := by exact_mod_cast positive
  have half : 1 / (2 * n) * n = (1 / 2 : ℚ) := by field_simp
  have scaled : clampToEdge n s * n = max (1 / 2) (min (s * n) (n - 1 / 2)) := by
    rw [clampToEdge, max_mul_of_nonneg _ _ size.le, min_mul_of_nonneg _ _ size.le, sub_mul, half,
      one_mul]
  have least : ⌊(1 / 2 : ℚ)⌋ = 0 := by norm_num
  have greatest : ⌊(n : ℚ) - 1 / 2⌋ = n - 1 := by
    rw [Int.floor_eq_iff]
    push_cast
    constructor <;> linarith
  rw [nearestTexel, scaled, Int.floor_mono.map_max, Int.floor_mono.map_min, least, greatest, clamp]

/-- **Texels next to a texel are looked up at its centre moved by whole texels.** -/
theorem nearestTexel_centre {n : ℤ} (positive : 0 < n) (i d : ℤ) :
    nearestTexel n ((i + 1 / 2) / n + d * (1 / n)) = clamp n (i + d) := by
  have size : (n : ℚ) ≠ 0 := by exact_mod_cast positive.ne'
  have moved : ((i + 1 / 2) / n + d * (1 / n)) * n = ((i + d : ℤ) : ℚ) + 1 / 2 := by
    push_cast
    field_simp
    ring
  rw [nearestTexel_eq_clamp positive, moved, Int.floor_intCast_add]
  norm_num

end Lookup

/-! ## Normalized bytes -/

/-- The fraction a byte stands for. -/
def normalized (b : UInt8) : ℚ := b.toNat / 255

/-- The byte nearest to a fraction. -/
def quantize (c : ℚ) : UInt8 := UInt8.ofNat ⌊max 0 (min c 1) * 255 + 1 / 2⌋.toNat

theorem normalized_mono : Monotone normalized := by
  intro b c below
  have ordered : (b.toNat : ℚ) ≤ c.toNat := by exact_mod_cast UInt8.le_iff_toNat_le.mp below
  exact div_le_div_of_nonneg_right ordered (by norm_num)

/-- Bytes survive normalization. -/
@[simp] theorem quantize_normalized (b : UInt8) : quantize (normalized b) = b := by
  have bounded : (b.toNat : ℚ) ≤ 255 := by exact_mod_cast Nat.le_of_lt_succ b.toNat_lt
  have nonneg : 0 ≤ normalized b := div_nonneg (Nat.cast_nonneg _) (by norm_num)
  have unit : normalized b ≤ 1 := (div_le_one (by norm_num)).mpr bounded
  have whole : normalized b * 255 + 1 / 2 = ((b.toNat : ℤ) : ℚ) + 1 / 2 := by
    rw [normalized, div_mul_cancel₀ _ (by norm_num)]
    rfl
  have floor : ⌊((b.toNat : ℤ) : ℚ) + 1 / 2⌋ = b.toNat := by
    rw [Int.floor_intCast_add]
    norm_num
  rw [quantize, min_eq_left unit, max_eq_right nonneg, whole, floor, Int.toNat_natCast,
    UInt8.ofNat_toNat]

end Rasterization
