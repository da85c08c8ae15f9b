import ErodeTest.Foundation.Packed
import ErodeTest.Foundation.Lanes

/-! # The OpenCL kernel

A work-item of the `erode` kernel of `erode_cl.cc` produces eight bytes of one
row. It loads sixteen bytes of each of the three rows around it and uses ten of
them; it has no border cases.
-/

namespace ErodeTest.OpenCl

open BufferProgram BufferProgram.Program Morphology

abbrev Uchar8 : Type := Lanes UInt8 8

abbrev Uchar16 : Type := Lanes UInt8 16

/-- The vector at an offset counted in vectors. -/
def vload16 (offset p : ℤ) : Program UInt8 Uchar16 := loadLanes 16 (p + offset * 16)

def vstore8 (data : Uchar8) (offset p : ℤ) : Program UInt8 Unit := storeLanes (p + offset * 8) data

def minLanes {n : ℕ} (x y : Lanes UInt8 n) : Lanes UInt8 n := fun lane => min (x lane) (y lane)

def s01234567 (a : Uchar16) : Uchar8 := fun lane => a (lane.castAdd 8)

def s12345678 (a : Uchar16) : Uchar8 := fun lane => a (lane.succ.castAdd 7)

def s23456789 (a : Uchar16) : Uchar8 := fun lane => a (lane.succ.succ.castAdd 6)

/-- The kernel `erode`, run by the work-item with the given global id. -/
def erode (in_data out_data stride_x : ℤ) (global_id : ℤ × ℤ) : Program UInt8 Unit := do
  let in_data := in_data + ((global_id.1 - 1) * 8 + 1 + global_id.2 * stride_x)
  let out_data := out_data + ((global_id.1 - 1) * 8 + 1 + global_id.2 * stride_x)
  let top ← vload16 0 (in_data - 1 - stride_x)
  let middle ← vload16 0 (in_data - 1)
  let bottom ← vload16 0 (in_data - 1 + stride_x)
  let tmp := minLanes top (minLanes middle bottom)
  let out := minLanes (s01234567 tmp) (minLanes (s12345678 tmp) (s23456789 tmp))
  vstore8 out 0 out_data

section Kernel

variable (w : ℤ) (global_id : ℤ × ℤ) (input : ℤ → UInt8)

theorem result_erode : (erode 0 0 w global_id).result input = some () := by
  simp [erode, vload16, vstore8]

/-- The lanes a work-item stores. -/
def erodeLanes : Uchar8 :=
  let (x, y) := ((global_id.1 - 1) * 8, global_id.2)
  let tmp (lane : ℕ) : UInt8 :=
    min (input ((y - 1) * w + x + lane)) (min (input (y * w + x + lane)) (input ((y + 1) * w + x + lane)))
  fun lane => min (tmp lane.val) (min (tmp (lane.val + 1)) (tmp (lane.val + 2)))

theorem stores_erode :
    (erode 0 0 w global_id).stores input =
      (storeLanes (global_id.2 * w + ((global_id.1 - 1) * 8 + 1))
        (erodeLanes w global_id input)).stores input := by
  obtain ⟨gx, gy⟩ := global_id
  have start : (gx - 1) * 8 + 1 + gy * w = gy * w + ((gx - 1) * 8 + 1) := by ring
  have here : gy * w + ((gx - 1) * 8 + 1) - 1 = gy * w + (gx - 1) * 8 := by ring
  have above : gy * w + (gx - 1) * 8 - w = (gy - 1) * w + (gx - 1) * 8 := by ring
  have below : gy * w + (gx - 1) * 8 + w = (gy + 1) * w + (gx - 1) * 8 := by ring
  simp only [erode, vload16, vstore8, zero_mul, zero_add, add_zero, collect_loadLanes_bind,
    stores_loadLanes, List.nil_append, start, here, above, below]
  rfl

theorem mem_loads_erode {k : ℤ} :
    k ∈ (erode 0 0 w global_id).loads input ↔
      ∃ r, (global_id.2 - 1 ≤ r ∧ r ≤ global_id.2 + 1) ∧
        r * w + (global_id.1 - 1) * 8 ≤ k ∧ k < r * w + (global_id.1 - 1) * 8 + 16 := by
  obtain ⟨gx, gy⟩ := global_id
  simp only [erode, vload16, vstore8, zero_mul, zero_add, add_zero, collect_loadLanes_bind,
    loads_storeLanes, List.append_nil, List.mem_append, mem_loads_loadLanes, Nat.cast_ofNat]
  constructor
  · rintro (above | here | below)
    · exact ⟨gy - 1, by omega, by linarith, by linarith⟩
    · exact ⟨gy, by omega, by linarith, by linarith⟩
    · exact ⟨gy + 1, by omega, by linarith, by linarith⟩
  · rintro ⟨r, ⟨lower, upper⟩, first, last⟩
    obtain rfl | rfl | rfl : r = gy - 1 ∨ r = gy ∨ r = gy + 1 := by omega
    · exact Or.inl ⟨by linarith, by linarith⟩
    · exact Or.inr (Or.inl ⟨by linarith, by linarith⟩)
    · exact Or.inr (Or.inr ⟨by linarith, by linarith⟩)

end Kernel

/-! ## Work-items of an image -/

section Image

variable {w h : ℤ} {global_id : ℤ × ℤ} (columns : 1 ≤ global_id.1 ∧ global_id.1 * 8 + 2 ≤ w)
  (rows : 1 ≤ global_id.2 ∧ global_id.2 + 2 ≤ h) (input : ℤ → UInt8)

include columns rows

theorem erodeLanes_eq_erosion (lane : Fin 8) :
    erodeLanes w global_id input lane =
      erosion (raster input w) w h ((global_id.1 - 1) * 8 + 1 + lane.val, global_id.2) := by
  obtain ⟨gx, gy⟩ := global_id
  have bound := lane.isLt
  have column (n : ℕ) := ((MinOver.pixel (raster input w) ((gx - 1) * 8 + n) (gy - 1)).min_rows
    ((MinOver.pixel (raster input w) ((gx - 1) * 8 + n) gy).min_rows
      (MinOver.pixel (raster input w) ((gx - 1) * 8 + n) (gy + 1))))
  have least := (column lane.val).min_columns ((column (lane.val + 1)).min_columns
    (column (lane.val + 2)))
  simp only [raster, address, ← add_assoc] at least
  refine (least.congr_prod (fun i => ?_) fun _ => Iff.rfl).eq_erosion_of_rows (fun j => ?_) ?_
  all_goals
    simp only [Set.mem_union, Set.mem_singleton_iff, mem_near, mem_frame]
    omega

/-- A work-item paints its eight pixels with the erosion. -/
theorem paints_erode :
    Paints ((erode 0 0 w global_id).stores input) w
      {pixel | ((global_id.1 - 1) * 8 + 1 ≤ pixel.1 ∧ pixel.1 < (global_id.1 - 1) * 8 + 1 + 8) ∧
        pixel.2 = global_id.2}
      (erosion (raster input w) w h) := by
  rw [stores_erode]
  exact paints_storeLanes rfl (erodeLanes_eq_erosion columns rows input) input

/-- A work-item reads the image only, unless it looks at the last row and ends less than
seven columns before the right border. -/
theorem loads_erode_inside_iff :
    (∀ k ∈ (erode 0 0 w global_id).loads input, 0 ≤ k ∧ k < w * h) ↔
      global_id.2 < h - 2 ∨ 8 * global_id.1 + 8 ≤ w := by
  obtain ⟨gx, gy⟩ := global_id
  dsimp only at columns rows ⊢
  simp only [mem_loads_erode]
  constructor
  · intro inside
    by_contra outside
    have edge := (inside ((h - 1) * w + (gx - 1) * 8 + 15)
      ⟨h - 1, by omega, by omega, by omega⟩).2
    have : 8 * gx + 7 < w := by linarith
    omega
  · rintro fits k ⟨r, looked, lower, upper⟩
    have := mul_nonneg (by omega : 0 ≤ r) (by omega : 0 ≤ w)
    by_cases last : r = h - 1
    · subst last
      constructor
      · omega
      · have : 8 * gx + 8 ≤ w := by omega
        linarith
    · have := mul_le_mul_of_nonneg_right (by omega : r + 2 ≤ h) (by omega : 0 ≤ w)
      constructor
      · omega
      · linarith

end Image

end ErodeTest.OpenCl
