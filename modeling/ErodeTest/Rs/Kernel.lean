import ErodeTest.Foundation.Packed
import ErodeTest.Foundation.Erosion
import ErodeTest.Foundation.Word

/-! # The RenderScript kernel

`root` of `erode3x3.rs` computes one byte of the output from its coordinates. The
coordinates of its neighbours are clamped in signed arithmetic and cast back to
unsigned. Reading outside the allocation is modelled as a failure, so that a call
which returns a byte has addressed cells of the allocation only.
-/

namespace ErodeTest.Rs

open Morphology

/-- A two-dimensional allocation of unsigned bytes. -/
structure Allocation where
  dimX : UInt32
  dimY : UInt32
  cell : UInt32 × UInt32 → UInt8

/-- The global variables of the script. -/
structure Script where
  gWidth : Int32
  gHeight : Int32
  gIn : Allocation

/-- The byte of a cell, none outside the allocation. -/
def rsGetElementAt_uchar (a : Allocation) (x y : UInt32) : Option UInt8 :=
  if x < a.dimX ∧ y < a.dimY then some (a.cell (x, y)) else none

/-- The kernel `root` of `erode3x3.rs`. -/
def root (script : Script) (x y : UInt32) : Option UInt8 := do
  let x1 := (min (x.toInt32 + 1) (script.gWidth - 1)).toUInt32
  let x2 := (max (x.toInt32 - 1) 0).toUInt32
  let y1 := (min (y.toInt32 + 1) (script.gHeight - 1)).toUInt32
  let y2 := (max (y.toInt32 - 1) 0).toUInt32
  let r ← rsGetElementAt_uchar script.gIn x1 y
  let r := min r (← rsGetElementAt_uchar script.gIn x y)
  let r := min r (← rsGetElementAt_uchar script.gIn x2 y)
  let r := min r (← rsGetElementAt_uchar script.gIn x1 y1)
  let r := min r (← rsGetElementAt_uchar script.gIn x y1)
  let r := min r (← rsGetElementAt_uchar script.gIn x2 y1)
  let r := min r (← rsGetElementAt_uchar script.gIn x1 y2)
  let r := min r (← rsGetElementAt_uchar script.gIn x y2)
  let r := min r (← rsGetElementAt_uchar script.gIn x2 y2)
  pure r

/-! ## The clamped coordinates -/

section Coordinates

variable {x : UInt32} {n : Int32} (inside : (x.toNat : ℤ) < n.toInt)

include inside

/-- The next coordinate, or the last one. -/
theorem next_eq_clamp :
    ((min (x.toInt32 + 1) (n - 1)).toUInt32.toNat : ℤ) = clamp n.toInt (x.toNat + 1) := by
  have bound := n.toInt_lt
  have cast := MachineWord.toInt_toInt32 (x := x) (by omega)
  have one : (1 : Int32).toInt = 1 := rfl
  have next : (x.toInt32 + 1).toInt = x.toNat + 1 := by
    rw [MachineWord.toInt_add, cast, one] <;> omega
  have last : (n - 1).toInt = n.toInt - 1 := by
    rw [MachineWord.toInt_sub, one] <;> omega
  rw [MachineWord.toNat_toUInt32] <;> rw [MachineWord.toInt_min, next, last]
  · unfold clamp
    omega
  · omega

/-- The previous coordinate, or the first one. -/
theorem previous_eq_clamp :
    ((max (x.toInt32 - 1) 0).toUInt32.toNat : ℤ) = clamp n.toInt (x.toNat + -1) := by
  have bound := n.toInt_lt
  have cast := MachineWord.toInt_toInt32 (x := x) (by omega)
  have one : (1 : Int32).toInt = 1 := rfl
  have zero : (0 : Int32).toInt = 0 := rfl
  have previous : (x.toInt32 - 1).toInt = x.toNat - 1 := by
    rw [MachineWord.toInt_sub, cast, one] <;> omega
  rw [MachineWord.toNat_toUInt32] <;> rw [MachineWord.toInt_max, previous, zero]
  · unfold clamp
    omega
  · omega

end Coordinates

/-! ## The value of a call -/

/-- The script after the image has been copied to its allocation. -/
structure Loaded (script : Script) (image : ℤ × ℤ → UInt8) : Prop where
  width : (script.gIn.dimX.toNat : ℤ) = script.gWidth.toInt
  height : (script.gIn.dimY.toNat : ℤ) = script.gHeight.toInt
  cells : ∀ x y, x < script.gIn.dimX → y < script.gIn.dimY →
    script.gIn.cell (x, y) = image (x.toNat, y.toNat)

section Root

variable {script : Script} {image : ℤ × ℤ → UInt8} (loaded : Loaded script image)

include loaded

/-- A cell of the image is a cell of the allocation. -/
theorem Loaded.element {x y : UInt32} {i j : ℤ} (column : (x.toNat : ℤ) = i)
    (row : (y.toNat : ℤ) = j)
    (inside : (i, j) ∈ frame script.gWidth.toInt script.gHeight.toInt) :
    rsGetElementAt_uchar script.gIn x y = some (image (i, j)) := by
  obtain ⟨-, right, -, below⟩ := inside
  have fits : x < script.gIn.dimX ∧ y < script.gIn.dimY := by
    have width := loaded.width
    have height := loaded.height
    simp only [UInt32.lt_iff_toNat_lt]
    omega
  rw [rsGetElementAt_uchar, if_pos fits, loaded.cells x y fits.1 fits.2, column, row]

/-- **A call of the kernel computes the erosion** and stays in the allocation. -/
theorem Loaded.root_eq {x y : UInt32} (right : (x.toNat : ℤ) < script.gWidth.toInt)
    (below : (y.toNat : ℤ) < script.gHeight.toInt) :
    root script x y =
      some (erosion image script.gWidth.toInt script.gHeight.toInt (x.toNat, y.toNat)) := by
  have here : ((x.toNat : ℤ), (y.toNat : ℤ)) ∈ frame script.gWidth.toInt script.gHeight.toInt := by
    simp only [mem_frame]
    omega
  have x0 : (x.toNat : ℤ) = clamp script.gWidth.toInt (x.toNat + 0) := by
    simp only [clamp]
    omega
  have y0 : (y.toNat : ℤ) = clamp script.gHeight.toInt (y.toNat + 0) := by
    simp only [clamp]
    omega
  have x1 := next_eq_clamp right
  have x2 := previous_eq_clamp right
  have y1 := next_eq_clamp below
  have y2 := previous_eq_clamp below
  have cell {i j : UInt32} {dx dy : ℤ}
      (column : (i.toNat : ℤ) = clamp script.gWidth.toInt (x.toNat + dx))
      (row : (j.toNat : ℤ) = clamp script.gHeight.toInt (y.toNat + dy)) :=
    loaded.element column row (by simp only [mem_frame, clamp]; omega)
  simp only [root, cell x1 y0, cell x0 y0, cell x2 y0, cell x1 y1, cell x0 y1, cell x2 y1,
    cell x1 y2, cell x0 y2, cell x2 y2, Option.bind_eq_bind, Option.bind_some, Option.pure_def]
  have pixel := MinOver.single image
  refine congrArg some (MinOver.eq_erosion (MinOver.congr ((((((((((pixel _).min (pixel _)).min
    (pixel _)).min (pixel _)).min (pixel _)).min (pixel _)).min (pixel _)).min (pixel _)).min
      (pixel _))) (Set.ext fun other => ?_)) here)
  rcases other with ⟨i, j⟩
  simp only [Set.mem_union, Set.mem_singleton_iff, Prod.mk.injEq, mem_window,
    mem_near_iff_clamp here.1 here.2.1, mem_near_iff_clamp here.2.2.1 here.2.2.2]
  grind

end Root

end ErodeTest.Rs
