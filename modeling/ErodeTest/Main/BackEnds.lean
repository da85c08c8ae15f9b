import ErodeTest.Gl.Erode
import ErodeTest.Halide.Erode
import ErodeTest.Main.Run
import ErodeTest.Neon.Erode
import ErodeTest.OpenCl.Host
import ErodeTest.Rs.Erode
import ErodeTest.Sse.Erode
import ErodeTest.TiDsp.Erode

/-! # The back ends of the test program

What each back end of `main` stores for an image, given what else it depends on: the order
in which a device runs its work-items, registers and memory nobody has written, the rows
of memory that follow an image. All calls to a platform succeed here. For an image of a
suitable size none of this shows in the pixels a back end is compared at
(`Environment.paints_stores`), except for the TI DSP, which for some numbers of compute
units shows the row after the image.
-/

namespace ErodeTest.Main

open BufferProgram BufferProgram.Program Morphology

/-- What the back ends depend on besides the image, when all their calls to OpenCL, to
RenderScript and to GL succeed, and the DSP has a handle for each of its work-items. -/
structure Environment (w h : ℤ) where
  clOrder : List (ℤ × ℤ)
  clOrdered : clOrder.Perm (OpenCl.erodeRange w h).workItems
  /-- The compute units of the DSP. -/
  chunks : ℤ
  several : 1 ≤ chunks
  d_a : ℤ → UInt8
  d_b : ℤ → UInt8
  lines : ℤ → TiDsp.LineAddress → UInt8
  schedule : ℤ → AsyncCopy.Schedule
  dspOrder : List ℤ
  dspOrdered : dspOrder.Perm (TiDsp.workItems chunks)
  freshIn : UInt32 × UInt32 → UInt8
  freshOut : UInt32 × UInt32 → UInt8
  rsOrder : List (UInt32 × UInt32)
  rsOrdered : rsOrder.Perm (Rs.cells (Int32.ofInt w).toUInt32 (Int32.ofInt h).toUInt32)
  sseHeld : Sse.M128i
  neonHeld : Neon.U8x16
  halideOrder : List (ℤ × ℤ)
  halideScheduled : ∀ pixel, pixel ∈ halideOrder ↔ pixel ∈ frame w h
  glContext : Gl.Context
  glReached : Gl.Reached w h glContext

namespace Environment

variable {w h : ℤ} (env : Environment w h) (image : ℤ → UInt8)

/-! ## The stores of the back ends -/

/-- The input buffer of the DSP once `main` has copied the image to it. -/
def dspSource : ℤ → UInt8 := OpenCl.copyBytes (w * h) image env.d_a

/-- The output buffer of the DSP after the launch. -/
def dspResult : ℤ → UInt8 :=
  replay (TiDsp.launch (env.dspSource image) w h env.chunks env.lines env.schedule env.dspOrder)
    env.d_b

/-- The host side of the RenderScript back end once the image was copied to it. -/
def rsContext : Rs.Context :=
  let context := Rs.erode3x3_rs_init (Int32.ofInt w) (Int32.ofInt h) env.freshIn env.freshOut
  { context with
    ain := context.ain.copy2DStridedFrom image ((Int32.ofInt w).toInt % 2 ^ 64) }

/-- What `erode3x3_rs` copies out. -/
def rsStores : List (ℤ × UInt8) :=
  match (env.rsContext image).sc.forEach_root env.rsOrder (env.rsContext image).aout with
  | none => []
  | some aout => (Rs.cells aout.dimX aout.dimY).map fun c =>
      (Rs.offset ((Int32.ofInt w).toInt % 2 ^ 64) c, aout.cell c)

/-- What a call of a back end stores. -/
def stores : BackEnd → List (ℤ × UInt8)
  | .cl => (OpenCl.enqueueNDRangeKernel env.clOrder w).stores image
  | .tidsp => (counters 0 (w * h) 1).map fun k => (k, env.dspResult image k)
  | .rs => env.rsStores image
  | .sse => (Sse.erode3x3_sse env.sseHeld 0 0 w h).stores image
  | .neon => (Neon.erode3x3_neon env.neonHeld 0 0 w h).stores image
  | .halide => (Halide.erode3x3_halide env.halideOrder 0 0 w h).stores image
  | .gl => (Gl.erode3x3_gl env.glContext 0 0 w h).stores image

/-- With host pointers, as in `main`, reading the output buffer back changes nothing. -/
theorem erode3x3_cl_eq (freshA freshB content : ℤ → UInt8) :
    (OpenCl.erode3x3_cl (OpenCl.erode3x3_cl_init true freshA freshB) env.clOrder image content
      w h).2 = replay (env.stores image .cl) content := by
  funext k
  simp [OpenCl.erode3x3_cl, OpenCl.erode3x3_cl_init, OpenCl.copyBytes, stores]

/-- A launch that succeeds leaves what it stores in the caller's image. -/
theorem erode3x3_rs_eq (content : ℤ → UInt8) {out : ℤ → UInt8}
    (computed : Rs.erode3x3_rs env.rsOrder
      (Rs.erode3x3_rs_init (Int32.ofInt w) (Int32.ofInt h) env.freshIn env.freshOut) image content
      (Int32.ofInt w) (Int32.ofInt h) = some out) :
    out = replay (env.stores image .rs) content := by
  obtain ⟨aout, launched, copied⟩ := Option.bind_eq_some_iff.mp computed
  have known : (env.rsContext image).sc.forEach_root env.rsOrder (env.rsContext image).aout =
      some aout := launched
  rw [stores, rsStores, known]
  exact (Option.some.inj copied).symm

/-! ## The values stored -/

/-- The sizes of image a back end erodes. The SSE, the NEON and the DSP back end assert
theirs, and the code generated by Halide refuses lines shorter than a vector. Nothing checks
the range of RenderScript's integers, nor that the rows GL aligns to four bytes are the
image's. -/
def Suited (w h : ℤ) : BackEnd → Prop
  | .cl => True
  | .tidsp => w % 8 = 0 ∧ w < 2046 ∧ 2 < h
  | .rs => w < 2 ^ 31 ∧ h < 2 ^ 31
  | .sse => 16 < w
  | .neon => 16 ≤ w ∧ 2 < h
  | .halide => 8 ≤ w
  | .gl => w % 4 = 0

/-- The pixels a back end stores. -/
def region (w h : ℤ) : BackEnd → Set (ℤ × ℤ)
  | .cl => OpenCl.inner w h
  | _ => frame w h

/-- The value a back end stores at a pixel. -/
def value (pixel : ℤ × ℤ) : BackEnd → UInt8
  | .tidsp => TiDsp.launchValue (env.dspSource image) w h env.chunks pixel
  | _ => erosion (raster image w) w h pixel

/-- What follows the image does not show in the image of the DSP. -/
def Regular : Prop := h / env.chunks ≠ 2 ∨ TiDsp.HarmlessBelow (env.dspSource image) w h

/-- The buffer holds the image. -/
theorem dspSource_inside {k : ℤ} (lower : 0 ≤ k) (upper : k < w * h) :
    env.dspSource image k = image k := if_pos ⟨lower, upper⟩

theorem region_subset {backEnd : BackEnd} {pixel : ℤ × ℤ} (member : pixel ∈ region w h backEnd) :
    pixel ∈ frame w h := by
  cases backEnd with
  | cl => exact OpenCl.Setting.inner_frame member
  | tidsp | rs | sse | neon | halide | gl => exact member

/-- The pixels compared are pixels stored. -/
theorem window_subset (wide : 2 ≤ w) {backEnd : BackEnd} {pixel : ℤ × ℤ}
    (member : pixel ∈ backEnd.window w h) : pixel ∈ region w h backEnd := by
  cases backEnd with
  | cl =>
      obtain ⟨column, row⟩ := member
      rw [OpenCl.tdiv_width wide] at column
      exact ⟨by omega, by omega⟩
  | rs =>
      obtain ⟨column, row⟩ := member
      rw [OpenCl.tdiv_width wide] at column
      simp only [region, mem_frame]
      omega
  | tidsp | sse | neon | halide | gl => exact member

section Paints

variable (wide : 2 ≤ w)

include wide

theorem paints_dsp (suited : Suited w h .tidsp) :
    Paints (env.stores image .tidsp) w (frame w h) (env.value image · .tidsp) := by
  obtain ⟨aligned, _, rows⟩ := suited
  have launched {pixel : ℤ × ℤ} (inside : pixel ∈ frame w h) :
      env.dspResult image (address w pixel) = env.value image pixel .tidsp :=
    (TiDsp.paints_launch (by omega) aligned rows env.several (env.dspSource image) env.lines
      env.schedule env.dspOrdered).replay_inside (fun _ member => ⟨member.1, member.2.1⟩) _ inside
  intro k v
  simp only [stores, List.mem_map, mem_counters_one, Prod.mk.injEq]
  constructor
  · rintro ⟨_, ⟨lower, upper⟩, rfl, rfl⟩
    obtain ⟨pixel, inside, rfl⟩ := exists_pixel lower upper (by omega)
    exact ⟨pixel, inside, rfl, launched inside⟩
  · rintro ⟨pixel, inside, rfl, rfl⟩
    exact ⟨_, address_bounds inside, rfl, launched inside⟩

/-- The DSP erodes just when what follows the image does not show. -/
theorem value_dsp_eq_iff (suited : Suited w h .tidsp) :
    (∀ pixel ∈ frame w h, env.value image pixel .tidsp = erosion (raster image w) w h pixel) ↔
      env.Regular image := by
  have same : ∀ pixel ∈ frame w h,
      erosion (raster (env.dspSource image) w) w h pixel = erosion (raster image w) w h pixel :=
    fun pixel inside =>
      erosion_raster_congr (fun k lower upper => env.dspSource_inside image lower upper) inside
  rw [Regular, ← TiDsp.launchValue_eq_iff (by omega) suited.1 suited.2.2]
  exact forall₂_congr fun pixel inside => by rw [same pixel inside, value]

/-- Every back end but the DSP erodes, and the DSP where it is regular. -/
theorem value_eq_erosion {backEnd : BackEnd} (suited : Suited w h backEnd)
    (regular : backEnd = .tidsp → env.Regular image) {pixel : ℤ × ℤ} (inside : pixel ∈ frame w h) :
    env.value image pixel backEnd = erosion (raster image w) w h pixel := by
  cases backEnd with
  | tidsp => exact (env.value_dsp_eq_iff image wide suited).mpr (regular rfl) pixel inside
  | cl | rs | sse | neon | halide | gl => rfl

variable (tall : 2 ≤ h)

include tall

theorem paints_rs (suited : Suited w h .rs) :
    Paints (env.stores image .rs) w (frame w h) (erosion (raster image w) w h) := by
  have width := Int32.toInt_ofInt_of_le (by omega) suited.1
  have height := Int32.toInt_ofInt_of_le (by omega) suited.2
  have columns : 1 ≤ (Int32.ofInt w).toInt := by omega
  have rows : 1 ≤ (Int32.ofInt h).toInt := by omega
  have stride := Rs.stride_eq columns
  have loaded := Rs.loaded_copy columns rows env.freshIn image (env.rsContext image).aout
    ((Int32.ofInt w).toInt % 2 ^ 64)
  have launched := Rs.forEach_root_eq columns rows loaded env.rsOrdered (env.rsContext image).aout
    rfl rfl
  have computed : env.stores image .rs =
      (Rs.cells (Int32.ofInt w).toUInt32 (Int32.ofInt h).toUInt32).map fun c =>
        (Rs.offset w c, erosion (raster image w) w h (c.1.toNat, c.2.toNat)) := by
    rw [stores, rsStores]
    simp only [rsContext, Rs.erode3x3_rs_init] at launched ⊢
    rw [launched]
    refine List.map_congr_left fun c listed => ?_
    rw [stride, width, height]
    exact congrArg (Prod.mk _) (Rs.replay_cells id _ env.freshOut (fun _ _ _ _ same => same)
      (env.rsOrdered.mem_iff.mpr listed))
  rw [computed]
  have paints := Rs.paints_cells columns rows (erosion (raster image w) w h)
  rwa [width, height] at paints

/-- **What a back end stores** for an image of a suitable size. -/
theorem paints_stores {backEnd : BackEnd} (suited : Suited w h backEnd) :
    Paints (env.stores image backEnd) w (region w h backEnd) (env.value image · backEnd) := by
  cases backEnd with
  | cl => exact OpenCl.paints_enqueueNDRangeKernel wide image env.clOrdered
  | tidsp => exact env.paints_dsp image wide suited
  | rs => exact env.paints_rs image wide tall suited
  | sse => exact Sse.paints_erode3x3_sse suited tall env.sseHeld image
  | neon => exact Neon.paints_erode3x3_neon suited.1 suited.2 env.neonHeld image
  | halide => exact Halide.paints_erode3x3_halide env.halideScheduled image
  | gl =>
      have tight : Gl.rowStride 4 w = w :=
        (Gl.rowStride_eq_iff (by decide) w).mpr (Int.dvd_of_emod_eq_zero suited)
      have paints := Gl.paints_erode3x3_gl (env.glReached.ready (by omega) (by omega))
        (by omega) (by omega) image
      rwa [tight] at paints

end Paints

/-- There is an environment for every image as wide as a vector: nothing is reordered and all
memory is zero. -/
theorem exists_environment (w h chunks : ℤ) (wide : 8 ≤ w) (several : 1 ≤ chunks) :
    ∃ env : Environment w h, env.chunks = chunks := by
  refine ⟨{
    clOrder := (OpenCl.erodeRange w h).workItems
    clOrdered := List.Perm.refl _
    chunks := chunks
    several := several
    d_a := fun _ => 0
    d_b := fun _ => 0
    lines := fun _ _ => 0
    schedule := fun _ _ => []
    dspOrder := TiDsp.workItems chunks
    dspOrdered := List.Perm.refl _
    freshIn := fun _ => 0
    freshOut := fun _ => 0
    rsOrder := Rs.cells (Int32.ofInt w).toUInt32 (Int32.ofInt h).toUInt32
    rsOrdered := List.Perm.refl _
    sseHeld := fun _ => 0
    neonHeld := fun _ => 0
    halideOrder := Halide.vectorized 8 w h
    halideScheduled := fun _ => Halide.mem_vectorized (by decide) wide
    glContext := {
      renderedTexture := { width := w, height := h, texel := fun _ => 0 }
      inputTexture := { width := w, height := h, texel := fun _ => 0 } }
    glReached := .init (Gl.result_erode3x3_gl_init (fun _ => 0) (fun _ => 0) w h fun _ => 0) }, rfl⟩

end Environment

end ErodeTest.Main
