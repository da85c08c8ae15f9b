import ErodeTest.Gl.Render
import ErodeTest.Scalar.Erode

/-! # The GL implementation

`erode3x3_gl_init` of `erode_gl.cc` creates two textures of the size of the image,
and `erode3x3_gl` uploads the image into one, renders into the other and reads that
back. Neither sets the alignment of rows in client memory, so both transfers take
rows to start at multiples of four bytes, whereas the image is tight. The
implementation agrees with the scalar one and stays inside the image exactly for
widths that are multiples of four (`erode3x3_gl_eq_erode3x3_iff`).
-/

namespace ErodeTest.Gl

open BufferProgram BufferProgram.Program Morphology

/-- Create the textures, whose texels are arbitrary until written. The program ends where
textures of a single channel are not supported. -/
def erode3x3_gl_init (redOnlyTextureSupport : Bool) (rendered uploaded : ℤ × ℤ → UInt8)
    (w h : ℤ) : Program UInt8 Context := do
  assert redOnlyTextureSupport
  pure {
    renderedTexture := { width := w, height := h, texel := rendered }
    inputTexture := { width := w, height := h, texel := uploaded } }

theorem result_erode3x3_gl_init (rendered uploaded : ℤ × ℤ → UInt8) (w h : ℤ)
    (input : ℤ → UInt8) :
    (erode3x3_gl_init true rendered uploaded w h).result input =
      some {
        renderedTexture := { width := w, height := h, texel := rendered }
        inputTexture := { width := w, height := h, texel := uploaded } } :=
  result_assert_bind _ rfl _

/-- `CHECK_GL_ERROR` ends the program after an error. -/
def checkGlError (context : Context) : Program UInt8 Unit := assert (context.error = false)

def erode3x3_gl (context : Context) (in_data out_data w h : ℤ) : Program UInt8 Context := do
  let context ← glTexSubImage2D context w h in_data
  let context := render context w h
  checkGlError context
  glReadPixels context w h out_data
  checkGlError context
  pure context

/-- The contexts that initialization and calls for one image size lead to. -/
inductive Reached (w h : ℤ) : Context → Prop
  | init {support : Bool} {rendered uploaded : ℤ × ℤ → UInt8} {input : ℤ → UInt8}
      {context : Context}
      (created : (erode3x3_gl_init support rendered uploaded w h).result input = some context) :
      Reached w h context
  | call {context next : Context} {input : ℤ → UInt8} (before : Reached w h context)
      (called : (erode3x3_gl context 0 0 w h).result input = some next) : Reached w h next

/-- What holds between two calls. -/
structure Ready (w h : ℤ) (context : Context) : Prop where
  width : context.inputTexture.width = w
  height : context.inputTexture.height = h
  unpack : context.unpackAlignment = 4
  pack : context.packAlignment = 4
  valid : context.error = false

section Call

variable {w h : ℤ} {context : Context} (ready : Ready w h context) (wide : 0 < w) (tall : 0 < h)
  (input : ℤ → UInt8)

/-- The context of a call after the upload. -/
def uploaded (w h : ℤ) (input : ℤ → UInt8) (context : Context) : Context :=
  { context with
    inputTexture := context.inputTexture.write
      ((pixels w h).map fun pixel => (pixel, raster input (rowStride 4 w) pixel)) }

include ready

theorem Ready.uploaded : Ready w h (uploaded w h input context) :=
  ⟨ready.width, ready.height, ready.unpack, ready.pack, ready.valid⟩

theorem Ready.render (w' h' : ℤ) : Ready w h (render context w' h') :=
  ⟨ready.width, ready.height, ready.unpack, ready.pack, ready.valid⟩

include wide tall

theorem result_upload :
    (glTexSubImage2D context w h 0).result input = some (uploaded w h input context) := by
  rw [result_glTexSubImage2D (by rw [ready.width]; omega) (by rw [ready.height]; omega)]
  simp only [uploaded, ready.unpack, zero_add, raster]

/-- The context after a call. -/
theorem result_erode3x3_gl :
    (erode3x3_gl context 0 0 w h).result input =
      some (render (uploaded w h input context) w h) := by
  have valid := ((ready.uploaded input).render w h).valid
  rw [erode3x3_gl, result_bind_of (result_upload ready wide tall input)]
  simp only [checkGlError]
  rw [result_assert_bind _ valid, result_bind_of (result_glReadPixels _ _ _),
    result_assert_bind _ valid, result_pure]

theorem collect_erode3x3_gl {δ : Type} (select : Access UInt8 → Option δ) :
    (erode3x3_gl context 0 0 w h).collect select input =
      (glTexSubImage2D context w h 0).collect select input ++
        (glReadPixels (render (uploaded w h input context) w h) w h 0).collect select input := by
  have valid := ((ready.uploaded input).render w h).valid
  rw [erode3x3_gl, collect_bind_of select (result_upload ready wide tall input)]
  simp only [checkGlError]
  rw [collect_assert_bind select _ valid, collect_bind_of select (result_glReadPixels _ _ _),
    collect_assert_bind select _ valid, collect_pure, List.append_nil]

/-- A call reads the bytes of all pixels in rows of the aligned width. -/
theorem loads_erode3x3_gl :
    (erode3x3_gl context 0 0 w h).loads input = (pixels w h).map (address (rowStride 4 w)) := by
  have accesses : (erode3x3_gl context 0 0 w h).loads input =
      (glTexSubImage2D context w h 0).loads input ++
        (glReadPixels (render (uploaded w h input context) w h) w h 0).loads input :=
    collect_erode3x3_gl ready wide tall input Access.load?
  rw [accesses, loads_glReadPixels, List.append_nil,
    loads_glTexSubImage2D (by rw [ready.width]; omega) (by rw [ready.height]; omega), ready.unpack]
  simp only [zero_add]

/-- **A call erodes the image with rows of the aligned width.** -/
theorem paints_erode3x3_gl :
    Paints ((erode3x3_gl context 0 0 w h).stores input) (rowStride 4 w) (frame w h)
      (erosion (raster input (rowStride 4 w)) w h) := by
  have eroded : ∀ pixel ∈ frame w h,
      (render (uploaded w h input context) w h).renderedTexture.texel pixel =
        erosion (raster input (rowStride 4 w)) w h pixel := by
    intro pixel inside
    rw [render_erosion wide tall (ready.uploaded input).width (ready.uploaded input).height inside]
    exact erosion_congr (fun q member => Texture.write_inside _ _ (mem_pixels.mpr member)) inside
  have pack := ((ready.uploaded input).render w h).pack
  have accesses : (erode3x3_gl context 0 0 w h).stores input =
      (glTexSubImage2D context w h 0).stores input ++
        (glReadPixels (render (uploaded w h input context) w h) w h 0).stores input :=
    collect_erode3x3_gl ready wide tall input Access.store?
  intro k v
  rw [accesses, stores_glReadPixels, pack,
    stores_glTexSubImage2D (by rw [ready.width]; omega) (by rw [ready.height]; omega)]
  simp only [List.nil_append, List.mem_map, mem_pixels, zero_add, Prod.mk.injEq]
  refine exists_congr fun pixel => and_congr_right fun inside => ?_
  rw [eroded pixel inside, eq_comm, @eq_comm _ _ v]

end Call

/-- Initialization and calls keep the context ready. -/
theorem Reached.ready {w h : ℤ} (wide : 0 < w) (tall : 0 < h) {context : Context}
    (reached : Reached w h context) : Ready w h context := by
  induction reached with
  | @init support _ _ _ _ created =>
      cases support with
      | false => cases created
      | true =>
          rw [result_erode3x3_gl_init, Option.some.injEq] at created
          subst created
          exact ⟨rfl, rfl, rfl, rfl, rfl⟩
  | call _ called ready =>
      rw [result_erode3x3_gl ready wide tall, Option.some.injEq] at called
      subst called
      exact (ready.uploaded _).render w h

/-- A call completes with the result of the scalar implementation, and reads and writes
the image only. -/
def AgreesInside (w h : ℤ) (input : ℤ → UInt8) (context : Context) : Prop :=
  ((erode3x3_gl context 0 0 w h).result input).isSome ∧
    (∀ content scalarContent k, 0 ≤ k → k < w * h →
      replay ((erode3x3_gl context 0 0 w h).stores input) content k =
        replay ((Scalar.erode3x3 0 0 w h).stores input) scalarContent k) ∧
    (∀ k ∈ (erode3x3_gl context 0 0 w h).loads input, 0 ≤ k ∧ k < w * h) ∧
    ∀ k v, (k, v) ∈ (erode3x3_gl context 0 0 w h).stores input → 0 ≤ k ∧ k < w * h

section Alignment

variable {w h : ℤ} (wide : 2 ≤ w) (tall : 2 ≤ h) {context : Context} (reached : Reached w h context)
  (input : ℤ → UInt8)

include wide tall reached

/-- Rows that are not tight end past the image. -/
theorem reads_past (padded : w < rowStride 4 w) :
    ∃ k ∈ (erode3x3_gl context 0 0 w h).loads input, w * h ≤ k := by
  have ready := reached.ready (by omega) (by omega)
  refine ⟨address (rowStride 4 w) (w - 1, h - 1), ?_, ?_⟩
  · rw [loads_erode3x3_gl ready (by omega) (by omega)]
    refine List.mem_map_of_mem (mem_pixels.mpr ?_)
    simp only [mem_frame]
    omega
  · have := mul_le_mul_of_nonneg_left (Int.add_one_le_of_lt padded) (by omega : 0 ≤ h - 1)
    simp only [address]
    linarith

/-- **The GL implementation agrees with the scalar one, and stays inside the image,
exactly for widths that are multiples of four**, in every call after initialization. -/
theorem erode3x3_gl_eq_erode3x3_iff : AgreesInside w h input context ↔ w % 4 = 0 := by
  have ready := reached.ready (by omega) (by omega)
  have tight := rowStride_eq_iff (by decide : (0 : ℤ) < 4) w
  rw [Int.dvd_iff_emod_eq_zero] at tight
  rw [← tight]
  constructor
  · rintro ⟨_, _, inside, _⟩
    by_contra padded
    have wider := lt_of_le_of_ne (le_rowStride (by decide : (0 : ℤ) < 4) w) (Ne.symm padded)
    obtain ⟨k, read, past⟩ := reads_past wide tall reached input wider
    exact absurd (inside k read).2 (not_lt.mpr past)
  · intro multiple
    have paints := paints_erode3x3_gl ready (by omega) (by omega) input
    have loaded := loads_erode3x3_gl ready (by omega) (by omega) input
    rw [multiple] at paints loaded
    refine ⟨?_, ?_, ?_, ?_⟩
    · rw [result_erode3x3_gl ready (by omega) (by omega)]
      rfl
    · intro content scalarContent k lower upper
      exact paints.replay_eq (Scalar.paints_erode3x3 wide tall input) (by omega) content
        scalarContent lower upper
    · intro k read
      rw [loaded] at read
      obtain ⟨pixel, inside, rfl⟩ := List.mem_map.mp read
      exact address_bounds (mem_pixels.mp inside)
    · intro k v written
      obtain ⟨pixel, inside, rfl, _⟩ := (paints k v).mp written
      exact address_bounds inside

end Alignment

/-- On an image eight pixels wide the first call agrees with the scalar implementation. -/
theorem erode3x3_gl_eq_erode3x3_iff_eight_wide :
    AgreesInside 8 2 (fun k => UInt8.ofNat (200 - k.toNat))
      { renderedTexture := { width := 8, height := 2, texel := fun _ => 0 }
        inputTexture := { width := 8, height := 2, texel := fun _ => 0 } } :=
  (erode3x3_gl_eq_erode3x3_iff (by decide) (by decide)
    (.init (result_erode3x3_gl_init (fun _ => 0) (fun _ => 0) 8 2 fun _ => 0)) _).mpr (by decide)

/-- On an image two pixels wide the first call reads the image's bytes four and five, which
it does not have. -/
theorem erode3x3_gl_reads_past_the_image :
    ¬ ∀ w h, 2 ≤ w → 2 ≤ h → ∀ context, Reached w h context → ∀ input,
      AgreesInside w h input context := by
  intro agrees
  have reached : Reached 2 2 _ :=
    .init (result_erode3x3_gl_init (fun _ => 0) (fun _ => 0) 2 2 fun _ => 0)
  obtain ⟨k, read, past⟩ :=
    reads_past (by decide) (by decide) reached (fun _ => 0) (by decide : (2 : ℤ) < rowStride 4 2)
  have inside := (agrees 2 2 (by decide) (by decide) _ reached fun _ => 0).2.2.1 k read
  omega

end ErodeTest.Gl
