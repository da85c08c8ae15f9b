import ErodeTest.Foundation.Program
import ErodeTest.Foundation.Raster
import ErodeTest.Foundation.Rasterization

/-! # OpenGL ES

The state of a context and the commands `erode_gl.cc` issues, as far as they touch
client memory, textures and the framebuffer. Both textures hold one eight-bit
channel, and lookups are nearest and clamped to the edge, as set when the textures
are created; arithmetic is exact.

Client memory and textures differ in layout: a row of a texture is tight, whereas a
row in client memory starts at a multiple of the alignment in force
(`rowStride`). That alignment is four unless `glPixelStorei` changes it.
-/

namespace ErodeTest.Gl

open BufferProgram BufferProgram.Program Morphology Rasterization

abbrev Vec2 : Type := ℚ × ℚ

structure Vec4 where
  x : ℚ
  y : ℚ
  z : ℚ
  w : ℚ

structure Texture where
  width : ℤ
  height : ℤ
  texel : ℤ × ℤ → UInt8

/-- A texture after texels are written one after the other. -/
def Texture.write (texture : Texture) (texels : List ((ℤ × ℤ) × UInt8)) : Texture :=
  { texture with texel := replay texels texture.texel }

/-- A vertex attribute: the number of its components and where they lie in an array. -/
structure AttribPointer where
  size : ℕ
  stride : ℕ
  array : List ℚ

/-- A component of the attribute of a vertex, or its default where the array has none. -/
def AttribPointer.component (pointer : AttribPointer) (vertex component : ℕ) (default : ℚ) : ℚ :=
  if component < pointer.size then pointer.array.getD (vertex * pointer.stride + component) 0
  else default

def AttribPointer.fetch (pointer : AttribPointer) (vertex : ℕ) : Vec4 where
  x := pointer.component vertex 0 0
  y := pointer.component vertex 1 0
  z := pointer.component vertex 2 0
  w := pointer.component vertex 3 1

structure Context where
  unpackAlignment : ℤ := 4
  packAlignment : ℤ := 4
  inputTexture : Texture
  renderedTexture : Texture
  viewport : ℤ × ℤ := (0, 0)
  error : Bool := false

/-- The pixels of a rectangle at the origin, row by row. -/
def pixels (width height : ℤ) : List (ℤ × ℤ) :=
  (counters 0 height 1).flatMap fun y => (counters 0 width 1).map fun x => (x, y)

/-- The distance in bytes between two rows in client memory. -/
def rowStride (alignment width : ℤ) : ℤ := (width + alignment - 1) / alignment * alignment

/-- Upload client memory into the lower left of the input texture. -/
def glTexSubImage2D (context : Context) (width height in_data : ℤ) : Program UInt8 Context :=
  if width < 0 ∨ context.inputTexture.width < width ∨
      height < 0 ∨ context.inputTexture.height < height then
    pure { context with error := true }
  else do
    let texels ← (pixels width height).mapM fun pixel => do
      let value ← load (in_data + address (rowStride context.unpackAlignment width) pixel)
      pure (pixel, value)
    pure { context with inputTexture := context.inputTexture.write texels }

/-- Read the lower left of the framebuffer back into client memory. -/
def glReadPixels (context : Context) (width height out_data : ℤ) : Program UInt8 Unit :=
  forM (pixels width height) fun pixel =>
    store (out_data + address (rowStride context.packAlignment width) pixel)
      (context.renderedTexture.texel pixel)

def glViewport (context : Context) (width height : ℤ) : Context :=
  { context with viewport := (width, height) }

def glClear (context : Context) : Context :=
  { context with renderedTexture := { context.renderedTexture with texel := fun _ => 0 } }

/-- The value of the red channel found at a normalized coordinate. -/
def texture2D (texture : Texture) (coordinate : Vec2) : ℚ :=
  normalized (texture.texel
    (nearestTexel texture.width coordinate.1, nearestTexel texture.height coordinate.2))

/-- The window position of a vertex: perspective division and viewport transform. -/
def windowPosition (viewport : ℤ × ℤ) (position : Vec4) : ℚ × ℚ :=
  ((position.x / position.w + 1) * (viewport.1 / 2),
    (position.y / position.w + 1) * (viewport.2 / 2))

/-- A varying at a point of the window, interpolated with correct perspective. -/
def varying (corners : Fin 3 → ℚ × ℚ) (w value : Fin 3 → ℚ) (point : ℚ × ℚ) : ℚ :=
  interpolate corners (fun k => value k / w k) point / interpolate corners (fun k => 1 / w k) point

/-- The pixels of the viewport a triangle covers. -/
def fragments (viewport : ℤ × ℤ) (corners : Fin 3 → ℚ × ℚ) : List (ℤ × ℤ) :=
  (pixels viewport.1 viewport.2).filter fun pixel => Covers corners (centre pixel)

/-- Draw one triangle, given the positions and the varyings the vertex shader gives its
corners and the color the fragment shader makes of a varying. -/
def glDrawArrays (context : Context) (vertices : Fin 3 → Vec4 × Vec2) (color : Vec2 → ℚ) :
    Context :=
  let corners k := windowPosition context.viewport (vertices k).1
  let interpolated (component : Vec2 → ℚ) pixel :=
    varying corners (fun k => (vertices k).1.w) (fun k => component (vertices k).2) (centre pixel)
  let shade pixel := quantize (color (interpolated Prod.fst pixel, interpolated Prod.snd pixel))
  { context with
    renderedTexture := context.renderedTexture.write
      ((fragments context.viewport corners).map fun pixel => (pixel, shade pixel)) }

/-! ## Layout of client memory -/

@[simp] theorem mem_pixels {width height : ℤ} {pixel : ℤ × ℤ} :
    pixel ∈ pixels width height ↔ pixel ∈ frame width height := by
  simp only [pixels, List.mem_flatMap, List.mem_map, mem_counters_one, mem_frame]
  constructor
  · rintro ⟨y, row, x, column, rfl⟩
    exact ⟨column.1, column.2, row⟩
  · rintro ⟨left, right, row⟩
    exact ⟨pixel.2, row, pixel.1, ⟨left, right⟩, rfl⟩

theorem le_rowStride {alignment : ℤ} (positive : 0 < alignment) (width : ℤ) :
    width ≤ rowStride alignment width := by
  have split := Int.mul_ediv_add_emod (width + alignment - 1) alignment
  have below := Int.emod_lt_of_pos (width + alignment - 1) positive
  rw [mul_comm] at split
  unfold rowStride
  omega

/-- Rows in client memory are tight when the alignment divides the width. -/
theorem rowStride_eq_iff {alignment : ℤ} (positive : 0 < alignment) (width : ℤ) :
    rowStride alignment width = width ↔ alignment ∣ width := by
  constructor
  · intro tight
    exact ⟨(width + alignment - 1) / alignment, by rw [mul_comm]; exact tight.symm⟩
  · rintro ⟨rows, rfl⟩
    have padded : alignment * rows + alignment - 1 = (alignment - 1) + rows * alignment := by ring
    rw [rowStride, padded, Int.add_mul_ediv_right _ _ positive.ne',
      Int.ediv_eq_zero_of_lt (by omega) (by omega), zero_add, mul_comm]

/-! ## Effect of the commands -/

/-- Without perspective, affine varyings are interpolated exactly. -/
theorem varying_affine {corners : Fin 3 → ℚ × ℚ}
    (proper : doubleArea (corners 0) (corners 1) (corners 2) ≠ 0) {w value : Fin 3 → ℚ}
    (flat : ∀ k, w k = 1) {a b c : ℚ}
    (affine : ∀ k, value k = a * (corners k).1 + b * (corners k).2 + c) (point : ℚ × ℚ) :
    varying corners w value point = a * point.1 + b * point.2 + c := by
  have one : interpolate corners (fun k => 1 / w k) point = 0 * point.1 + 0 * point.2 + 1 :=
    interpolate_affine proper (fun k => by simp [flat k]) point
  have whole : interpolate corners (fun k => value k / w k) point =
      a * point.1 + b * point.2 + c :=
    interpolate_affine proper (fun k => by rw [flat k, div_one, affine k]) point
  rw [varying, one, whole]
  simp

section Commands

variable {width height : ℤ}

/-- A texture written all over holds what was written. -/
theorem Texture.write_inside (texture : Texture) {region : List (ℤ × ℤ)}
    (value : ℤ × ℤ → UInt8) {pixel : ℤ × ℤ} (inside : pixel ∈ region) :
    (texture.write (region.map fun pixel => (pixel, value pixel))).texel pixel = value pixel := by
  apply replay_of_stored
  · exact List.mem_map.mpr ⟨pixel, inside, rfl⟩
  · intro other member
    obtain ⟨found, _, same⟩ := List.mem_map.mp member
    rw [Prod.mk.injEq] at same
    rw [← same.2, same.1]

section Upload

variable {context : Context} (width_le : 0 ≤ width ∧ width ≤ context.inputTexture.width)
  (height_le : 0 ≤ height ∧ height ≤ context.inputTexture.height) (in_data : ℤ) (input : ℤ → UInt8)

include width_le height_le

theorem result_glTexSubImage2D :
    (glTexSubImage2D context width height in_data).result input =
      some { context with
        inputTexture := context.inputTexture.write ((pixels width height).map fun pixel =>
          (pixel, input (in_data + address (rowStride context.unpackAlignment width) pixel))) } := by
  rw [glTexSubImage2D, if_neg (by omega), result_bind_of (result_mapM _ _ fun pixel => rfl)]
  rfl

theorem collect_glTexSubImage2D {δ : Type} (select : Access UInt8 → Option δ) :
    (glTexSubImage2D context width height in_data).collect select input =
      (pixels width height).flatMap fun pixel =>
        (load (in_data + address (rowStride context.unpackAlignment width) pixel) :
          Program UInt8 UInt8).collect select input := by
  rw [glTexSubImage2D, if_neg (by omega),
    collect_bind_of select (result_mapM _ _ fun pixel => rfl),
    collect_mapM _ _ fun pixel => rfl, collect_pure, List.append_nil]
  simp only [collect_load_bind, collect_pure, List.append_nil]

theorem loads_glTexSubImage2D :
    (glTexSubImage2D context width height in_data).loads input =
      (pixels width height).map fun pixel =>
        in_data + address (rowStride context.unpackAlignment width) pixel := by
  rw [loads, collect_glTexSubImage2D width_le height_le, List.map_eq_flatMap]
  rfl

theorem stores_glTexSubImage2D :
    (glTexSubImage2D context width height in_data).stores input = [] := by
  rw [stores, collect_glTexSubImage2D width_le height_le, List.flatMap_eq_nil_iff]
  exact fun pixel _ => stores_load input _

end Upload

variable (context : Context) (out_data : ℤ) (input : ℤ → UInt8)

theorem result_glReadPixels :
    (glReadPixels context width height out_data).result input = some () :=
  result_forM _ _ fun _ => rfl

theorem loads_glReadPixels :
    (glReadPixels context width height out_data).loads input = [] := by
  rw [glReadPixels, loads, collect_forM _ _ fun _ => rfl, List.flatMap_eq_nil_iff]
  exact fun pixel _ => loads_store input _ _

theorem stores_glReadPixels :
    (glReadPixels context width height out_data).stores input =
      (pixels width height).map fun pixel =>
        (out_data + address (rowStride context.packAlignment width) pixel,
          context.renderedTexture.texel pixel) := by
  rw [glReadPixels, stores, collect_forM _ _ fun _ => rfl, List.map_eq_flatMap]
  rfl

end Commands

end ErodeTest.Gl
