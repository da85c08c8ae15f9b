import ErodeTest.Gl.Context

/-! # The render pass of the GL implementation

`erode3x3_gl` of `erode_gl.cc` draws one triangle over the viewport. Its vertex
shader hands the texture coordinates on and its fragment shader takes the minimum of
nine texture lookups around them. The triangle covers every pixel, the lookups of a
pixel find the nine texels around the texel of the same coordinates, and the pass
leaves the erosion of the input texture (`render_erosion`).
-/

namespace ErodeTest.Gl

open BufferProgram Morphology Rasterization

def vVertices : List ℚ :=
  [-1, 3, 0, 0, 2,
    -1, -1, 0, 0, 0,
    3, -1, 0, 2, 0]

def attribPos : AttribPointer := { size := 3, stride := 5, array := vVertices }

def attribTex : AttribPointer := { size := 2, stride := 5, array := vVertices.drop 3 }

def vertexShader (aPosition aTexture : Vec4) : Vec4 × Vec2 :=
  (aPosition, (aTexture.x, aTexture.y))

/-- The color the fragment shader computes. -/
def fragmentShader (sTexture : Texture) (offset_x offset_y : ℚ) (vTexture : Vec2) : ℚ :=
  let color := texture2D sTexture vTexture
  let c := texture2D sTexture (vTexture + (-offset_x, 0))
  let color := min c color
  let c := texture2D sTexture (vTexture + (offset_x, 0))
  let color := min c color
  let c := texture2D sTexture (vTexture + (-offset_x, offset_y))
  let color := min c color
  let c := texture2D sTexture (vTexture + (0, offset_y))
  let color := min c color
  let c := texture2D sTexture (vTexture + (offset_x, offset_y))
  let color := min c color
  let c := texture2D sTexture (vTexture + (-offset_x, -offset_y))
  let color := min c color
  let c := texture2D sTexture (vTexture + (0, -offset_y))
  let color := min c color
  let c := texture2D sTexture (vTexture + (offset_x, -offset_y))
  min c color

/-- What the vertex shader makes of a corner of the triangle. -/
def vertices (k : Fin 3) : Vec4 × Vec2 :=
  vertexShader (attribPos.fetch k.val) (attribTex.fetch k.val)

/-- The commands between the upload and the read-back. -/
def render (context : Context) (w h : ℤ) : Context :=
  let context := glClear (glViewport context w h)
  glDrawArrays context vertices (fragmentShader context.inputTexture (1 / w) (1 / h))

/-- The corners of the triangle in the window. -/
def corners (w h : ℤ) (k : Fin 3) : ℚ × ℚ := windowPosition (w, h) (vertices k).1

section Triangle

variable (w h : ℤ)

theorem corners_zero : corners w h 0 = (0, 2 * (h : ℚ)) := by
  simp [corners, windowPosition, vertices, vertexShader, AttribPointer.fetch,
    AttribPointer.component, attribPos, vVertices]
  ring

theorem corners_one : corners w h 1 = (0, 0) := by
  simp [corners, windowPosition, vertices, vertexShader, AttribPointer.fetch,
    AttribPointer.component, attribPos, vVertices]

theorem corners_two : corners w h 2 = (2 * (w : ℚ), 0) := by
  simp [corners, windowPosition, vertices, vertexShader, AttribPointer.fetch,
    AttribPointer.component, attribPos, vVertices]
  ring

theorem vertices_w (k : Fin 3) : (vertices k).1.w = 1 := by
  simp [vertices, vertexShader, AttribPointer.fetch, AttribPointer.component, attribPos]

theorem vertices_texture :
    (vertices 0).2 = (0, 2) ∧ (vertices 1).2 = (0, 0) ∧ (vertices 2).2 = (2, 0) := by
  simp [vertices, vertexShader, AttribPointer.fetch, AttribPointer.component, attribTex, vVertices]

variable {w h} (wide : 0 < w) (tall : 0 < h)

include wide tall

theorem corners_proper : doubleArea (corners w h 0) (corners w h 1) (corners w h 2) ≠ 0 := by
  rw [corners_zero, corners_one, corners_two]
  simp [doubleArea, wide.ne', tall.ne']

/-- The horizontal texture coordinate of a point of the window. -/
theorem varying_fst (point : ℚ × ℚ) :
    varying (corners w h) (fun k => (vertices k).1.w) (fun k => (vertices k).2.1) point =
      point.1 / w := by
  have width : (w : ℚ) ≠ 0 := by exact_mod_cast wide.ne'
  obtain ⟨first, second, third⟩ := vertices_texture
  have affine (k : Fin 3) :
      (vertices k).2.1 = 1 / w * (corners w h k).1 + 0 * (corners w h k).2 + 0 := by
    fin_cases k <;> simp [first, second, third, corners_zero, corners_one, corners_two]
    field_simp
  rw [varying_affine (corners_proper wide tall) vertices_w affine]
  ring

/-- The vertical texture coordinate of a point of the window. -/
theorem varying_snd (point : ℚ × ℚ) :
    varying (corners w h) (fun k => (vertices k).1.w) (fun k => (vertices k).2.2) point =
      point.2 / h := by
  have height : (h : ℚ) ≠ 0 := by exact_mod_cast tall.ne'
  obtain ⟨first, second, third⟩ := vertices_texture
  have affine (k : Fin 3) :
      (vertices k).2.2 = 0 * (corners w h k).1 + 1 / h * (corners w h k).2 + 0 := by
    fin_cases k <;> simp [first, second, third, corners_zero, corners_one, corners_two]
    field_simp
  rw [varying_affine (corners_proper wide tall) vertices_w affine]
  ring

/-- The weights of the corners at a point of the window. -/
theorem weight_corners (point : ℚ × ℚ) :
    weight (corners w h) point 0 = point.2 / (2 * h) ∧
      weight (corners w h) point 1 = 1 - point.1 / (2 * w) - point.2 / (2 * h) ∧
        weight (corners w h) point 2 = point.1 / (2 * w) := by
  have width : (w : ℚ) ≠ 0 := by exact_mod_cast wide.ne'
  have height : (h : ℚ) ≠ 0 := by exact_mod_cast tall.ne'
  simp only [weight, Fin.reduceAdd, corners_zero, corners_one, corners_two, doubleArea]
  refine ⟨?_, ?_, ?_⟩ <;> field_simp <;> ring

/-- **The triangle covers the viewport.** -/
theorem covers_centre {pixel : ℤ × ℤ} (inside : pixel ∈ frame w h) :
    Covers (corners w h) (centre pixel) := by
  obtain ⟨left, right, bottom, top⟩ := inside
  obtain ⟨first, second, third⟩ := weight_corners wide tall (centre pixel)
  have width : (0 : ℚ) < w := by exact_mod_cast wide
  have height : (0 : ℚ) < h := by exact_mod_cast tall
  have column : 0 < (centre pixel).1 ∧ (centre pixel).1 < w := by
    have lower : (0 : ℚ) ≤ pixel.1 := by exact_mod_cast left
    have upper : (pixel.1 : ℚ) + 1 ≤ w := by exact_mod_cast right
    simp only [centre]
    constructor <;> linarith
  have row : 0 < (centre pixel).2 ∧ (centre pixel).2 < h := by
    have lower : (0 : ℚ) ≤ pixel.2 := by exact_mod_cast bottom
    have upper : (pixel.2 : ℚ) + 1 ≤ h := by exact_mod_cast top
    simp only [centre]
    constructor <;> linarith
  have half : (centre pixel).1 / (2 * w) < 1 / 2 := by
    rw [div_lt_iff₀ (by linarith)]
    linarith
  have otherHalf : (centre pixel).2 / (2 * h) < 1 / 2 := by
    rw [div_lt_iff₀ (by linarith)]
    linarith
  refine Fin.forall_fin_succ.mpr ⟨?_, Fin.forall_fin_two.mpr ⟨?_, ?_⟩⟩
  · rw [first]
    exact div_pos row.1 (by linarith)
  · exact second.symm ▸ by linarith
  · exact third.symm ▸ div_pos column.1 (by linarith)

end Triangle

section Shade

variable {texture : Texture} (wide : 0 < texture.width) (tall : 0 < texture.height)

include wide tall

/-- A lookup at the centre of a pixel moved by whole pixels. -/
theorem texture2D_centre (pixel : ℤ × ℤ) (offset : Vec2) (dx dy : ℤ)
    (column : offset.1 = dx * (1 / texture.width)) (row : offset.2 = dy * (1 / texture.height)) :
    texture2D texture
        (((centre pixel).1 / texture.width, (centre pixel).2 / texture.height) + offset) =
      normalized (texture.texel
        (clamp texture.width (pixel.1 + dx), clamp texture.height (pixel.2 + dy))) := by
  simp only [texture2D, centre, Prod.fst_add, Prod.snd_add, column, row, nearestTexel_centre wide,
    nearestTexel_centre tall]

/-- **The fragment shader erodes.** -/
theorem quantize_fragmentShader (pixel : ℤ × ℤ) :
    quantize (fragmentShader texture (1 / texture.width) (1 / texture.height)
        ((centre pixel).1 / texture.width, (centre pixel).2 / texture.height)) =
      erosion texture.texel texture.width texture.height pixel := by
  have lookup := texture2D_centre wide tall pixel
  have here := lookup 0 0 0 (by simp) (by simp)
  rw [add_zero] at here
  simp only [fragmentShader, here,
    lookup (-(1 / texture.width), 0) (-1) 0 (by simp) (by simp),
    lookup (1 / texture.width, 0) 1 0 (by simp) (by simp),
    lookup (-(1 / texture.width), 1 / texture.height) (-1) 1 (by simp) (by simp),
    lookup (0, 1 / texture.height) 0 1 (by simp) (by simp),
    lookup (1 / texture.width, 1 / texture.height) 1 1 (by simp) (by simp),
    lookup (-(1 / texture.width), -(1 / texture.height)) (-1) (-1) (by simp) (by simp),
    lookup (0, -(1 / texture.height)) 0 (-1) (by simp) (by simp),
    lookup (1 / texture.width, -(1 / texture.height)) 1 (-1) (by simp) (by simp),
    ← normalized_mono.map_min, quantize_normalized]
  apply eq_of_forall_le_iff
  intro b
  simp only [erosion, min3, le_min_iff]
  tauto

end Shade

/-- **The render pass leaves the erosion of the input texture.** -/
theorem render_erosion {context : Context} {w h : ℤ} (wide : 0 < w) (tall : 0 < h)
    (width : context.inputTexture.width = w) (height : context.inputTexture.height = h)
    {pixel : ℤ × ℤ} (inside : pixel ∈ frame w h) :
    (render context w h).renderedTexture.texel pixel =
      erosion context.inputTexture.texel w h pixel := by
  have covered : pixel ∈ fragments (w, h) (corners w h) := by
    simp only [fragments, List.mem_filter, mem_pixels, decide_eq_true_eq]
    exact ⟨inside, covers_centre wide tall inside⟩
  subst width height
  rw [← quantize_fragmentShader wide tall, ← varying_fst wide tall, ← varying_snd wide tall]
  exact Texture.write_inside _ _ covered

/-- **The render pass covers every pixel with the minimum of its nine texels.** No row or
column is mirrored or moved. -/
theorem render_pixel (context : Context) {w h : ℤ} (wide : 1 ≤ w) (tall : 1 ≤ h)
    (width : context.inputTexture.width = w) (height : context.inputTexture.height = h)
    {i j : ℤ} (left : 0 ≤ i) (right : i < w) (bottom : 0 ≤ j) (top : j < h) :
    (Covers (corners w h) (centre (i, j)) ∧ (i, j) ∈ fragments (w, h) (corners w h)) ∧
      IsLeast {b | ∃ dx ∈ ({-1, 0, 1} : Set ℤ), ∃ dy ∈ ({-1, 0, 1} : Set ℤ),
          b = context.inputTexture.texel (clamp w (i + dx), clamp h (j + dy))}
        ((render context w h).renderedTexture.texel (i, j)) := by
  have inside : (i, j) ∈ frame w h := ⟨left, right, bottom, top⟩
  have covered := covers_centre (by omega) (by omega) inside
  refine ⟨⟨covered, ?_⟩, ?_⟩
  · simp only [fragments, List.mem_filter, mem_pixels, decide_eq_true_eq]
    exact ⟨inside, covered⟩
  · rw [render_erosion (by omega) (by omega) width height inside,
      ← image_window_eq_offsets _ inside]
    exact minOver_erosion _ inside

/-- The left one of two pixels takes the lesser value of the right one. -/
theorem render_pixel_two_by_one :
    (render
        { inputTexture := ⟨2, 1, fun pixel => if pixel = (1, 0) then 4 else 9⟩
          renderedTexture := ⟨2, 1, fun _ => 0⟩ } 2 1).renderedTexture.texel (0, 0) ≤ 4 := by
  apply (render_pixel _ (by decide) (by decide) rfl rfl (by decide) (by decide) (by decide)
    (by decide)).2.2
  exact ⟨1, by simp, 0, by simp, by decide⟩

end ErodeTest.Gl
