import ErodeTest.OpenCl.Erode

/-! # The host side of the OpenCL implementation

`erode3x3_cl_init` and `erode3x3_cl` of `erode_cl.cc` as far as they set up and copy
buffers. With host pointers the two buffers are the caller's images. Without, they are
created on the device, where they start with arbitrary bytes; the input is copied in,
and in both modes the whole output buffer is copied out.

The kernel stores the inner pixels only, so the border of the image the caller gets
is what the output buffer started with: the caller's own bytes with host pointers,
and what the device left there without (`erode3x3_cl_eq_iff`).
-/

namespace ErodeTest.OpenCl

open BufferProgram BufferProgram.Program Morphology

/-- The static variables of `erode_cl.cc` that hold data. -/
structure Session where
  useHostPtr : Bool
  d_a : ℤ → UInt8
  d_b : ℤ → UInt8

/-- Copy a number of bytes from the start of one memory to the start of another. -/
def copyBytes (bytes : ℤ) (source target : ℤ → UInt8) : ℤ → UInt8 := fun k =>
  if 0 ≤ k ∧ k < bytes then source k else target k

/-- A successful `erode3x3_cl_init`. The bytes of the buffers are arbitrary. -/
def erode3x3_cl_init (use_host_ptr : Bool) (freshA freshB : ℤ → UInt8) : Session where
  useHostPtr := use_host_ptr
  d_a := freshA
  d_b := freshB

/-- A successful `erode3x3_cl`, with the order in which the device runs the work-items. A
buffer with a host pointer shares the host bytes, so the kernel writes through. -/
def erode3x3_cl (session : Session) (order : List (ℤ × ℤ)) (in_data out_data : ℤ → UInt8)
    (w h : ℤ) : Session × (ℤ → UInt8) :=
  let bytes := w * h
  let (d_a, d_b) :=
    if session.useHostPtr then (in_data, out_data)
    else (copyBytes bytes in_data session.d_a, session.d_b)
  let d_b := replay ((enqueueNDRangeKernel order w).stores d_a) d_b
  let out_data := if session.useHostPtr then d_b else out_data
  ({ session with d_a := d_a, d_b := d_b }, copyBytes bytes d_b out_data)

/-- What a run depends on besides the arguments of the call: the mode, the bytes of newly
created buffers and the order of the work-items. -/
structure Setting (w h : ℤ) where
  use_host_ptr : Bool
  freshA : ℤ → UInt8
  freshB : ℤ → UInt8
  order : List (ℤ × ℤ)
  ordered : order.Perm (erodeRange w h).workItems

namespace Setting

variable {w h : ℤ} (setting : Setting w h) (in_data out_data : ℤ → UInt8)

/-- The output image after initialization and one call. -/
def output : ℤ → UInt8 :=
  (erode3x3_cl (erode3x3_cl_init setting.use_host_ptr setting.freshA setting.freshB)
    setting.order in_data out_data w h).2

/-- What the output buffer holds before the kernel runs. -/
def start : ℤ → UInt8 := if setting.use_host_ptr then out_data else setting.freshB

/-- What the kernel reads. -/
def source : ℤ → UInt8 :=
  if setting.use_host_ptr then in_data else copyBytes (w * h) in_data setting.freshA

theorem source_inside {k : ℤ} (lower : 0 ≤ k) (upper : k < w * h) :
    setting.source in_data k = in_data k := by
  unfold source copyBytes
  split
  · rfl
  · exact if_pos ⟨lower, upper⟩

theorem output_inside {k : ℤ} (lower : 0 ≤ k) (upper : k < w * h) :
    setting.output in_data out_data k =
      replay ((enqueueNDRangeKernel setting.order w).stores (setting.source in_data))
        (setting.start out_data) k := by
  unfold output erode3x3_cl erode3x3_cl_init source start copyBytes
  cases setting.use_host_ptr <;> simp [lower, upper]

theorem inner_frame {pixel : ℤ × ℤ} (inside : pixel ∈ inner w h) : pixel ∈ frame w h := by
  obtain ⟨column, row⟩ := inside
  simp only [mem_frame]
  omega

variable (wide : 2 ≤ w)

include wide

theorem paints_kernel :
    Paints ((enqueueNDRangeKernel setting.order w).stores (setting.source in_data)) w (inner w h)
      (erosion (raster in_data w) w h) := by
  refine (paints_enqueueNDRangeKernel wide _ setting.ordered).value_congr fun pixel inside => ?_
  apply erosion_raster_congr fun k lower upper => setting.source_inside in_data lower upper
  exact inner_frame inside

/-- The inner pixels are eroded in every setting. -/
theorem output_inner {pixel : ℤ × ℤ} (inside : pixel ∈ inner w h) :
    setting.output in_data out_data (address w pixel) = erosion (raster in_data w) w h pixel := by
  have bounds := address_bounds (inner_frame inside)
  rw [setting.output_inside in_data out_data bounds.1 bounds.2]
  apply (setting.paints_kernel in_data wide).replay_inside
  · intro other member
    exact ⟨(inner_frame member).1, (inner_frame member).2.1⟩
  · exact inside

/-- The border pixels are what the output buffer started with. -/
theorem output_border {pixel : ℤ × ℤ} (framed : pixel ∈ frame w h) (border : pixel ∉ inner w h) :
    setting.output in_data out_data (address w pixel) =
      setting.start out_data (address w pixel) := by
  have bounds := address_bounds framed
  rw [setting.output_inside in_data out_data bounds.1 bounds.2]
  apply (setting.paints_kernel in_data wide).replay_outside
  intro other member same
  have framedOther := inner_frame member
  apply border
  rwa [address_injective framed.1 framed.2.1 framedOther.1 framedOther.2.1 same]

/-- No byte beside the image changes. -/
theorem output_outside {k : ℤ} (outside : ¬ (0 ≤ k ∧ k < w * h)) :
    setting.output in_data out_data k = out_data k := by
  have unstored := (setting.paints_kernel in_data wide).replay_outside out_data (k := k)
    fun pixel member same => outside (same ▸ address_bounds (inner_frame member))
  unfold output erode3x3_cl erode3x3_cl_init copyBytes
  rw [source] at unstored
  cases mode : setting.use_host_ptr <;> simp_all

/-- Two runs leave the same image when their output buffers started with the same border. -/
theorem output_eq_iff (other : Setting w h) :
    (∀ k, setting.output in_data out_data k = other.output in_data out_data k) ↔
      ∀ pixel ∈ frame w h, pixel ∉ inner w h →
        setting.start out_data (address w pixel) = other.start out_data (address w pixel) := by
  constructor
  · intro same pixel framed border
    rw [← setting.output_border in_data out_data wide framed border, same,
      other.output_border in_data out_data wide framed border]
  · intro same k
    by_cases image : 0 ≤ k ∧ k < w * h
    · obtain ⟨pixel, framed, rfl⟩ := exists_pixel image.1 image.2 (by omega)
      by_cases inside : pixel ∈ inner w h
      · rw [setting.output_inner in_data out_data wide inside,
          other.output_inner in_data out_data wide inside]
      · rw [setting.output_border in_data out_data wide framed inside,
          other.output_border in_data out_data wide framed inside, same pixel framed inside]
    · rw [setting.output_outside in_data out_data wide image,
        other.output_outside in_data out_data wide image]

end Setting

section Modes

/-- The setting with work-items in order, buffers filled with one byte. -/
def Setting.filled (w h : ℤ) (use_host_ptr : Bool) (b : UInt8) : Setting w h where
  use_host_ptr := use_host_ptr
  freshA := fun _ => b
  freshB := fun _ => b
  order := (erodeRange w h).workItems
  ordered := List.Perm.refl _

/-- A device buffer that did not start with the caller's bytes shows at the border. -/
theorem Setting.filled_start_ne {w h : ℤ} (mode : Bool) (k : ℤ) :
    (filled w h false 0).start (fun _ => 1) k ≠ (filled w h mode 1).start (fun _ => 1) k := by
  cases mode <;> simp [filled, start]

variable {w h : ℤ} (wide : 10 ≤ w) (tall : 3 ≤ h)

include wide tall

/-- **When the output is determined by the images.** Two runs leave the same image
exactly when their output buffers started alike on the border; this holds whatever
the device buffers contained exactly when both runs use host pointers. -/
theorem erode3x3_cl_eq_iff :
    (∀ (setting other : Setting w h) (in_data out_data : ℤ → UInt8),
      (∀ k, setting.output in_data out_data k = other.output in_data out_data k) ↔
        ∀ x y, 0 ≤ x → x < w → 0 ≤ y → y < h →
          ¬ ((1 ≤ x ∧ x ≤ (w - 2) / 8 * 8) ∧ 1 ≤ y ∧ y ≤ h - 2) →
          setting.start out_data (y * w + x) = other.start out_data (y * w + x)) ∧
      ∀ mode otherMode,
        (∀ setting other : Setting w h, setting.use_host_ptr = mode →
          other.use_host_ptr = otherMode → ∀ in_data out_data : ℤ → UInt8,
            ∀ k, setting.output in_data out_data k = other.output in_data out_data k) ↔
          mode = true ∧ otherMode = true := by
  refine ⟨fun setting other in_data out_data => ?_, fun mode otherMode => ?_⟩
  · rw [setting.output_eq_iff in_data out_data (by omega) other]
    simp only [Prod.forall, mem_frame, mem_inner, address, and_imp]
  · have corner : ((0 : ℤ), (0 : ℤ)) ∈ frame w h ∧ ((0 : ℤ), (0 : ℤ)) ∉ inner w h := by
      simp only [mem_frame, mem_inner]
      omega
    constructor
    · intro same
      have reached := fun (setting other : Setting w h) host otherHost =>
        (setting.output_eq_iff (fun _ => 0) (fun _ => 1) (by omega) other).mp
          (same setting other host otherHost _ _) _ corner.1 corner.2
      constructor
      · by_contra device
        rw [Bool.not_eq_true] at device
        exact Setting.filled_start_ne otherMode _
          (reached (Setting.filled w h false 0) (Setting.filled w h otherMode 1) device.symm rfl)
      · by_contra device
        rw [Bool.not_eq_true] at device
        exact Setting.filled_start_ne mode _
          (reached (Setting.filled w h mode 1) (Setting.filled w h false 0) rfl device.symm).symm
    · rintro ⟨rfl, rfl⟩ setting other host otherHost in_data out_data
      apply (setting.output_eq_iff in_data out_data (by omega) other).mpr
      intro pixel _ _
      rw [Setting.start, Setting.start, if_pos host, if_pos otherHost]

end Modes

theorem erode3x3_cl_eq_iff_ten_by_three :
    (Setting.filled 10 3 true 4).output (fun _ => 9) (fun _ => 2) 12 =
      (Setting.filled 10 3 true 5).output (fun _ => 9) (fun _ => 2) 12 :=
  ((erode3x3_cl_eq_iff (by decide : (10 : ℤ) ≤ 10) (by decide : (3 : ℤ) ≤ 3)).2 true true).mpr
    (by decide) _ _ rfl rfl _ _ 12

/-- Two runs with device buffers that held different bytes when they were created. -/
theorem erode3x3_cl_shows_fresh_bytes :
    (Setting.filled 10 3 false 4).output (fun _ => 9) (fun _ => 2) 0 ≠
      (Setting.filled 10 3 false 5).output (fun _ => 9) (fun _ => 2) 0 := by
  decide

end ErodeTest.OpenCl
