import ErodeTest.Foundation.Packed
import ErodeTest.Foundation.Lanes
import ErodeTest.Scalar.Erode

/-! # The Halide implementation

`erode_code_generation.cpp` defines erosion as the minimum of a clamped image over a
reduction domain and leaves the loops to a schedule; `erode3x3_halide` of
`erode_halide.cc` describes the two images to the code generated from it. A schedule
evaluates every pixel of the output, in an order of its own and some more than once.

The image a schedule leaves is that of the scalar implementation
(`erode3x3_halide_eq_erode3x3`); vectorizing the columns is a schedule for images at
least as wide as a vector (`mem_vectorized`). Narrower images the generated code refuses.
-/

namespace ErodeTest.Halide

open BufferProgram BufferProgram.Program Morphology

/-- `halide_dimension_t`. -/
structure Dimension where
  min : ℤ
  extent : ℤ
  stride : ℤ

/-- The fields of `halide_buffer_t` generated code reads of an image in main memory. -/
structure Buffer where
  host : ℤ
  dim0 : Dimension
  dim1 : Dimension

/-- The address of an element. -/
def Buffer.address_of (buffer : Buffer) (pos : ℤ × ℤ) : ℤ :=
  buffer.host + (buffer.dim0.stride * (pos.1 - buffer.dim0.min) +
    buffer.dim1.stride * (pos.2 - buffer.dim1.min))

/-! ## The algorithm -/

/-- The coordinate `BoundaryConditions::repeat_edge` looks at. -/
def Dimension.repeat_edge (dimension : Dimension) (i : ℤ) : ℤ :=
  max dimension.min (Min.min i (dimension.min + dimension.extent - 1))

/-- The function `clamped`. -/
def clamped (input : Buffer) (pos : ℤ × ℤ) : Program UInt8 UInt8 :=
  load (input.address_of (input.dim0.repeat_edge pos.1, input.dim1.repeat_edge pos.2))

/-- The reduction domain `RDom r(-1, 3, -1, 3)`. -/
def r : List (ℤ × ℤ) :=
  (counters (-1) 2 1).flatMap fun y => (counters (-1) 2 1).map fun x => (x, y)

/-- `Halide::minimum` of bytes over a domain. -/
def minimum (domain : List (ℤ × ℤ)) (f : ℤ × ℤ → Program UInt8 UInt8) : Program UInt8 UInt8 :=
  domain.foldlM (fun least pos => Min.min least <$> f pos) 255

/-- The function `erode` at a pixel. -/
def erode (input : Buffer) (pos : ℤ × ℤ) : Program UInt8 UInt8 :=
  minimum r fun offset => clamped input (pos.1 + offset.1, pos.2 + offset.2)

/-- The generated code, for a schedule that evaluates the pixels in the given order. -/
def erode_halide (order : List (ℤ × ℤ)) (input output : Buffer) : Program UInt8 Unit :=
  forM order fun pos => do
    let value ← erode input pos
    store (output.address_of pos) value

/-- `erode3x3_halide`. -/
def erode3x3_halide (order : List (ℤ × ℤ)) (in_data out_data w h : ℤ) : Program UInt8 Unit :=
  let srcBuf : Buffer := { host := in_data, dim0 := ⟨0, w, 1⟩, dim1 := ⟨0, h, w⟩ }
  let dstBuf : Buffer := { host := out_data, dim0 := ⟨0, w, 1⟩, dim1 := ⟨0, h, w⟩ }
  erode_halide order srcBuf dstBuf

/-- The pixels in the order of `erode.vectorize(x, n)`: row by row in vectors, the last one
of a row moved back so that it ends with the row. -/
def vectorized (n w h : ℤ) : List (ℤ × ℤ) :=
  (counters 0 h 1).flatMap fun y => (tiles n w).flatMap fun x =>
    (counters x (x + n) 1).map fun x => (x, y)

/-! ## Reductions -/

section Reduction

variable (input : ℤ → UInt8) (value : ℤ × ℤ → UInt8) {f : ℤ × ℤ → Program UInt8 UInt8}
  (domain : List (ℤ × ℤ)) (runs : ∀ pos, (f pos).result input = some (value pos))

include runs

theorem result_minimum :
    (minimum domain f).result input =
      some (domain.foldl (fun least pos => Min.min least (value pos)) 255) := by
  unfold minimum
  generalize (255 : UInt8) = least
  induction domain generalizing least with
  | nil => rfl
  | cons pos domain ih =>
      have first : (Min.min least <$> f pos).result input = some (Min.min least (value pos)) := by
        rw [result_map, runs, Option.map_some]
      rw [List.foldlM_cons, result_bind_of first, ih, List.foldl_cons]

theorem collect_minimum {δ : Type} (select : Access UInt8 → Option δ) :
    (minimum domain f).collect select input =
      domain.flatMap fun pos => (f pos).collect select input := by
  unfold minimum
  generalize (255 : UInt8) = least
  induction domain generalizing least with
  | nil => rfl
  | cons pos domain ih =>
      have first : (Min.min least <$> f pos).result input = some (Min.min least (value pos)) := by
        rw [result_map, runs, Option.map_some]
      rw [List.foldlM_cons, collect_bind_of select first, ih, collect_map, List.flatMap_cons]

end Reduction

theorem r_eq :
    r = [(-1, -1), (0, -1), (1, -1), (-1, 0), (0, 0), (1, 0), (-1, 1), (0, 1), (1, 1)] := by
  decide

/-! ## The pixels of an image -/

/-- The description `erode3x3_halide` gives of an image. -/
def Buffer.ofImage (w h : ℤ) : Buffer where
  host := 0
  dim0 := ⟨0, w, 1⟩
  dim1 := ⟨0, h, w⟩

section Image

variable (w h : ℤ) (input : ℤ → UInt8)

theorem address_of_ofImage (pos : ℤ × ℤ) : (Buffer.ofImage w h).address_of pos = address w pos := by
  simp only [Buffer.address_of, Buffer.ofImage, address]
  ring

theorem repeat_edge_eq (n stride i : ℤ) : (Dimension.mk 0 n stride).repeat_edge i = clamp n i := by
  simp only [Dimension.repeat_edge, clamp, zero_add]

/-- The address the clamped image is read at. -/
theorem clamped_ofImage (pos : ℤ × ℤ) :
    clamped (Buffer.ofImage w h) pos = load (address w (clamp w pos.1, clamp h pos.2)) := by
  rw [clamped, address_of_ofImage]
  simp only [Buffer.ofImage, repeat_edge_eq]

theorem result_clamped (pos : ℤ × ℤ) :
    (clamped (Buffer.ofImage w h) pos).result input =
      some (raster input w (clamp w pos.1, clamp h pos.2)) := by
  rw [clamped_ofImage, result_load]
  rfl

/-- The accesses of the reduction are the nine loads. -/
theorem collect_erode {δ : Type} (select : Access UInt8 → Option δ) (pos : ℤ × ℤ) :
    (erode (Buffer.ofImage w h) pos).collect select input =
      r.flatMap fun offset =>
        (clamped (Buffer.ofImage w h) (pos.1 + offset.1, pos.2 + offset.2)).collect select input :=
  collect_minimum input _ r (fun _ => result_clamped w h input _) select

/-- **The reduction computes the erosion.** -/
theorem result_erode (pos : ℤ × ℤ) :
    (erode (Buffer.ofImage w h) pos).result input = some (erosion (raster input w) w h pos) := by
  have least (a : UInt8) : Min.min 255 a = a := min_eq_right (UInt8.le_255 a)
  rw [erode, result_minimum input _ r fun _ => result_clamped w h input _]
  simp only [r_eq, List.foldl_cons, List.foldl_nil, least, erosion, min3, min_assoc]

theorem stores_erode (pos : ℤ × ℤ) : (erode (Buffer.ofImage w h) pos).stores input = [] := by
  simp only [stores, collect_erode, clamped_ofImage, List.flatMap_eq_nil_iff]
  exact fun _ _ => stores_load input _

variable {w h}

theorem loads_erode_inside {pos : ℤ × ℤ} (inside : pos ∈ frame w h) {k : ℤ}
    (read : k ∈ (erode (Buffer.ofImage w h) pos).loads input) : 0 ≤ k ∧ k < w * h := by
  rw [loads, collect_erode] at read
  obtain ⟨offset, _, looked⟩ := List.mem_flatMap.mp read
  rw [clamped_ofImage] at looked
  obtain rfl := List.mem_singleton.mp looked
  apply address_bounds
  simp only [mem_frame, clamp] at inside ⊢
  omega

end Image

/-! ## Schedules -/

/-- Vectorizing is a schedule for images at least as wide as a vector. -/
theorem mem_vectorized {n w h : ℤ} (positive : 0 < n) (fits : n ≤ w) {pixel : ℤ × ℤ} :
    pixel ∈ vectorized n w h ↔ pixel ∈ frame w h := by
  simp only [vectorized, List.mem_flatMap, List.mem_map, mem_counters_one, mem_frame]
  constructor
  · rintro ⟨y, row, x, listed, x', column, rfl⟩
    have := tiles_inside positive fits listed
    dsimp only
    omega
  · rintro ⟨left, right, row⟩
    obtain ⟨x, listed, column⟩ := tiles_cover positive left right
    exact ⟨pixel.2, row, x, listed, pixel.1, column, rfl⟩

section Schedule

variable {w h : ℤ} {order : List (ℤ × ℤ)} (scheduled : ∀ pixel, pixel ∈ order ↔ pixel ∈ frame w h)
  (input : ℤ → UInt8)

theorem erode3x3_halide_eq (order : List (ℤ × ℤ)) (w h : ℤ) :
    erode3x3_halide order 0 0 w h =
      erode_halide order (Buffer.ofImage w h) (Buffer.ofImage w h) := rfl

/-- The evaluation of a pixel stores it. -/
theorem result_pixel (w h : ℤ) (pos : ℤ × ℤ) :
    (do
      let value ← erode (Buffer.ofImage w h) pos
      store ((Buffer.ofImage w h).address_of pos) value : Program UInt8 Unit).result input =
      some () := by
  rw [result_bind_of (result_erode w h input pos), result_store]

theorem result_erode3x3_halide (order : List (ℤ × ℤ)) (w h : ℤ) :
    (erode3x3_halide order 0 0 w h).result input = some () :=
  result_forM order _ fun pos => result_pixel input w h pos

theorem collect_erode3x3_halide {δ : Type} (select : Access UInt8 → Option δ)
    (order : List (ℤ × ℤ)) (w h : ℤ) :
    (erode3x3_halide order 0 0 w h).collect select input =
      order.flatMap fun pos => (erode (Buffer.ofImage w h) pos).collect select input ++
        (store (address w pos) (erosion (raster input w) w h pos) :
          Program UInt8 Unit).collect select input := by
  rw [erode3x3_halide_eq, erode_halide, collect_forM order _ fun pos => result_pixel input w h pos]
  simp only [collect_bind_of select (result_erode w h input _), address_of_ofImage]

include scheduled

/-- **The Halide implementation erodes**, whatever the schedule. -/
theorem paints_erode3x3_halide :
    Paints ((erode3x3_halide order 0 0 w h).stores input) w (frame w h)
      (erosion (raster input w) w h) := by
  intro k v
  simp only [collect_erode3x3_halide, stores_erode, stores_store, List.nil_append,
    List.mem_flatMap, List.mem_singleton, Prod.mk.injEq, scheduled]

/-- **Halide and scalar implementation agree.** Under every schedule that computes all pixels
of the image, some perhaps more than once, and no others, the call returns, reads and writes
the bytes of the images only and leaves the image of the scalar implementation, whatever
lies around the input and whatever the outputs held before. -/
theorem erode3x3_halide_eq_erode3x3 (wide : 2 ≤ w) (tall : 2 ≤ h) {image : ℤ → UInt8}
    (same : ∀ k, 0 ≤ k → k < w * h → input k = image k)
    (halideContent scalarContent : ℤ → UInt8) :
    (erode3x3_halide order 0 0 w h).result input = some () ∧
      (∀ k ∈ (erode3x3_halide order 0 0 w h).loads input, 0 ≤ k ∧ k < w * h) ∧
      (∀ k v, (k, v) ∈ (erode3x3_halide order 0 0 w h).stores input → 0 ≤ k ∧ k < w * h) ∧
      ∀ k, 0 ≤ k → k < w * h →
        replay ((erode3x3_halide order 0 0 w h).stores input) halideContent k =
          replay ((Scalar.erode3x3 0 0 w h).stores image) scalarContent k := by
  have paints := paints_erode3x3_halide scheduled input
  refine ⟨result_erode3x3_halide input order w h, fun k read => ?_, fun k v written => ?_,
    fun k lower upper => ?_⟩
  · rw [loads, collect_erode3x3_halide] at read
    obtain ⟨pos, listed, looked⟩ := List.mem_flatMap.mp read
    rcases List.mem_append.mp looked with reduced | stored
    · exact loads_erode_inside input ((scheduled pos).mp listed) reduced
    · exact absurd stored List.not_mem_nil
  · obtain ⟨pixel, inside, rfl, _⟩ := (paints k v).mp written
    exact address_bounds inside
  · have computed := paints.value_congr fun pixel inside => erosion_raster_congr same inside
    exact computed.replay_eq (Scalar.paints_erode3x3 wide tall image) (by omega) _ _ lower upper

end Schedule

/-- An image ten pixels wide, vectorized by eight: the second vector overlaps the first. -/
theorem erode3x3_halide_eq_erode3x3_ten_by_two :
    replay ((erode3x3_halide (vectorized 8 10 2) 0 0 10 2).stores fun k =>
      UInt8.ofNat (99 - k.toNat)) (fun _ => 0) 3 = 85 :=
  ((erode3x3_halide_eq_erode3x3 (fun _ => mem_vectorized (by decide : (0 : ℤ) < 8) (by decide))
    (fun k => UInt8.ofNat (99 - k.toNat)) (by decide) (by decide) (fun _ _ _ => rfl) (fun _ => 0)
      fun _ => 0).2.2.2 3 (by decide) (by decide)).trans (by decide)

end ErodeTest.Halide
