import ErodeTest.Main.Compare
import ErodeTest.OpenCl.Kernel
import ErodeTest.Scalar.Erode

/-! # The OpenCL implementation

`erode3x3_cl` of `erode_cl.cc` enqueues the kernel over a two-dimensional range
of work-items with global offset one in both dimensions. The device runs the
work-items in an order of its own. What they store is the inner part of the
image the test program compares, whatever that order is.

The last work-item of a row ends with the bytes it stores, not with those it
loads; in the bottom row of work-items it reads past the image unless the width
modulo eight is zero or one (`erode_accesses_inside_iff`).
-/

namespace ErodeTest.OpenCl

open BufferProgram BufferProgram.Program Morphology

/-- A range of work-items: where it starts and how many there are in each dimension. -/
structure NDRange where
  offset : ℤ × ℤ
  globalSize : ℤ × ℤ

/-- The work-items of a range. -/
def NDRange.workItems (range : NDRange) : List (ℤ × ℤ) :=
  (counters range.offset.2 (range.offset.2 + range.globalSize.2) 1).flatMap fun y =>
    (counters range.offset.1 (range.offset.1 + range.globalSize.1) 1).map fun x => (x, y)

/-- The range `erode3x3_cl` enqueues. -/
def erodeRange (w h : ℤ) : NDRange where
  offset := (1, 1)
  globalSize := (Int.tdiv (w - 2) 8, h - 2)

/-- A run of the enqueued kernel with the work-items in the given order. -/
def enqueueNDRangeKernel (order : List (ℤ × ℤ)) (w : ℤ) : Program UInt8 Unit :=
  forM order fun global_id => erode 0 0 w global_id

theorem NDRange.mem_workItems {range : NDRange} {item : ℤ × ℤ} :
    item ∈ range.workItems ↔
      (range.offset.1 ≤ item.1 ∧ item.1 < range.offset.1 + range.globalSize.1) ∧
        range.offset.2 ≤ item.2 ∧ item.2 < range.offset.2 + range.globalSize.2 := by
  simp only [workItems, List.mem_flatMap, List.mem_map, mem_counters_one]
  constructor
  · rintro ⟨y, row, x, column, rfl⟩
    exact ⟨column, row⟩
  · rintro ⟨column, row⟩
    exact ⟨item.2, row, item.1, column, rfl⟩

theorem NDRange.workItems_nodup (range : NDRange) : range.workItems.Nodup := by
  refine List.nodup_flatMap.mpr ⟨fun y _ => ?_, (counters_nodup one_pos).imp ?_⟩
  · exact List.Nodup.map (fun x x' same => congrArg Prod.fst same) (counters_nodup one_pos)
  · intro y y' different item first second
    obtain ⟨x, _, rfl⟩ := List.mem_map.mp first
    obtain ⟨x', _, same⟩ := List.mem_map.mp second
    exact different (congrArg Prod.snd same).symm

/-- The pixels the work-items produce. -/
def inner (w h : ℤ) : Set (ℤ × ℤ) :=
  {pixel | (1 ≤ pixel.1 ∧ pixel.1 ≤ (w - 2) / 8 * 8) ∧ 1 ≤ pixel.2 ∧ pixel.2 ≤ h - 2}

@[simp] theorem mem_inner {w h : ℤ} {pixel : ℤ × ℤ} :
    pixel ∈ inner w h ↔
      (1 ≤ pixel.1 ∧ pixel.1 ≤ (w - 2) / 8 * 8) ∧ 1 ≤ pixel.2 ∧ pixel.2 ≤ h - 2 := Iff.rfl

section Range

variable {w h : ℤ} (wide : 2 ≤ w)

include wide

theorem tdiv_width : Int.tdiv (w - 2) 8 = (w - 2) / 8 := Int.tdiv_eq_ediv_of_nonneg (by omega)

theorem mem_erodeRange {item : ℤ × ℤ} :
    item ∈ (erodeRange w h).workItems ↔
      (1 ≤ item.1 ∧ item.1 * 8 + 2 ≤ w) ∧ 1 ≤ item.2 ∧ item.2 + 2 ≤ h := by
  simp only [NDRange.mem_workItems, erodeRange, tdiv_width wide]
  omega

/-- The work-items cover the inner pixels. -/
theorem exists_workItem_iff {pixel : ℤ × ℤ} :
    (∃ item ∈ (erodeRange w h).workItems,
        ((item.1 - 1) * 8 + 1 ≤ pixel.1 ∧ pixel.1 < (item.1 - 1) * 8 + 1 + 8) ∧
          pixel.2 = item.2) ↔ pixel ∈ inner w h := by
  simp only [mem_erodeRange wide, mem_inner]
  constructor
  · rintro ⟨⟨gx, gy⟩, bounds, column, row⟩
    dsimp only at bounds column row
    omega
  · rintro ⟨column, row⟩
    refine ⟨((pixel.1 + 7) / 8, pixel.2), ?_⟩
    dsimp only
    omega

end Range

section Launch

variable {w h : ℤ} (wide : 2 ≤ w) (input : ℤ → UInt8) {order : List (ℤ × ℤ)}
  (ordered : order.Perm (erodeRange w h).workItems)

include wide ordered

/-- **The work-items paint the inner pixels with the erosion**, in every order. -/
theorem paints_enqueueNDRangeKernel :
    Paints ((enqueueNDRangeKernel order w).stores input) w (inner w h)
      (erosion (raster input w) w h) := by
  rw [enqueueNDRangeKernel, stores, collect_forM order _ fun item => result_erode w item input]
  have items : ∀ item ∈ order, Paints ((erode 0 0 w item).stores input) w
      {pixel | ((item.1 - 1) * 8 + 1 ≤ pixel.1 ∧ pixel.1 < (item.1 - 1) * 8 + 1 + 8) ∧
        pixel.2 = item.2} (erosion (raster input w) w h) := by
    intro item listed
    have bounds := (mem_erodeRange wide).mp (ordered.mem_iff.mp listed)
    exact paints_erode bounds.1 bounds.2 input
  refine (Paints.flatMap order items).region_congr (Set.ext fun pixel => ?_)
  simp only [ordered.mem_iff, Set.mem_ofPred_eq]
  exact exists_workItem_iff wide

/-- Each inner pixel is stored by one work-item. -/
theorem existsUnique_workItem {x y : ℤ} (inside : (x, y) ∈ inner w h) :
    ∃! item, item ∈ order ∧ ∃ v, (y * w + x, v) ∈ (erode 0 0 w item).stores input := by
  obtain ⟨item, listed, column, row⟩ := (exists_workItem_iff wide).mpr inside
  have stored {item : ℤ × ℤ} {v : UInt8} (listed : item ∈ order)
      (written : (y * w + x, v) ∈ (erode 0 0 w item).stores input) :
      ((item.1 - 1) * 8 + 1 ≤ x ∧ x < (item.1 - 1) * 8 + 1 + 8) ∧ y = item.2 := by
    have bounds := (mem_erodeRange wide).mp (ordered.mem_iff.mp listed)
    obtain ⟨pixel, found, same, _⟩ := (paints_erode bounds.1 bounds.2 input _ v).mp written
    have columns := found.1
    have := inside.1
    obtain rfl : (x, y) = pixel := address_injective (w := w) (by dsimp only; omega)
      (by dsimp only; omega) (by omega) (by omega) same
    exact found
  refine ⟨item, ⟨ordered.mem_iff.mpr listed, erosion (raster input w) w h (x, y), ?_⟩, ?_⟩
  · have bounds := (mem_erodeRange wide).mp listed
    exact (paints_erode bounds.1 bounds.2 input _ _).mpr ⟨(x, y), ⟨column, row⟩, rfl, rfl⟩
  · rintro other ⟨otherListed, v, written⟩
    have := stored otherListed written
    exact Prod.ext (by omega) (by omega)

/-- The bytes stored are those of the inner pixels. -/
theorem exists_mem_stores_iff (k : ℤ) :
    (∃ v, (k, v) ∈ (enqueueNDRangeKernel order w).stores input) ↔
      ∃ x y, (1 ≤ x ∧ x ≤ (w - 2) / 8 * 8) ∧ (1 ≤ y ∧ y ≤ h - 2) ∧ k = y * w + x := by
  have paints := paints_enqueueNDRangeKernel wide input ordered
  constructor
  · rintro ⟨v, written⟩
    obtain ⟨pixel, inside, rfl, _⟩ := (paints k v).mp written
    exact ⟨pixel.1, pixel.2, inside.1, inside.2, rfl⟩
  · rintro ⟨x, y, column, row, rfl⟩
    exact ⟨_, (paints _ _).mpr ⟨(x, y), ⟨column, row⟩, rfl, rfl⟩⟩

/-- `main` compares the bytes stored. -/
theorem compareCl_eq_ok_iff (h_b h_c : ℤ → UInt8) :
    Main.compareCl w h h_b h_c = .ok () ↔
      ∀ k v, (k, v) ∈ (enqueueNDRangeKernel order w).stores input → h_b k = h_c k := by
  have paints := paints_enqueueNDRangeKernel wide input ordered
  rw [Main.compareCl, Main.compare_eq_ok_iff, tdiv_width wide]
  constructor
  · intro agree k v written
    obtain ⟨pixel, ⟨column, row⟩, rfl, _⟩ := (paints k v).mp written
    exact agree pixel.1 pixel.2 (by omega) (by omega) (by omega) (by omega)
  · intro agree x y left right top bottom
    apply agree _ _ ((paints _ _).mpr ⟨(x, y), ?_, rfl, rfl⟩)
    simp only [mem_inner]
    omega

variable (tall : 2 ≤ h)

include tall

/-- **The OpenCL implementation agrees with the scalar one on the inner pixels.**
In every order of the work-items they store the inner pixels and nothing else,
each by one work-item, with the value of the scalar implementation, whatever lies
outside the image; and the inner pixels are those `main` compares. -/
theorem enqueueNDRangeKernel_inner {image : ℤ → UInt8}
    (same : ∀ k, 0 ≤ k → k < w * h → input k = image k) (content scalarContent : ℤ → UInt8) :
    (∀ k, (∃ v, (k, v) ∈ (enqueueNDRangeKernel order w).stores input) ↔
        ∃ x y, (1 ≤ x ∧ x ≤ (w - 2) / 8 * 8) ∧ (1 ≤ y ∧ y ≤ h - 2) ∧ k = y * w + x) ∧
      (∀ h_b h_c, Main.compareCl w h h_b h_c = .ok () ↔
        ∀ k v, (k, v) ∈ (enqueueNDRangeKernel order w).stores input → h_b k = h_c k) ∧
      (order.Nodup ∧ ∀ x y, 1 ≤ x → x ≤ (w - 2) / 8 * 8 → 1 ≤ y → y ≤ h - 2 →
        (∃! item, item ∈ order ∧ ∃ v, (y * w + x, v) ∈ (erode 0 0 w item).stores input) ∧
        replay ((enqueueNDRangeKernel order w).stores input) content (y * w + x) =
          replay ((Scalar.erode3x3 0 0 w h).stores image) scalarContent (y * w + x)) ∧
      ∀ k, (∀ x y, 1 ≤ x → x ≤ (w - 2) / 8 * 8 → 1 ≤ y → y ≤ h - 2 → k ≠ y * w + x) →
        replay ((enqueueNDRangeKernel order w).stores input) content k = content k := by
  have paints := paints_enqueueNDRangeKernel wide input ordered
  have within : ∀ pixel ∈ inner w h, pixel ∈ frame w h := by
    rintro pixel ⟨column, row⟩
    simp only [mem_frame]
    omega
  have scalar := (Scalar.paints_erode3x3 wide tall image).value_congr
    fun pixel inside => (erosion_raster_congr same inside).symm
  refine ⟨exists_mem_stores_iff wide input ordered, compareCl_eq_ok_iff wide input ordered,
    ⟨?_, fun x y left right top bottom => ⟨?_, ?_⟩⟩, ?_⟩
  · exact ordered.nodup_iff.mpr (NDRange.workItems_nodup _)
  · exact existsUnique_workItem wide input ordered ⟨⟨left, right⟩, top, bottom⟩
  · have inside : (x, y) ∈ inner w h := ⟨⟨left, right⟩, top, bottom⟩
    have stored := paints.replay_inside (fun pixel member => by
      have := within pixel member
      exact ⟨this.1, this.2.1⟩) content inside
    have computed := scalar.replay_inside (fun pixel member => ⟨member.1, member.2.1⟩)
      scalarContent (within _ inside)
    exact stored.trans computed.symm
  · intro k outside
    refine paints.replay_outside content fun pixel inside => ?_
    exact outside pixel.1 pixel.2 inside.1.1 inside.1.2 inside.2.1 inside.2.2

end Launch

/-- Two work-items in the opposite order. -/
theorem enqueueNDRangeKernel_inner_ten_by_four :
    replay ((enqueueNDRangeKernel [(1, 2), (1, 1)] 10).stores fun k => UInt8.ofNat (99 - k.toNat))
      (fun _ => 0) 18 = 70 :=
  (((enqueueNDRangeKernel_inner (by decide : (2 : ℤ) ≤ 10) (fun k => UInt8.ofNat (99 - k.toNat))
    (by decide : [(1, 2), (1, 1)].Perm (erodeRange 10 4).workItems) (by decide : (2 : ℤ) ≤ 4)
    (fun _ _ _ => rfl) (fun _ => 0) fun _ => 0).2.2.1.2 8 1 (by decide) (by decide) (by decide)
      (by decide)).2).trans (by decide)

/-! ## Bounds -/

/-- The accesses of a work-item are inside buffers of `w * h` bytes. -/
def AccessesInside (w h : ℤ) (input : ℤ → UInt8) (item : ℤ × ℤ) : Prop :=
  (∀ k ∈ (erode 0 0 w item).loads input, 0 ≤ k ∧ k < w * h) ∧
    ∀ k v, (k, v) ∈ (erode 0 0 w item).stores input → 0 ≤ k ∧ k < w * h

section Bounds

variable {w h : ℤ} (wide : 10 ≤ w) (tall : 3 ≤ h) (input : ℤ → UInt8)

include wide

theorem accessesInside_iff {item : ℤ × ℤ} (listed : item ∈ (erodeRange w h).workItems) :
    AccessesInside w h input item ↔ item.2 < h - 2 ∨ 8 * item.1 + 8 ≤ w := by
  have bounds := (mem_erodeRange (by omega)).mp listed
  rw [AccessesInside, loads_erode_inside_iff bounds.1 bounds.2, and_iff_left]
  intro k v written
  obtain ⟨pixel, ⟨column, row⟩, rfl, _⟩ := (paints_erode bounds.1 bounds.2 input k v).mp written
  refine address_bounds ?_
  simp only [mem_frame]
  omega

include tall

/-- **When the OpenCL kernel stays inside its buffers.** A work-item reads past the
image when it is in the bottom row and less than seven columns follow those it
stores; no work-item does when the width modulo eight is zero or one. -/
theorem erode_accesses_inside_iff :
    (∀ item ∈ (erodeRange w h).workItems,
        (AccessesInside w h input item ↔ item.2 < h - 2 ∨ 8 * item.1 + 8 ≤ w)) ∧
      ((∀ item ∈ (erodeRange w h).workItems, AccessesInside w h input item) ↔
        w % 8 = 0 ∨ w % 8 = 1) := by
  refine ⟨fun item listed => accessesInside_iff wide input listed, ?_⟩
  constructor
  · intro inside
    have corner : ((w - 2) / 8, h - 2) ∈ (erodeRange w h).workItems := by
      rw [mem_erodeRange (by omega)]
      dsimp only
      omega
    have fits := (accessesInside_iff wide input corner).mp (inside _ corner)
    dsimp only at fits
    omega
  · intro residue item listed
    have bounds := (mem_erodeRange (by omega)).mp listed
    rw [accessesInside_iff wide input listed]
    omega

end Bounds

theorem erode_accesses_inside_iff_sixteen_wide :
    ((erode 0 0 16 (1, 1)).loads fun _ => 0).all (fun k => 0 ≤ k ∧ k < 48) = true :=
  List.all_eq_true.mpr fun k read => decide_eq_true
    ((((erode_accesses_inside_iff (by decide : (10 : ℤ) ≤ 16) (by decide : (3 : ℤ) ≤ 3)
      fun _ => 0).2.mpr (by decide)) (1, 1) (by decide)).1 k read)

/-- At width ten the only work-item reads six bytes past the image. -/
theorem erode_reads_past_the_image :
    ¬ ∀ item ∈ (erodeRange 10 3).workItems, AccessesInside 10 3 (fun _ => 0) item := by
  intro inside
  have past := ((inside (1, 1) (by decide)).1 35 (by decide)).2
  omega

end ErodeTest.OpenCl
