import ErodeTest.Foundation.Parallel
import ErodeTest.OpenCl.Erode

/-! # Work-items in parallel

The device runs the work-items of a launch at the same time: their loads and stores
interleave in any way. Wherever the launch stands, every byte of the image is the one it
held before or that of the scalar implementation, and when it is finished the image is the
one the work-items leave one after the other (`parallel_launch`).
-/

namespace ErodeTest.OpenCl

open BufferProgram BufferProgram.Program Morphology

/-- The accesses of a work-item of the launch. -/
def itemAccesses (w h : ℤ) (input : ℤ → UInt8) (item : ℤ × ℤ) : List (Access UInt8) :=
  if item ∈ (erodeRange w h).workItems then (erode 0 0 w item).trace input else []

/-- The pixels of a work-item of the launch. -/
def itemPixels (w h : ℤ) (item : ℤ × ℤ) : Set (ℤ × ℤ) :=
  {pixel | item ∈ (erodeRange w h).workItems ∧
    ((item.1 - 1) * 8 + 1 ≤ pixel.1 ∧ pixel.1 < (item.1 - 1) * 8 + 1 + 8) ∧ pixel.2 = item.2}

section Launch

variable {w h : ℤ} (wide : 2 ≤ w) (input : ℤ → UInt8)

include wide

theorem itemPixels_inner {item pixel : ℤ × ℤ} (inside : pixel ∈ itemPixels w h item) :
    pixel ∈ inner w h :=
  (exists_workItem_iff wide).mp ⟨item, inside.1, inside.2⟩

theorem paints_itemAccesses (item : ℤ × ℤ) :
    Paints ((itemAccesses w h input item).filterMap Access.store?) w (itemPixels w h item)
      (erosion (raster input w) w h) := by
  by_cases listed : item ∈ (erodeRange w h).workItems
  · have bounds := (mem_erodeRange wide).mp listed
    rw [itemAccesses, if_pos listed]
    refine (paints_erode bounds.1 bounds.2 input).region_congr (Set.ext fun pixel => ?_)
    exact ⟨fun inside => ⟨listed, inside⟩, fun inside => inside.2⟩
  · rw [itemAccesses, if_neg listed]
    exact fun k v => ⟨nofun, fun ⟨_, inside, _⟩ => absurd inside.1 listed⟩

theorem itemPixels_columns {item pixel : ℤ × ℤ} (inside : pixel ∈ itemPixels w h item) :
    0 ≤ pixel.1 ∧ pixel.1 < w := by
  have member := itemPixels_inner wide inside
  simp only [mem_inner] at member
  omega

/-- The work-items of a launch paint the inner pixels. -/
theorem paints_itemPixels {order : List (ℤ × ℤ)} (ordered : order.Perm (erodeRange w h).workItems) :
    Paints ((enqueueNDRangeKernel order w).stores input) w
      {pixel | ∃ item, pixel ∈ itemPixels w h item} (erosion (raster input w) w h) :=
  (paints_enqueueNDRangeKernel wide input ordered).region_congr
    (Set.ext fun _ => (exists_workItem_iff wide).symm)

/-- **A launch that is interrupted has made some of its stores.** -/
theorem exists_made_of_runs {content memory : ℤ → UInt8} {items : ℤ × ℤ → List (Access UInt8)}
    (runs : Parallel.Runs (itemAccesses w h input) (fun _ => [], content) (items, memory))
    {order : List (ℤ × ℤ)} (ordered : order.Perm (erodeRange w h).workItems) :
    ∃ made : ℤ → Bool, memory = replay (((enqueueNDRangeKernel order w).stores input).filter
      fun entry => made entry.1) content :=
  Parallel.Runs.exists_made (paints_itemAccesses wide input) runs
    (fun _ _ inside => itemPixels_columns wide inside) (paints_itemPixels wide input ordered)

/-- **A launch is safe wherever it stands.** However the loads and stores of the work-items
interleave, at every moment each inner pixel holds what it held before the launch or what
the scalar implementation computes, the latter once its work-item has finished, and no
other byte has changed; the launch can always go on to its end, and then the memory is the
one the work-items leave one after the other in any order. -/
theorem parallel_launch (tall : 2 ≤ h) {image content memory : ℤ → UInt8}
    (same : ∀ k, 0 ≤ k → k < w * h → input k = image k)
    {items : ℤ × ℤ → List (Access UInt8)}
    (runs : Parallel.Runs (itemAccesses w h input) (fun _ => [], content) (items, memory))
    (scalarContent : ℤ → UInt8) :
    (∀ pixel ∈ inner w h,
        memory (address w pixel) = content (address w pixel) ∨
          memory (address w pixel) =
            replay ((Scalar.erode3x3 0 0 w h).stores image) scalarContent (address w pixel)) ∧
      (∀ item ∈ (erodeRange w h).workItems, items item = itemAccesses w h input item →
        ∀ pixel ∈ itemPixels w h item, memory (address w pixel) =
          replay ((Scalar.erode3x3 0 0 w h).stores image) scalarContent (address w pixel)) ∧
      (∀ k, (∀ pixel ∈ inner w h, k ≠ address w pixel) → memory k = content k) ∧
      (∃ after, Parallel.Runs (itemAccesses w h input) (items, memory)
        (itemAccesses w h input, after)) ∧
      (items = itemAccesses w h input → ∀ order, order.Perm (erodeRange w h).workItems →
        memory = replay ((enqueueNDRangeKernel order w).stores input) content) := by
  have paints := paints_itemAccesses (h := h) wide input
  have framed (item pixel : ℤ × ℤ) (inside : pixel ∈ itemPixels w h item) : pixel ∈ frame w h := by
    have member := itemPixels_inner wide inside
    simp only [mem_inner, mem_frame] at member ⊢
    omega
  have columns (item pixel : ℤ × ℤ) (inside : pixel ∈ itemPixels w h item) :
      0 ≤ pixel.1 ∧ pixel.1 < w := itemPixels_columns wide inside
  have scalar (item pixel : ℤ × ℤ) (inside : pixel ∈ itemPixels w h item) :
      replay ((Scalar.erode3x3 0 0 w h).stores image) scalarContent (address w pixel) =
        erosion (raster input w) w h pixel := by
    rw [erosion_raster_congr same (framed item pixel inside)]
    exact (Scalar.paints_erode3x3 wide tall image).replay_inside
      (fun other member => ⟨member.1, member.2.1⟩) scalarContent (framed item pixel inside)
  refine ⟨fun pixel inside => ?_, fun item _ finished pixel inside => ?_, fun k outside => ?_,
    ?_, fun finished order ordered => ?_⟩
  · obtain ⟨item, listed, found⟩ := (exists_workItem_iff wide).mpr inside
    rw [scalar item pixel ⟨listed, found⟩]
    exact (runs.memory_inside paints columns ⟨listed, found⟩).1
  · rw [scalar item pixel inside]
    exact (runs.memory_inside paints columns inside).2 finished
  · exact runs.memory_outside paints fun item pixel inside =>
      outside pixel (itemPixels_inner wide inside)
  · exact runs.exists_finished fun item unlisted => if_neg unlisted
  · exact runs.memory_eq_replay paints columns finished (paints_itemPixels wide input ordered)

end Launch

/-- Two work-items that have run at the same time leave a byte of the image. -/
theorem parallel_launch_ten_by_four :
    ∃ memory, Parallel.Runs (itemAccesses 10 4 fun k => UInt8.ofNat (99 - k.toNat))
        (fun _ => [], fun _ => 0)
        (itemAccesses 10 4 fun k => UInt8.ofNat (99 - k.toNat), memory) ∧ memory 18 = 70 := by
  have idle : Parallel.Runs (itemAccesses 10 4 fun k => UInt8.ofNat (99 - k.toNat))
      (fun _ => [], fun _ => 0) (fun _ => [], fun _ => 0) := .refl
  obtain ⟨memory, runs⟩ :=
    (parallel_launch (by decide) _ (by decide) (fun _ _ _ => rfl) idle fun _ => 0).2.2.2.1
  have finished := (parallel_launch (by decide) _ (by decide) (fun _ _ _ => rfl) runs
    fun _ => 0).2.2.2.2 rfl [(1, 2), (1, 1)] (by decide)
  refine ⟨memory, runs, ?_⟩
  rw [finished]
  decide

end ErodeTest.OpenCl
