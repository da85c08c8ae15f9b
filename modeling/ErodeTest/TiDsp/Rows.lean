import ErodeTest.TiDsp.WorkItem

/-! # The rows of all work-items

The rows the work-items of `tidsp_morph_erode` compute are intervals that follow each
other and fill the image, and their lengths differ by at most one. Every byte of the
destination is stored by one work-item.
-/

namespace ErodeTest.TiDsp

open AsyncCopy BufferProgram Morphology

/-- The rows a work-item computes; one that returns at once computes none. -/
def workRows (rows chunks id : ℤ) : Set ℤ :=
  {y | ¬ Surplus rows chunks id ∧ offset rows chunks id ≤ y ∧
    y < offset rows chunks id + mLocal rows chunks id}

section Rows

variable {rows chunks : ℤ} (nonempty : 0 < rows) (several : 0 < chunks)

include nonempty several

/-- The rows of a work-item end where those of the next begin. -/
theorem mem_workRows {id y : ℤ} (listed : id < chunks) :
    y ∈ workRows rows chunks id ↔ start rows chunks id ≤ y ∧ y < start rows chunks (id + 1) := by
  by_cases surplus : Surplus rows chunks id
  · obtain ⟨begins, ends⟩ := start_surplus surplus
    refine iff_of_false (fun row => row.1 surplus) ?_
    omega
  · obtain ⟨begins, ends, _⟩ := partition_spec nonempty several surplus listed
    rw [workRows, Set.mem_ofPred_eq, and_iff_right surplus, begins, ends]

theorem workRows_disjoint {id other y : ℤ} (listed : id < chunks) (otherListed : other < chunks)
    (row : y ∈ workRows rows chunks id) (otherRow : y ∈ workRows rows chunks other) :
    id = other := by
  rw [mem_workRows nonempty several listed] at row
  rw [mem_workRows nonempty several otherListed] at otherRow
  rcases lt_trichotomy id other with before | same | after
  · have := start_mono nonempty several (by omega : id + 1 ≤ other)
    omega
  · exact same
  · have := start_mono nonempty several (by omega : other + 1 ≤ id)
    omega

/-- **Every row belongs to one work-item.** -/
theorem existsUnique_workRows {y : ℤ} (lower : 0 ≤ y) (upper : y < rows) :
    ∃! id, (0 ≤ id ∧ id < chunks) ∧ y ∈ workRows rows chunks id := by
  obtain ⟨id, ⟨first, last, active⟩, row⟩ := exists_workItem nonempty several lower upper
  refine ⟨id, ⟨⟨first, last⟩, active, row⟩, ?_⟩
  rintro other ⟨⟨_, otherLast⟩, otherRow⟩
  exact workRows_disjoint nonempty several otherLast last otherRow ⟨active, row⟩

theorem workRows_inside {id y : ℤ} (lower : 0 ≤ id) (listed : id < chunks)
    (row : y ∈ workRows rows chunks id) : 0 ≤ y ∧ y < rows := by
  obtain ⟨active, first, last⟩ := row
  have inside := partition_inside nonempty several active lower listed
  omega

/-- Work-items that do not return come first, and their rows follow each other. -/
theorem offset_of_lt {id other : ℤ} (ordered : id < other) (listed : other < chunks)
    (active : ¬ Surplus rows chunks other) :
    ¬ Surplus rows chunks id ∧
      offset rows chunks id + mLocal rows chunks id ≤ offset rows chunks other ∧
      (other = id + 1 →
        offset rows chunks other = offset rows chunks id + mLocal rows chunks id) := by
  have earlier : ¬ Surplus rows chunks id := by
    unfold Surplus at active ⊢
    omega
  obtain ⟨begins, ends, _⟩ := partition_spec nonempty several earlier (by omega)
  obtain ⟨otherBegins, _, _⟩ := partition_spec nonempty several active listed
  have := start_mono nonempty several (by omega : id + 1 ≤ other)
  refine ⟨earlier, by omega, ?_⟩
  rintro rfl
  omega

omit nonempty in
/-- The rows are shared out evenly. -/
theorem mLocal_sub_mLocal_le (nonempty : 0 < rows) (id other : ℤ) :
    mLocal rows chunks id - mLocal rows chunks other ≤ 1 := by
  unfold mLocal
  by_cases few : rows ≤ chunks
  · simp [partition_of_le several few]
  · simp only [partition_of_gt nonempty (not_le.mp few)]
    split <;> split <;> omega

end Rows

section Stores

variable {cols rows chunks : ℤ} (aligned : cols % 8 = 0) (nonneg : 0 ≤ cols) (nonempty : 0 < rows)
  (several : 0 < chunks) (source : ℤ → UInt8) (lines : LineAddress → UInt8) (schedule : Schedule)

include aligned nonneg nonempty several

/-- A work-item paints its rows. -/
theorem paints_workItem {id : ℤ} (lower : 0 ≤ id) (listed : id < chunks) :
    Paints (stores (workItem source cols rows chunks lines schedule id)) cols
      {pixel | (0 ≤ pixel.1 ∧ pixel.1 < cols) ∧ pixel.2 ∈ workRows rows chunks id}
      (rowValue source cols rows (offset rows chunks id)) := by
  by_cases surplus : Surplus rows chunks id
  · intro k v
    rw [workItem_surplus _ _ _ surplus]
    refine iff_of_false (by simp [stores, store?]) ?_
    rintro ⟨pixel, ⟨_, active, _⟩, _⟩
    exact active surplus
  · have painted := (workItem_computed source lines schedule surplus aligned nonneg).1.stores
    have inside := partition_inside nonempty several surplus lower listed
    rw [Int.toNat_of_nonneg (by omega)] at painted
    apply painted.region_congr
    ext pixel
    simp only [workRows, Set.mem_ofPred_eq, surplus, not_false_eq_true, true_and]

/-- A work-item stores the bytes of its rows. -/
theorem mem_stores_workItem_iff {id : ℤ} (lower : 0 ≤ id) (listed : id < chunks) (k : ℤ) :
    (∃ b, (k, b) ∈ stores (workItem source cols rows chunks lines schedule id)) ↔
      ∃ pixel : ℤ × ℤ, ((0 ≤ pixel.1 ∧ pixel.1 < cols) ∧ pixel.2 ∈ workRows rows chunks id) ∧
        k = address cols pixel := by
  have painted := paints_workItem aligned nonneg nonempty several source lines schedule lower listed
  constructor
  · rintro ⟨b, stored⟩
    obtain ⟨pixel, inside, place, _⟩ := (painted k b).mp stored
    exact ⟨pixel, inside, place⟩
  · rintro ⟨pixel, inside, place⟩
    exact ⟨_, (painted k _).mpr ⟨pixel, inside, place, rfl⟩⟩

end Stores

section Launch

variable {cols rows chunks : ℤ} (aligned : cols % 8 = 0) (nonneg : 0 ≤ cols) (nonempty : 0 < rows)
  (several : 0 < chunks) (source : ℤ → UInt8) (lines : ℤ → LineAddress → UInt8)
  (schedule : ℤ → Schedule)

include aligned nonneg nonempty several

/-- Every byte of the destination is stored by one work-item. -/
theorem existsUnique_store {k : ℤ} (lower : 0 ≤ k) (upper : k < rows * cols) :
    ∃! id, (0 ≤ id ∧ id < chunks) ∧
      ∃ b, (k, b) ∈ stores (workItem source cols rows chunks (lines id) (schedule id) id) := by
  have positive : 0 < cols := by
    rcases nonneg.eq_or_lt with rfl | positive
    · omega
    · exact positive
  have stored {id : ℤ} (listed : 0 ≤ id ∧ id < chunks) :=
    mem_stores_workItem_iff aligned nonneg nonempty several source (lines id) (schedule id)
      listed.1 listed.2 k
  obtain ⟨pixel, inside, place⟩ := exists_pixel lower (by rwa [mul_comm] at upper) positive
  obtain ⟨left, right, top, bottom⟩ := inside
  obtain ⟨id, ⟨listed, row⟩, unique⟩ := existsUnique_workRows nonempty several top bottom
  refine ⟨id, ⟨listed, (stored listed).mpr ⟨pixel, ⟨⟨left, right⟩, row⟩, place⟩⟩, ?_⟩
  rintro other ⟨otherListed, otherStored⟩
  obtain ⟨pixel', ⟨⟨left', right'⟩, row'⟩, place'⟩ := (stored otherListed).mp otherStored
  have same : pixel' = pixel :=
    address_injective left' right' left right (place'.symm.trans place)
  rw [same] at row'
  exact unique other ⟨otherListed, row'⟩

/-- No byte outside the destination is stored. -/
theorem stored_inside {id k : ℤ} {b : UInt8} (lower : 0 ≤ id) (listed : id < chunks)
    (stored : (k, b) ∈ stores (workItem source cols rows chunks (lines id) (schedule id) id)) :
    0 ≤ k ∧ k < rows * cols := by
  obtain ⟨pixel, ⟨⟨left, right⟩, row⟩, rfl⟩ := (mem_stores_workItem_iff aligned nonneg nonempty
    several source (lines id) (schedule id) lower listed k).mp ⟨b, stored⟩
  obtain ⟨top, bottom⟩ := workRows_inside nonempty several lower listed row
  rw [mul_comm]
  exact address_bounds ⟨left, right, top, bottom⟩

/-- **The work-items share out the rows.** Every row belongs to one of them, those that do
not return have at least one row each, in the order of their numbers and without gaps, and
their numbers of rows differ by at most one; every byte of the destination is stored by one
work-item, and no other byte by any. -/
theorem workItems_share_rows :
    (∀ y, 0 ≤ y → y < rows →
      ∃! id, (0 ≤ id ∧ id < chunks) ∧ y ∈ workRows rows chunks id) ∧
    (∀ id y, 0 ≤ id → id < chunks → y ∈ workRows rows chunks id → 0 ≤ y ∧ y < rows) ∧
    (∀ id other, 0 ≤ id → id < other → other < chunks → ¬ Surplus rows chunks other →
      ¬ Surplus rows chunks id ∧
        offset rows chunks id + mLocal rows chunks id ≤ offset rows chunks other ∧
        (other = id + 1 →
          offset rows chunks other = offset rows chunks id + mLocal rows chunks id)) ∧
    (∀ id, 0 ≤ id → id < chunks → ¬ Surplus rows chunks id → 1 ≤ mLocal rows chunks id) ∧
    (∀ id other, |mLocal rows chunks id - mLocal rows chunks other| ≤ 1) ∧
    (∀ k, 0 ≤ k → k < rows * cols →
      ∃! id, (0 ≤ id ∧ id < chunks) ∧
        ∃ b, (k, b) ∈ stores (workItem source cols rows chunks (lines id) (schedule id) id)) ∧
    ∀ id k b, 0 ≤ id → id < chunks →
      (k, b) ∈ stores (workItem source cols rows chunks (lines id) (schedule id) id) →
        0 ≤ k ∧ k < rows * cols := by
  refine ⟨fun y => existsUnique_workRows nonempty several,
    fun id y => workRows_inside nonempty several,
    fun id other _ => offset_of_lt nonempty several,
    fun id lower listed active => (partition_inside nonempty several active lower listed).2.1,
    fun id other => abs_le.mpr ⟨?_, mLocal_sub_mLocal_le several nonempty id other⟩,
    fun k => existsUnique_store aligned nonneg nonempty several source lines schedule,
    fun id k b => stored_inside aligned nonneg nonempty several source lines schedule⟩
  have := mLocal_sub_mLocal_le several nonempty other id
  omega

end Launch

/-- Five rows shared out to three work-items. -/
theorem workItems_share_rows_five_rows_three_chunks :
    ∃! id, ((0 : ℤ) ≤ id ∧ id < 3) ∧ ∃ b, ((39 : ℤ), b) ∈
      stores (workItem (fun _ => 7) 8 5 3 (fun _ => 0) (fun _ => []) id) :=
  (workItems_share_rows (by decide : (8 : ℤ) % 8 = 0) (by decide) (by decide : (0 : ℤ) < 5)
    (by decide : (0 : ℤ) < 3) (fun _ => 7) (fun _ _ => 0) fun _ _ => []).2.2.2.2.2.1 39
      (by decide) (by decide)

end ErodeTest.TiDsp
