import ErodeTest.Scalar.Erode
import ErodeTest.TiDsp.Rows

/-! # The TI DSP implementation

`erode3x3_tidsp_cl` of `erode_tidsp_cl.cc` enqueues one work-item for each compute
unit. Every work-item computes its rows from lines of its own, whatever the timing of
the copies; the work-items run in any order.

A work-item that begins at the last row but one has the start-up case of the middle of
the image, which sets the prefetch to the row after the image. With one row to compute
it only reads past the image (`dma_inside_iff`); with two it also computes the last row
with the row after the image (`launch_eq_erode3x3_iff`).
-/

namespace ErodeTest.TiDsp

open AsyncCopy BufferProgram Morphology

/-- The work-items of a launch. -/
def workItems (chunks : ℤ) : List ℤ := counters 0 chunks 1

/-- The stores of a launch with the work-items in the given order. -/
def launch (source : ℤ → UInt8) (cols rows chunks : ℤ) (lines : ℤ → LineAddress → UInt8)
    (schedule : ℤ → Schedule) (order : List ℤ) : List (ℤ × UInt8) :=
  order.flatMap fun id => stores (workItem source cols rows chunks (lines id) (schedule id) id)

/-! ## Bounds -/

/-- The sources of the copies lie in the image. -/
def SourcesInside (cols rows : ℤ) (log : List EdmaEvent) : Prop :=
  ∀ transfer ∈ copies log, ∀ entry ∈ transfer, 0 ≤ entry.2 ∧ entry.2 < rows * cols

/-- The event stays inside a line of `img_lines`. -/
def InsideImgLines : EdmaEvent → Prop
  | .read (line, position) _ => line < 4 ∧ 0 ≤ position ∧ position < MAX_LINE_SIZE
  | .write (line, position) _ => line < 4 ∧ 0 ≤ position ∧ position < MAX_LINE_SIZE
  | .copy transfer => ∃ line < 4, ∀ entry ∈ transfer,
      entry.1.1 = line ∧ 0 ≤ entry.1.2 ∧ entry.1.2 < MAX_LINE_SIZE
  | _ => True

theorem InsideLine.insideImgLines {cols : ℤ} (narrow : cols < 2046) {event : EdmaEvent}
    (inside : InsideLine cols event) : InsideImgLines event := by
  cases event with
  | read address _ =>
      simp only [InsideLine, InsideImgLines, MAX_LINE_SIZE] at inside ⊢
      omega
  | write address _ =>
      simp only [InsideLine, InsideImgLines, MAX_LINE_SIZE] at inside ⊢
      omega
  | copy transfer =>
      obtain ⟨line, below, fills⟩ := inside
      refine ⟨line, below, fun entry listed => ?_⟩
      have := fills entry listed
      unfold MAX_LINE_SIZE
      omega
  | wait => trivial
  | emit _ => trivial

theorem mem_issued {cols rows offset : ℤ} {n : ℕ} {copied : List (LineAddress × ℤ)} :
    copied ∈ issued cols rows offset n ↔
      ∃ j < n + 3, copied = transfer (fetched rows offset j * cols) (j % 4, 1) cols := by
  simp only [issued, List.mem_append, List.mem_cons, List.not_mem_nil, or_false, List.mem_map,
    List.mem_range]
  constructor
  · rintro ((rfl | rfl | rfl) | ⟨y, below, rfl⟩)
    · exact ⟨0, by omega, rfl⟩
    · exact ⟨1, by omega, rfl⟩
    · exact ⟨2, by omega, rfl⟩
    · exact ⟨y + 3, by omega, rfl⟩
  · rintro ⟨j, below, rfl⟩
    obtain rfl | rfl | rfl | ⟨y, rfl⟩ := fetched_cases j
    · exact Or.inl (Or.inl rfl)
    · exact Or.inl (Or.inr (Or.inl rfl))
    · exact Or.inl (Or.inr (Or.inr rfl))
    · exact Or.inr ⟨y, by omega, rfl⟩

section Bounds

variable {cols rows chunks : ℤ} (positive : 0 < cols) (aligned : cols % 8 = 0) (tall : 2 < rows)

include positive in
/-- A row lies in the image when the bytes copied from it do. -/
theorem row_inside_iff {row : ℤ} {line : ℕ} :
    (∀ entry ∈ transfer (row * cols) (line, 1) cols, 0 ≤ entry.2 ∧ entry.2 < rows * cols) ↔
      0 ≤ row ∧ row < rows := by
  constructor
  · intro inside
    have first := inside ((line, 1), row * cols)
      (mem_transfer.mpr ⟨rfl, ⟨le_rfl, by omega⟩, by ring⟩)
    exact ⟨nonneg_of_mul_nonneg_left first.1 positive, lt_of_mul_lt_mul_right first.2 positive.le⟩
  · rintro ⟨lower, upper⟩ ⟨⟨l, p⟩, k⟩ listed
    obtain ⟨_, bounds, rfl⟩ := mem_transfer.mp listed
    have := mul_nonneg lower positive.le
    have := mul_le_mul_of_nonneg_right (by omega : row + 1 ≤ rows) positive.le
    constructor <;> linarith

include positive aligned tall

/-- A work-item reads the image only, unless it begins at the last row but one. -/
theorem sourcesInside_iff (source : ℤ → UInt8) (lines : LineAddress → UInt8) (schedule : Schedule)
    {id : ℤ} (several : 0 < chunks) (lower : 0 ≤ id) (listed : id < chunks) :
    SourcesInside cols rows (workItem source cols rows chunks lines schedule id) ↔
      ¬ (rows ≤ chunks ∧ id = rows - 2 ∨
        chunks < rows ∧ rows < 2 * chunks - 1 ∧ id = chunks - 2 ∨
          2 * chunks ≤ rows ∧ rows < 3 * chunks ∧ id = chunks - 1) := by
  by_cases surplus : Surplus rows chunks id
  · rw [workItem_surplus source lines schedule surplus]
    unfold Surplus at surplus
    refine iff_of_true (fun transfer listed => ?_) (by omega)
    simp [copies, List.filterMap_cons, copy?] at listed
  · have nonempty : 0 < rows := by omega
    have computed := (workItem_computed source lines schedule surplus aligned positive.le).1
    obtain ⟨first, size, last⟩ := partition_inside nonempty several surplus lower listed
    rw [← offset_eq_iff nonempty several surplus lower listed, SourcesInside, computed.copies]
    constructor
    · intro inside begins
      have third := (row_inside_iff positive).mp
        (inside _ (mem_issued.mpr ⟨3, by omega, rfl⟩))
      rw [fetched, fetchRow_eq tall (by omega), if_pos begins] at third
      omega
    · intro regular copied issued
      obtain ⟨j, _, rfl⟩ := mem_issued.mp issued
      exact (row_inside_iff positive).mpr
        (fetched_inside tall first (by omega) j (Or.inl regular))

omit tall in
/-- A work-item stays inside its lines. -/
theorem insideImgLines_workItem (narrow : cols < 2046) (rows chunks : ℤ) (source : ℤ → UInt8)
    (lines : LineAddress → UInt8) (schedule : Schedule) (id : ℤ) :
    ∀ event ∈ workItem source cols rows chunks lines schedule id, InsideImgLines event := by
  intro event listed
  by_cases surplus : Surplus rows chunks id
  · rw [workItem_surplus source lines schedule surplus, List.mem_singleton] at listed
    exact listed ▸ trivial
  · have computed := (workItem_computed source lines schedule surplus aligned positive.le).1
    exact (computed.inside event listed).insideImgLines narrow

end Bounds

section Bounds

variable {cols rows chunks : ℤ} (positive : 0 < cols) (narrow : cols < 2046)
  (aligned : cols % 8 = 0) (tall : 2 < rows) (several : 1 ≤ chunks) (source : ℤ → UInt8)
  (lines : ℤ → LineAddress → UInt8) (schedule : ℤ → Schedule)

include positive narrow aligned tall several

/-- **When the copies of the kernel stay inside the image.** The line buffers are never
left. A work-item copies a row outside the image when it begins at the last row but one;
the cases of the condition are one row for each of the work-items, one row for each of the
last two, and two rows for the last. -/
theorem dma_inside_iff :
    (∀ id, 0 ≤ id → id < chunks →
      ((SourcesInside cols rows (workItem source cols rows chunks (lines id) (schedule id) id) ∧
          ∀ event ∈ workItem source cols rows chunks (lines id) (schedule id) id,
            InsideImgLines event) ↔
        ¬ (rows ≤ chunks ∧ id = rows - 2 ∨
          chunks < rows ∧ rows < 2 * chunks - 1 ∧ id = chunks - 2 ∨
            2 * chunks ≤ rows ∧ rows < 3 * chunks ∧ id = chunks - 1)) ∧
      ∀ event ∈ workItem source cols rows chunks (lines id) (schedule id) id,
        InsideImgLines event) ∧
    ((∀ id, 0 ≤ id → id < chunks →
      SourcesInside cols rows (workItem source cols rows chunks (lines id) (schedule id) id)) ↔
        3 * chunks ≤ rows ∨ rows = 2 * chunks - 1) := by
  have sources (id : ℤ) (lower : 0 ≤ id) (listed : id < chunks) :=
    sourcesInside_iff positive aligned tall source (lines id) (schedule id) (by omega) lower listed
  have inLines (id : ℤ) := insideImgLines_workItem positive aligned narrow rows chunks source
    (lines id) (schedule id) id
  refine ⟨fun id lower listed => ⟨?_, inLines id⟩, ?_⟩
  · rw [and_iff_left (inLines id)]
    exact sources id lower listed
  · constructor
    · intro inside
      by_contra few
      have wrong (id : ℤ) (lower : 0 ≤ id) (listed : id < chunks) :=
        (sources id lower listed).mp (inside id lower listed)
      by_cases scarce : rows ≤ chunks
      · exact wrong (rows - 2) (by omega) (by omega) (Or.inl ⟨scarce, rfl⟩)
      by_cases pair : 2 * chunks ≤ rows
      · exact wrong (chunks - 1) (by omega) (by omega) (by omega)
      · exact wrong (chunks - 2) (by omega) (by omega) (by omega)
    · intro enough id lower listed
      exact (sources id lower listed).mpr (by omega)

end Bounds

theorem dma_inside_iff_nine_rows_three_chunks :
    (copies (workItem (fun _ => 0) 8 9 3 (fun _ => 0) (fun _ => []) 2)).all
      (fun transfer => transfer.all fun entry => 0 ≤ entry.2 ∧ entry.2 < 9 * 8) = true :=
  List.all_eq_true.mpr fun transfer issued => List.all_eq_true.mpr fun entry listed =>
    decide_eq_true ((dma_inside_iff (by decide : (0 : ℤ) < 8) (by decide) (by decide)
      (by decide : (2 : ℤ) < 9) (by decide : (1 : ℤ) ≤ 3) (fun _ => 0) (fun _ _ => 0)
      fun _ _ => []).2.mpr (by decide) 2 (by decide) (by decide) transfer issued entry listed)

/-- With six rows and three work-items the last one copies the row after the image. -/
theorem dma_reads_past_the_image :
    ¬ ∀ id, 0 ≤ id → id < 3 →
      SourcesInside 8 6 (workItem (fun _ => 0) 8 6 3 (fun _ => 0) (fun _ => []) id) := by
  intro inside
  have sources := (sourcesInside_iff (by decide : (0 : ℤ) < 8) (by decide)
    (by decide : (2 : ℤ) < 6) (fun _ => 0) (fun _ => 0) (fun _ => []) (by decide : (0 : ℤ) < 3)
    (by decide : (0 : ℤ) ≤ 2) (by decide)).mp (inside 2 (by decide) (by decide))
  exact sources (by decide)

/-! ## The image -/

/-- What a launch leaves at a pixel. -/
def launchValue (source : ℤ → UInt8) (cols rows chunks : ℤ) (pixel : ℤ × ℤ) : UInt8 :=
  if rows / chunks = 2 ∧ pixel.2 = rows - 1 then
    nineMin (paddedRow source cols (rows - 2)) (paddedRow source cols (rows - 1))
      (paddedRow source cols rows) pixel.1
  else erosion (raster source cols) cols rows pixel

section Image

variable {cols rows chunks : ℤ} (positive : 0 < cols) (aligned : cols % 8 = 0) (tall : 2 < rows)
  (several : 1 ≤ chunks) (source : ℤ → UInt8)

include several tall in
/-- The work-item with the last row, when two rows go to each, has the last two. -/
theorem last_pair {id y : ℤ} (active : ¬ Surplus rows chunks id) (listed : id < chunks)
    (pair : rows / chunks = 2) (last : y = rows - 1)
    (owned : y < offset rows chunks id + mLocal rows chunks id) : id = chunks - 1 := by
  by_contra earlier
  have nonempty : 0 < rows := by omega
  have next : ¬ Surplus rows chunks (id + 1) := by
    have := (Int.le_ediv_iff_mul_le (by omega : 0 < chunks)).mp pair.ge
    unfold Surplus
    omega
  obtain ⟨begins, ends, _⟩ := partition_spec nonempty several active listed
  obtain ⟨_, later, size⟩ := partition_spec nonempty several next (by omega)
  have := start_mono nonempty several (by omega : id + 1 + 1 ≤ chunks)
  rw [start_chunks several] at this
  omega

include positive aligned tall several

/-- Each work-item stores its part of the image. -/
theorem rowValue_eq_launchValue {id x y : ℤ} (active : ¬ Surplus rows chunks id) (lower : 0 ≤ id)
    (listed : id < chunks) (column : 0 ≤ x ∧ x < cols) (first : offset rows chunks id ≤ y)
    (last : y < offset rows chunks id + mLocal rows chunks id) :
    rowValue source cols rows (offset rows chunks id) (x, y) =
      launchValue source cols rows chunks (x, y) := by
  obtain ⟨top, size, bottom⟩ := partition_inside (by omega : 0 < rows) several active lower listed
  obtain ⟨n, round⟩ : ∃ n : ℕ, (y - offset rows chunks id).toNat = n := ⟨_, rfl⟩
  have row : y = offset rows chunks id + n := by omega
  have pairs := last_pair_iff (by omega : 0 < rows) several active lower listed
  simp only [rowValue, launchValue, round]
  by_cases regular : offset rows chunks id ≠ rows - 2 ∨ n = 0
  · rw [if_neg]
    · refine (minOver_nineMin source (by omega) column.1 column.2 _ _ _).eq_erosion_of_rows
        (fun j => ?_) (by simp only [mem_frame]; omega)
      rw [row]
      exact near_fetched_iff tall top (by omega) (by omega) regular j
    · rintro ⟨pair, lastRow⟩
      have := pairs.mpr ⟨pair, last_pair tall several active listed pair lastRow last⟩
      omega
  · have begins : offset rows chunks id = rows - 2 := by omega
    obtain rfl : n = 1 := by omega
    have pair := pairs.mp ⟨begins, by omega⟩
    rw [if_pos ⟨pair.1, by omega⟩]
    simp only [fetched, fetchRow_eq tall (by omega : offset rows chunks id < rows), if_pos begins]
    rw [begins, if_neg (by omega), show rows - 2 + 1 = rows - 1 by ring]

variable (lines : ℤ → LineAddress → UInt8) (schedule : ℤ → Schedule) {order : List ℤ}
  (ordered : order.Perm (workItems chunks))

include ordered

/-- **What a launch stores**, for every timing of the copies and every order of the
work-items. -/
theorem paints_launch :
    Paints (launch source cols rows chunks lines schedule order) cols (frame cols rows)
      (launchValue source cols rows chunks) := by
  have nonempty : 0 < rows := by omega
  have mem_order (id : ℤ) : id ∈ order ↔ 0 ≤ id ∧ id < chunks := by
    rw [ordered.mem_iff, workItems, mem_counters_one]
  have items : ∀ id ∈ order,
      Paints (stores (workItem source cols rows chunks (lines id) (schedule id) id)) cols
        {pixel | (0 ≤ pixel.1 ∧ pixel.1 < cols) ∧ pixel.2 ∈ workRows rows chunks id}
        (launchValue source cols rows chunks) := by
    intro id member
    obtain ⟨lower, listed⟩ := (mem_order id).mp member
    apply (paints_workItem aligned positive.le nonempty several source (lines id) (schedule id)
      lower listed).value_congr
    rintro pixel ⟨column, active, first, last⟩
    exact rowValue_eq_launchValue positive aligned tall several source active lower listed column
      first last
  refine (Paints.flatMap order items).region_congr (Set.ext fun pixel => ?_)
  simp only [mem_order, Set.mem_ofPred_eq, mem_frame]
  constructor
  · rintro ⟨id, ⟨lower, listed⟩, ⟨left, right⟩, row⟩
    obtain ⟨top, bottom⟩ := workRows_inside nonempty several lower listed row
    exact ⟨left, right, top, bottom⟩
  · rintro ⟨left, right, top, bottom⟩
    obtain ⟨id, ⟨listed, row⟩, _⟩ := existsUnique_workRows nonempty several top bottom
    exact ⟨id, listed, ⟨left, right⟩, row⟩

/-- The image of a launch is the scalar one when the values of the pixels are. -/
theorem launch_agrees_iff (content scalarContent : ℤ → UInt8) :
    (∀ k, 0 ≤ k → k < rows * cols →
        replay (launch source cols rows chunks lines schedule order) content k =
          replay ((Scalar.erode3x3 0 0 cols rows).stores source) scalarContent k) ↔
      ∀ pixel ∈ frame cols rows, launchValue source cols rows chunks pixel =
        erosion (raster source cols) cols rows pixel := by
  have columns : ∀ pixel ∈ frame cols rows, 0 ≤ pixel.1 ∧ pixel.1 < cols :=
    fun pixel inside => ⟨inside.1, inside.2.1⟩
  have launched {pixel : ℤ × ℤ} (inside : pixel ∈ frame cols rows) :=
    (paints_launch positive aligned tall several source lines schedule ordered).replay_inside
      columns content inside
  have computed {pixel : ℤ × ℤ} (inside : pixel ∈ frame cols rows) :=
    (Scalar.paints_erode3x3 (by omega) (by omega) source).replay_inside columns scalarContent inside
  rw [mul_comm rows cols]
  constructor
  · intro agree pixel inside
    have bounds := address_bounds inside
    rw [← launched inside, ← computed inside]
    exact agree _ bounds.1 bounds.2
  · intro agree k lower upper
    obtain ⟨pixel, inside, rfl⟩ := exists_pixel lower upper positive
    rw [launched inside, computed inside, agree pixel inside]

end Image

section Agreement

variable {cols rows chunks : ℤ} (positive : 0 < cols) (aligned : cols % 8 = 0) (tall : 2 < rows)
  (several : 1 ≤ chunks)

/-- No byte of the row after the image is below all the bytes of the last two rows next to
a pixel it is next to. -/
def HarmlessBelow (source : ℤ → UInt8) (cols rows : ℤ) : Prop :=
  ∀ x x', 0 ≤ x → x < cols → 0 ≤ x' → x' < cols → |x' - x| ≤ 1 →
    ∃ i j, (0 ≤ i ∧ i < cols ∧ |i - x| ≤ 1) ∧ (rows - 2 ≤ j ∧ j ≤ rows - 1) ∧
      source (j * cols + i) ≤ source (rows * cols + x')

include positive aligned tall in
/-- The last row computed with the row after the image is right at a pixel when no byte of
that row near the pixel is below all those of the image near it. -/
theorem lastRow_eq_iff (source : ℤ → UInt8) {x : ℤ} (left : 0 ≤ x) (right : x < cols) :
    nineMin (paddedRow source cols (rows - 2)) (paddedRow source cols (rows - 1))
        (paddedRow source cols rows) x = erosion (raster source cols) cols rows (x, rows - 1) ↔
      ∀ x', 0 ≤ x' → x' < cols → |x' - x| ≤ 1 →
        ∃ i j, (0 ≤ i ∧ i < cols ∧ |i - x| ≤ 1) ∧ (rows - 2 ≤ j ∧ j ≤ rows - 1) ∧
          source (j * cols + i) ≤ source (rows * cols + x') := by
  have least : MinOver (raster source cols) (near cols x ×ˢ ({rows - 2} ∪ {rows - 1}))
      (erosion (raster source cols) cols rows (x, rows - 1)) := by
    refine (minOver_erosion _ (by simp only [mem_frame]; omega)).congr_prod
      (fun _ => Iff.rfl) fun j => ?_
    simp only [mem_near, Set.mem_union, Set.mem_singleton_iff]
    omega
  have wider := (minOver_nineMin source (by omega) left right (rows - 2) (rows - 1) rows).congr
    Set.prod_union
  rw [least.eq_iff_of_union wider]
  simp only [abs_le]
  constructor
  · intro covered x' left' right' close
    obtain ⟨⟨i, j⟩, ⟨column, row⟩, below⟩ := covered (x', rows)
      ⟨by rw [mem_near]; dsimp only; omega, rfl⟩
    simp only [mem_near, Set.mem_union, Set.mem_singleton_iff] at column row
    exact ⟨i, j, ⟨column.1, column.2.1, by omega⟩, by omega, below⟩
  · rintro harmless ⟨x', _⟩ ⟨column, rfl⟩
    rw [mem_near] at column
    obtain ⟨i, j, ⟨_, _, close⟩, row, below⟩ := harmless x' column.1 column.2.1 (by omega)
    refine ⟨(i, j), ⟨by rw [mem_near]; dsimp only; omega, ?_⟩, below⟩
    simp only [Set.mem_union, Set.mem_singleton_iff]
    omega

include positive aligned tall in
/-- The last row computed with the row after the image is right when that row is harmless. -/
theorem launchValue_eq_iff (source : ℤ → UInt8) :
    (∀ pixel ∈ frame cols rows, launchValue source cols rows chunks pixel =
        erosion (raster source cols) cols rows pixel) ↔
      rows / chunks ≠ 2 ∨ HarmlessBelow source cols rows := by
  constructor
  · intro agree
    by_cases pair : rows / chunks = 2
    · refine Or.inr fun x x' left right => ?_
      have value := agree (x, rows - 1) (by simp only [mem_frame]; omega)
      rw [launchValue, if_pos ⟨pair, rfl⟩] at value
      exact (lastRow_eq_iff positive aligned tall source left right).mp value x'
    · exact Or.inl pair
  · rintro regular ⟨x, y⟩ inside
    rw [launchValue]
    split
    · next last =>
        obtain ⟨pair, rfl⟩ := last
        have harmless := regular.resolve_left (not_not_intro pair)
        apply (lastRow_eq_iff positive aligned tall source inside.1 inside.2.1).mpr
        exact fun x' => harmless x x' inside.1 inside.2.1
    · rfl

/-- The row after a white image is harmful when it is black. -/
theorem not_harmlessBelow_black (positive : 0 < cols) (rows : ℤ) :
    ¬ HarmlessBelow (fun k => if k < rows * cols then 255 else 0) cols rows := by
  intro harmless
  obtain ⟨i, j, ⟨_, right, _⟩, ⟨_, last⟩, below⟩ :=
    harmless 0 0 le_rfl positive le_rfl positive (by decide)
  have inside : j * cols + i < rows * cols := by
    have := mul_le_mul_of_nonneg_right (by omega : j + 1 ≤ rows) positive.le
    linarith
  simp only [inside, if_true, add_zero, lt_irrefl, if_false] at below
  exact absurd below (by decide)

include positive aligned tall several

/-- **When the TI DSP implementation agrees with the scalar one.** For every timing of the
copies and every order of the work-items the two images are equal, unless two rows go to
the last work-item and the row after the image is not harmless; what follows the image does
not matter exactly when two rows do not. -/
theorem launch_eq_erode3x3_iff :
    (∀ source lines schedule order content scalarContent, order.Perm (workItems chunks) →
      ((∀ k, 0 ≤ k → k < rows * cols →
          replay (launch source cols rows chunks lines schedule order) content k =
            replay ((Scalar.erode3x3 0 0 cols rows).stores source) scalarContent k) ↔
        rows / chunks ≠ 2 ∨ HarmlessBelow source cols rows)) ∧
    ((∀ source lines schedule order content scalarContent, order.Perm (workItems chunks) →
      ∀ k, 0 ≤ k → k < rows * cols →
        replay (launch source cols rows chunks lines schedule order) content k =
          replay ((Scalar.erode3x3 0 0 cols rows).stores source) scalarContent k) ↔
      rows / chunks ≠ 2) := by
  have agrees (source : ℤ → UInt8) (lines : ℤ → LineAddress → UInt8) (schedule : ℤ → Schedule)
      (order : List ℤ) (content scalarContent : ℤ → UInt8)
      (ordered : order.Perm (workItems chunks)) :=
    (launch_agrees_iff positive aligned tall several source lines schedule ordered content
      scalarContent).trans (launchValue_eq_iff positive aligned tall source)
  refine ⟨agrees, ⟨fun always => ?_, fun regular => ?_⟩⟩
  · have black := (agrees (fun k => if k < rows * cols then 255 else 0) (fun _ _ => 0)
      (fun _ _ => []) _ (fun _ => 0) (fun _ => 0) (List.Perm.refl _)).mp
        (always _ _ _ _ _ _ (List.Perm.refl _))
    exact black.resolve_right (not_harmlessBelow_black positive rows)
  · intro source lines schedule order content scalarContent ordered
    exact (agrees source lines schedule order content scalarContent ordered).mpr (Or.inl regular)

end Agreement

/-- Two work-items in the opposite order, with two rows and one row. -/
theorem launch_eq_erode3x3_iff_three_rows_two_chunks :
    replay (launch (fun k => UInt8.ofNat (99 - k.toNat)) 8 3 2 (fun _ _ => 0) (fun _ _ => [1, 0])
      [1, 0]) (fun _ => 0) 23 = 76 :=
  (((launch_eq_erode3x3_iff (by decide : (0 : ℤ) < 8) (by decide) (by decide : (2 : ℤ) < 3)
    (by decide : (1 : ℤ) ≤ 2)).2.mpr (by decide)) (fun k => UInt8.ofNat (99 - k.toNat))
      (fun _ _ => 0) (fun _ _ => [1, 0]) [1, 0] (fun _ => 0) (fun _ => 0) (by decide) 23 (by decide)
        (by decide)).trans (by decide)

/-- With six rows and three work-items a black row after a white image turns the last
row black. -/
theorem launch_differs_from_erode3x3 :
    ¬ ∀ k, 0 ≤ k → k < 6 * 8 →
      replay (launch (fun k => if k < 6 * 8 then 255 else 0) 8 6 3 (fun _ _ => 0) (fun _ _ => [])
          [0, 1, 2]) (fun _ => 0) k =
        replay ((Scalar.erode3x3 0 0 8 6).stores fun k => if k < 6 * 8 then 255 else 0)
          (fun _ => 0) k := by
  intro agree
  have regular := (launchValue_eq_iff (by decide) (by decide) (by decide) _).mp
    ((launch_agrees_iff (by decide : (0 : ℤ) < 8) (by decide) (by decide : (2 : ℤ) < 6)
      (by decide : (1 : ℤ) ≤ 3) _ (fun _ _ => 0) (fun _ _ => []) (by decide) (fun _ => 0)
      fun _ => 0).mp agree)
  exact not_harmlessBelow_black (by decide) 6 (regular.resolve_left (by decide))

end ErodeTest.TiDsp
