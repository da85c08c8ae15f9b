import ErodeTest.Foundation.SharedMemory
import ErodeTest.TiDsp.Erode
import ErodeTest.TiDsp.Handles

/-! # The destination of a sequence of launches

The work-items of a launch store to one image in global memory while their copies arrive,
in any interleaving. At every moment a byte of the image holds what it held before the
launch or what the launch computes for it, and at the end those of the rows of the
work-items with a handle hold the latter (`ErodeTest.TiDsp.destination_of_steps`). A launch
that finds the pool empty changes nothing. In a sequence of launches with no more work-items
than rows no launch is short of handles because of an earlier one, and each leaves its own
image whatever the image held (`ErodeTest.TiDsp.frames_destination`).
-/

namespace ErodeTest.TiDsp

open AsyncCopy BufferProgram Morphology

/-- What a work-item has stored in the destination. -/
def itemStores : Item → List (ℤ × UInt8)
  | none => []
  | some config => stores config.machine.log

namespace Launch

variable (launch : Launch)

/-- The work-items get from the beginning of the launch to the given states, the destination
from one content to another. -/
def DestinationSteps (capacity before : ℤ) (content : ℤ → UInt8) (items : ℤ → Item)
    (memory : ℤ → UInt8) : Prop :=
  Interleaving.SharedSteps (launch.step capacity before) itemStores (fun _ => none, content)
    (items, memory)

/-- The pixels of the rows of a work-item. -/
def workPixels (id : ℤ) : Set (ℤ × ℤ) :=
  {pixel | (0 ≤ pixel.1 ∧ pixel.1 < launch.cols) ∧ pixel.2 ∈ workRows launch.rows launch.chunks id}

/-- What the launch computes for a pixel. -/
def value : ℤ × ℤ → UInt8 := launchValue launch.source launch.cols launch.rows launch.chunks

end Launch

/-- The work-item has a handle, or had one. -/
def Granted (items : ℤ → Item) (id : ℤ) : Prop :=
  ∃ config, items id = some config ∧ .emit (.alloc true) ∈ config.machine.log

section Items

variable {launch : Launch} {capacity before : ℤ} {items : ℤ → Item} {id : ℤ} {may : Bool → Prop}

/-- A step of a work-item adds to what it has stored. -/
theorem itemStores_begins {parties : ℤ → Item} {item : Item}
    (step : launch.step capacity before parties id item) :
    itemStores (parties id) <+: itemStores item := by
  obtain ⟨_, moves⟩ := step
  generalize parties id = old at moves
  cases moves with
  | alloc => exact List.nil_prefix
  | go step => exact step.log_begins.filterMap store?

/-- Only a work-item of the launch has started. -/
def Listed (launch : Launch) (id : ℤ) (item : Item) : Prop :=
  item = none ∨ (0 ≤ id ∧ id < launch.chunks)

theorem listed_of_started (steps : launch.Steps capacity before items) {config}
    (started : items id = some config) : 0 ≤ id ∧ id < launch.chunks := by
  have listed : Listed launch id (items id) := by
    apply Interleaving.Steps.invariant steps
    · exact fun _ => Or.inl rfl
    · exact fun _ _ _ _ step => Or.inr step.1
  exact listed.resolve_left (by simp [started])

/-- The events of a work-item with a handle store its pixels. -/
theorem paints_events (listed : 0 ≤ id ∧ id < launch.chunks) :
    Paints (stores (launch.events true id)) launch.cols (launch.workPixels id) launch.value := by
  have tall := launch.tall
  have painted := paints_workItem launch.aligned launch.nonneg (by omega : 0 < launch.rows)
    launch.several launch.source (launch.lines id) (fun _ => []) listed.1 listed.2
  rw [workItem_eq_workItemEvents _ _ _ _ launch.aligned launch.nonneg] at painted
  apply painted.value_congr
  rintro ⟨x, y⟩ ⟨column, active, first, last⟩
  exact rowValue_eq_launchValue (by omega) launch.aligned tall launch.several launch.source active
    listed.1 listed.2 column first last

/-- A work-item that has stored something has a handle, and stores it with all of its work. -/
theorem mem_events_of_mem_itemStores (traced : Traced launch may id (items id))
    {entry : ℤ × UInt8} (stored : entry ∈ itemStores (items id)) :
    (∃ config, items id = some config) ∧ may true ∧ entry ∈ stores (launch.events true id) := by
  cases state : items id with
  | none =>
      rw [state] at stored
      exact absurd stored List.not_mem_nil
  | some config =>
      rw [state] at traced stored
      obtain ⟨evIN, possible, begins⟩ := traced.log_begins
      have member := (begins.filterMap store?).subset stored
      cases evIN with
      | false => exact absurd member List.not_mem_nil
      | true => exact ⟨⟨config, rfl⟩, possible, member⟩

/-- What a work-item stores are values of the launch at its pixels. -/
theorem exists_pixel_of_mem_itemStores (steps : launch.Steps capacity before items) {k : ℤ}
    {b : UInt8} (stored : (k, b) ∈ itemStores (items id)) :
    (0 ≤ id ∧ id < launch.chunks) ∧ ∃ pixel ∈ launch.workPixels id,
      k = address launch.cols pixel ∧ b = launch.value pixel := by
  obtain ⟨⟨config, started⟩, _, member⟩ :=
    mem_events_of_mem_itemStores (traced_of_steps steps id) stored
  have listed := listed_of_started steps started
  exact ⟨listed, (paints_events listed k b).mp member⟩

theorem workPixels_subset (listed : 0 ≤ id ∧ id < launch.chunks) {pixel : ℤ × ℤ}
    (own : pixel ∈ launch.workPixels id) : pixel ∈ frame launch.cols launch.rows := by
  have tall := launch.tall
  obtain ⟨⟨left, right⟩, row⟩ := own
  obtain ⟨top, bottom⟩ :=
    workRows_inside (by omega) launch.several listed.1 listed.2 row
  exact ⟨left, right, top, bottom⟩

/-- A work-item that has returned had a handle or none, and has done what follows from it. -/
theorem Traced.granted_iff {value : Unit} {machine : Pending LineAddress ℤ UInt8 Output}
    (traced : Traced launch may id (items id))
    (returned : items id = some ⟨.done value, machine⟩) :
    ∃ evIN, may evIN ∧ machine.log = launch.events evIN id ∧ (Granted items id ↔ evIN = true) := by
  rw [returned] at traced
  obtain ⟨evIN, possible, done⟩ := traced.log_finished
  refine ⟨evIN, possible, done, ?_⟩
  have own : Granted items id ↔ .emit (.alloc true) ∈ machine.log := by
    simp [Granted, returned]
  rw [own, done, Launch.events, workItemEvents]
  cases evIN with
  | false => simp
  | true =>
      simp only [Bool.not_true, Bool.false_eq_true, if_false, iff_true]
      split <;> exact List.mem_cons_self

/-- A work-item without a handle has none in use at any moment. -/
theorem handles_denied {log : List EdmaEvent} (begins : log <+: launch.events false id) :
    handles log = 0 := by
  have absent (output : Output) (other : .emit output ∉ launch.events false id) :
      log.count (.emit output) = 0 :=
    List.count_eq_zero.mpr fun listed => other (begins.subset listed)
  rw [handles, absent (.alloc true) (by simp [Launch.events, workItemEvents]),
    absent .free (by simp [Launch.events, workItemEvents])]
  rfl

/-- A launch that finds no handle in the pool gets none. -/
theorem denied_of_exhausted (exhausted : capacity ≤ before)
    (steps : launch.Steps capacity before items) (id : ℤ) :
    Traced launch (fun evIN => evIN = false) id (items id) := by
  apply Interleaving.Steps.invariant steps
  · exact fun _ => trivial
  · intro items id item traced step
    apply (traced id).step step.2
    intro _
    have none : launch.inUse before items = before := by
      rw [Launch.inUse, Finset.sum_eq_zero, add_zero]
      intro other _
      have way := traced other
      cases state : items other with
      | none => rfl
      | some config =>
          rw [state] at way
          obtain ⟨evIN, rfl, begins⟩ := way.log_begins
          exact handles_denied begins
    exact decide_eq_false (by omega)

end Items

/-! ## One launch -/

section Destination

variable {launch : Launch} {capacity before : ℤ} {content memory : ℤ → UInt8}
  {items : ℤ → Item}

theorem Launch.DestinationSteps.moves
    (steps : launch.DestinationSteps capacity before content items memory) :
    launch.Steps capacity before items :=
  Interleaving.SharedSteps.steps steps

variable (steps : launch.DestinationSteps capacity before content items memory)

include steps

/-- A byte of the image holds its new value once this was stored, and its old one before. -/
theorem memory_eq {pixel : ℤ × ℤ} (inside : pixel ∈ frame launch.cols launch.rows) :
    ((∃ id, (address launch.cols pixel, launch.value pixel) ∈ itemStores (items id)) →
        memory (address launch.cols pixel) = launch.value pixel) ∧
      ((∀ id, (address launch.cols pixel, launch.value pixel) ∉ itemStores (items id)) →
        memory (address launch.cols pixel) = content (address launch.cols pixel)) := by
  apply Interleaving.SharedSteps.memory_eq (fun _ => rfl) steps
  intro id other stored
  obtain ⟨_, pixel', ⟨⟨left, right⟩, _⟩, place, rfl⟩ :=
    exists_pixel_of_mem_itemStores steps.moves stored
  rw [address_injective inside.1 inside.2.1 left right place]

/-- A byte that no work-item stores keeps its value. -/
theorem memory_of_not_stored {k : ℤ} (never : ∀ id b, (k, b) ∉ itemStores (items id)) :
    memory k = content k := by
  have only : ∀ id b, (k, b) ∈ itemStores (items id) → b = content k :=
    fun id b stored => absurd stored (never id b)
  exact (Interleaving.SharedSteps.memory_eq (fun _ => rfl) steps only).2 fun id => never id _

/-- Bytes outside the image keep their value. -/
theorem memory_outside {k : ℤ} (outside : ¬ (0 ≤ k ∧ k < launch.cols * launch.rows)) :
    memory k = content k := by
  apply memory_of_not_stored steps
  intro id b stored
  obtain ⟨listed, pixel, own, rfl, _⟩ := exists_pixel_of_mem_itemStores steps.moves stored
  exact outside (address_bounds (workPixels_subset listed own))

/-- Without a handle in the pool nothing is stored. -/
theorem memory_of_exhausted (exhausted : capacity ≤ before) : memory = content := by
  funext k
  apply memory_of_not_stored steps
  intro id b stored
  have denied := denied_of_exhausted exhausted steps.moves id
  exact Bool.noConfusion (mem_events_of_mem_itemStores denied stored).2.1

/-- At the end the pixels of a work-item hold their new values if it had a handle. -/
theorem memory_finished (finished : launch.Finished items) {id : ℤ} (lower : 0 ≤ id)
    (listed : id < launch.chunks) {pixel : ℤ × ℤ} (own : pixel ∈ launch.workPixels id) :
    (Granted items id → memory (address launch.cols pixel) = launch.value pixel) ∧
      (¬ Granted items id →
        memory (address launch.cols pixel) = content (address launch.cols pixel)) := by
  have tall := launch.tall
  have inside := workPixels_subset ⟨lower, listed⟩ own
  obtain ⟨value, machine, returned⟩ := finished id lower listed
  obtain ⟨evIN, _, done, granted⟩ := (traced_of_steps steps.moves id).granted_iff returned
  have stored : itemStores (items id) = stores (launch.events evIN id) := by
    rw [returned, ← done]
    rfl
  constructor
  · intro has
    refine (memory_eq steps inside).1 ⟨id, ?_⟩
    rw [stored, granted.mp has]
    exact (paints_events ⟨lower, listed⟩ _ _).mpr ⟨pixel, own, rfl, rfl⟩
  · intro lacks
    obtain rfl : evIN = false := Bool.eq_false_iff.mpr fun has => lacks (granted.mpr has)
    refine (memory_eq steps inside).2 fun other present => ?_
    obtain ⟨otherListed, pixel', ⟨⟨left, right⟩, row⟩, place, _⟩ :=
      exists_pixel_of_mem_itemStores steps.moves present
    obtain rfl := address_injective inside.1 inside.2.1 left right place
    have same : other = id :=
      workRows_disjoint (by omega) launch.several otherListed.2 listed row own.2
    rw [same, stored] at present
    exact List.not_mem_nil present

/-- With a handle for each the image is the one of the launch. -/
theorem memory_of_room (room : before + launch.chunks ≤ capacity)
    (finished : launch.Finished items) {pixel : ℤ × ℤ}
    (inside : pixel ∈ frame launch.cols launch.rows) :
    memory (address launch.cols pixel) = launch.value pixel := by
  have tall := launch.tall
  obtain ⟨left, right, top, bottom⟩ := inside
  obtain ⟨id, ⟨⟨lower, listed⟩, row⟩, _⟩ :=
    existsUnique_workRows (by omega) launch.several top bottom
  obtain ⟨value, machine, returned⟩ := finished id lower listed
  obtain ⟨evIN, has, _, granted⟩ := (granted_of_room room steps.moves id).granted_iff returned
  exact (memory_finished steps finished lower listed ⟨⟨left, right⟩, row⟩).1 (granted.mpr has)

/-- **The destination of a launch.** At every moment the bytes outside the image have kept
their value, and a byte of the image holds what it held or what the launch computes for it;
when all work-items have returned, the pixels of a work-item's rows hold the new values if
the pool granted it a handle, and the old ones if not. With a handle for each work-item the
whole image is new, and a launch that finds the pool empty changes nothing. -/
theorem destination_of_steps :
    (∀ k, ¬ (0 ≤ k ∧ k < launch.cols * launch.rows) → memory k = content k) ∧
    (∀ pixel ∈ frame launch.cols launch.rows,
      memory (address launch.cols pixel) = content (address launch.cols pixel) ∨
        memory (address launch.cols pixel) = launch.value pixel) ∧
    (launch.Finished items → ∀ id, 0 ≤ id → id < launch.chunks →
      ∀ pixel ∈ launch.workPixels id,
        (Granted items id → memory (address launch.cols pixel) = launch.value pixel) ∧
          (¬ Granted items id →
            memory (address launch.cols pixel) = content (address launch.cols pixel))) ∧
    (before + launch.chunks ≤ capacity → launch.Finished items →
      ∀ pixel ∈ frame launch.cols launch.rows,
        memory (address launch.cols pixel) = launch.value pixel) ∧
    (capacity ≤ before → memory = content) := by
  refine ⟨fun k => memory_outside steps, fun pixel inside => ?_,
    fun finished id lower listed pixel => memory_finished steps finished lower listed,
    fun room finished pixel => memory_of_room steps room finished, memory_of_exhausted steps⟩
  have states := memory_eq steps inside
  by_cases new : ∃ id, (address launch.cols pixel, launch.value pixel) ∈ itemStores (items id)
  · exact Or.inr (states.1 new)
  · exact Or.inl (states.2 (not_exists.mp new))

end Destination

/-- Every launch can run to its end over every content of the destination. -/
theorem exists_destination (launch : Launch) (capacity before : ℤ) (content : ℤ → UInt8) :
    ∃ items memory, launch.DestinationSteps capacity before content items memory ∧
      launch.Finished items := by
  obtain ⟨items, steps, finished⟩ := exists_finished_launch launch capacity before
  obtain ⟨memory, shared⟩ := Interleaving.exists_sharedSteps
    (fun _ _ _ step => itemStores_begins step) steps content
  exact ⟨items, memory, shared, finished⟩

/-- Four rows on four compute units, over a pool that has one of its five handles in use. -/
theorem destination_of_steps_four_rows :
    ∃ items memory, (fourUnits 4 (by decide)).DestinationSteps 5 1 (fun k => k.toNat.toUInt8)
      items memory ∧ (fourUnits 4 (by decide)).Finished items ∧
        ∀ pixel ∈ frame 8 4,
          memory (address 8 pixel) = (fourUnits 4 (by decide)).value pixel := by
  obtain ⟨items, memory, steps, finished⟩ :=
    exists_destination (fourUnits 4 (by decide)) 5 1 fun k => k.toNat.toUInt8
  exact ⟨items, memory, steps, finished,
    (destination_of_steps steps).2.2.2.1 (by decide) finished⟩

/-! ## Sequences of launches -/

/-- The handles a launch keeps when each of its work-items gets one. -/
def Launch.leak (launch : Launch) : ℕ := (launch.chunks - launch.rows).toNat

/-- Launches one after the other, from a number of handles in use and a content of the
destination to others. -/
inductive Frames (capacity start : ℤ) (content : ℤ → UInt8) :
    List Launch → ℤ → (ℤ → UInt8) → Prop
  | nil : Frames capacity start content [] start content
  | launch {launches : List Launch} {before : ℤ} {memory memory' : ℤ → UInt8}
      (frames : Frames capacity start content launches before memory) (launch : Launch)
      {items : ℤ → Item} (steps : launch.DestinationSteps capacity before memory items memory')
      (finished : launch.Finished items) :
      Frames capacity start content (launches ++ [launch]) (launch.inUse before items) memory'

section Frames

variable {launch : Launch} {capacity start before : ℤ} {items : ℤ → Item}

/-- A launch keeps at most the handles of its work-items without a row. -/
theorem inUse_le (steps : launch.Steps capacity before items) (finished : launch.Finished items) :
    launch.inUse before items ≤ before + launch.leak := by
  have tall := launch.tall
  have each : ∀ id ∈ Finset.range launch.chunks.toNat,
      itemHandles (items id) ≤ if Surplus launch.rows launch.chunks id then 1 else 0 := by
    intro id member
    have listed := Finset.mem_range.mp member
    obtain ⟨value, machine, returned⟩ := finished id (by omega) (by omega)
    have way := traced_of_steps steps id
    rw [returned] at way ⊢
    obtain ⟨evIN, _, left⟩ := way.handles_finished
    refine left.le.trans ?_
    split <;> split <;> simp_all
  have surplus : (Finset.range launch.chunks.toNat).filter
      (fun id : ℕ => Surplus launch.rows launch.chunks id) ⊆
        Finset.Ico launch.rows.toNat launch.chunks.toNat := by
    intro id member
    rw [Finset.mem_filter, Finset.mem_range, Surplus] at member
    rw [Finset.mem_Ico]
    omega
  have few := Finset.card_le_card surplus
  have total := Finset.sum_le_sum each
  rw [Nat.card_Ico] at few
  rw [Finset.sum_boole] at total
  rw [Launch.inUse, Launch.leak]
  omega

/-- Launches keep at most the handles of their work-items without a row. -/
theorem Frames.inUse_le {content memory : ℤ → UInt8} {launches : List Launch}
    (frames : Frames capacity start content launches before memory) :
    before ≤ start + (launches.map Launch.leak).sum := by
  induction frames with
  | nil => simp
  | launch _ launch steps finished ih =>
      have kept := TiDsp.inUse_le steps.moves finished
      rw [List.map_append, List.sum_append, List.map_singleton, List.sum_singleton]
      omega

/-- **Every frame gets its own image.** After any launches a pool with a handle for each
work-item of the next, apart from those the earlier launches may have kept, leads to the
image of the next launch, whatever the destination held: it is the one of the scalar code
if and only if the last work-item has not just two rows or the row after the image is
harmless. Nothing outside the image changes, and at most the handles of the work-items
without a row are kept. -/
theorem frames_destination {content memory memory' : ℤ → UInt8} {launches : List Launch}
    (frames : Frames capacity start content launches before memory)
    (room : start + (launches.map Launch.leak).sum + launch.chunks ≤ capacity)
    (steps : launch.DestinationSteps capacity before memory items memory')
    (finished : launch.Finished items) (scalarContent : ℤ → UInt8) :
    ((∀ k, 0 ≤ k → k < launch.cols * launch.rows →
        memory' k = replay ((Scalar.erode3x3 0 0 launch.cols launch.rows).stores launch.source)
          scalarContent k) ↔
      launch.rows / launch.chunks ≠ 2 ∨ HarmlessBelow launch.source launch.cols launch.rows) ∧
    (∀ k, ¬ (0 ≤ k ∧ k < launch.cols * launch.rows) → memory' k = memory k) ∧
    launch.inUse before items ≤ start + ((launches ++ [launch]).map Launch.leak).sum := by
  have handles := frames.inUse_le
  refine ⟨?_, fun k => memory_outside steps, (frames.launch launch steps finished).inUse_le⟩
  have tall := launch.tall
  rcases launch.nonneg.eq_or_lt with none | positive
  · refine iff_of_true (fun k lower upper => ?_) (Or.inr fun x x' left right => ?_)
    · rw [← none, zero_mul] at upper
      omega
    · omega
  have aligned := launch.aligned
  have image (pixel : ℤ × ℤ) (inside : pixel ∈ frame launch.cols launch.rows) :=
    memory_of_room steps (by omega) finished inside
  have scalar {pixel : ℤ × ℤ} (inside : pixel ∈ frame launch.cols launch.rows) :=
    (Scalar.paints_erode3x3 (by omega) (by omega) launch.source).replay_inside
      (fun pixel inside => ⟨inside.1, inside.2.1⟩) scalarContent inside
  rw [← launchValue_eq_iff positive aligned tall launch.source]
  constructor
  · intro agree pixel inside
    have bounds := address_bounds inside
    rw [← scalar inside, ← agree _ bounds.1 bounds.2, image pixel inside]
    rfl
  · intro agree k lower upper
    obtain ⟨pixel, inside, rfl⟩ := exists_pixel lower upper positive
    rw [image pixel inside, scalar inside, ← agree pixel inside]
    rfl

end Frames

/-- A launch of three rows on four compute units keeps a handle of five, and the next launch
of four rows still has one for each. -/
theorem frames_destination_two_launches :
    ∃ before items memory memory', Frames 5 0 (fun _ => 9) [fourUnits 3 (by decide)] before memory ∧
      (fourUnits 4 (by decide)).DestinationSteps 5 before memory items memory' ∧
        ∀ k, 0 ≤ k → k < 8 * 4 → memory' k =
          replay ((Scalar.erode3x3 0 0 8 4).stores fun _ => 0) (fun _ => 0) k := by
  obtain ⟨first, middle, earlier, ended⟩ :=
    exists_destination (fourUnits 3 (by decide)) 5 0 fun _ => 9
  have frames := Frames.nil.launch _ earlier ended
  obtain ⟨items, memory', steps, finished⟩ := exists_destination (fourUnits 4 (by decide)) 5
    ((fourUnits 3 (by decide)).inUse 0 first) middle
  refine ⟨_, items, middle, memory', frames, steps, ?_⟩
  exact (frames_destination frames (by decide) steps finished fun _ => 0).1.mpr
    (Or.inl (by decide))

end ErodeTest.TiDsp
