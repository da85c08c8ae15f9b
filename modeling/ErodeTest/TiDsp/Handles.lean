import ErodeTest.Foundation.Interleaving
import ErodeTest.TiDsp.Rows
import ErodeTest.TiDsp.Timing
import Mathlib.Algebra.BigOperators.Ring.Finset
import Mathlib.Algebra.Order.BigOperators.Group.Finset
import Mathlib.Order.Interval.Finset.Nat

/-! # The EDMA handles of a sequence of launches

A work-item asks for a handle from a pool that all work-items share and all launches draw
on. It gives the handle back when it has computed its rows, but not when it returns for
want of rows: a launch with more work-items than rows keeps the handles of those without
a row (`ErodeTest.TiDsp.inUse_of_room`). Launches with no more work-items than rows keep
none (`ErodeTest.TiDsp.run_releases_handles`).
-/

namespace ErodeTest.TiDsp

open AsyncCopy BufferProgram

/-! ## The handle of a work-item -/

/-- The handles a work-item has in use. -/
def handles (log : List EdmaEvent) : ℤ :=
  (log.count (.emit (.alloc true)) : ℤ) - log.count (.emit .free)

/-- The handles obtained were given back, each while no copy was in flight, and none is in
flight at the end. -/
structure Released (log : List EdmaEvent) : Prop where
  balanced : log.count (.emit (.alloc true)) = log.count (.emit .free)
  waited : Throughout (fun before event => event = .emit .free → inFlight before = []) [] log
  settled : inFlight log = []

section Handle

variable {source : ℤ → UInt8} {cols rows : ℤ}

variable (source cols rows)

/-- Between its allocation and its last wait a work-item reports stores only. -/
theorem exists_body (offset : ℤ) (n : ℕ) :
    ∃ body, computeEvents source cols rows offset n = body ++ [.wait, .emit .free] ∧
      ∀ output, .emit output ∈ body → ∃ k v, output = .store k v := by
  refine ⟨_, rfl, fun output listed => ?_⟩
  simp only [List.mem_append, List.mem_flatMap] at listed
  rcases listed with (start | ⟨line, _, guard⟩) | ⟨y, _, row⟩
  · simp [startEvents] at start
  · simp [guardEvents] at guard
  · simp only [rowEvents, List.mem_cons, reduceCtorEq, false_or] at row
    rcases mem_columnEvents row with ⟨line, p, _, _, same⟩ | ⟨k, v, same⟩
    · cases same
    · exact ⟨k, v, Event.emit.inj same⟩

theorem count_computeEvents (offset : ℤ) (n : ℕ) :
    (computeEvents source cols rows offset n).count (.emit (.alloc true)) = 0 ∧
      (computeEvents source cols rows offset n).count (.emit .free) = 1 := by
  obtain ⟨body, whole, stored⟩ := exists_body source cols rows offset n
  have absent (output : Output) (other : ∀ k v, output ≠ .store k v) :
      body.count (.emit output) = 0 := by
    apply List.count_eq_zero.mpr
    intro listed
    obtain ⟨k, v, same⟩ := stored output listed
    exact other k v same
  rw [whole, List.count_append, List.count_append, absent (.alloc true) (by simp),
    absent .free (by simp)]
  exact ⟨rfl, rfl⟩

theorem released_computeEvents (offset : ℤ) (n : ℕ) :
    Released (.emit (.alloc true) :: computeEvents source cols rows offset n) := by
  obtain ⟨none, one⟩ := count_computeEvents source cols rows offset n
  obtain ⟨body, whole, stored⟩ := exists_body source cols rows offset n
  have waited (before : List EdmaEvent) : inFlight (before ++ [.wait]) = [] := by
    rw [inFlight_concat]
    rfl
  refine ⟨?_, ?_, ?_⟩
  · rw [List.count_cons_self, List.count_cons_of_ne (by simp), none, one]
  · refine ⟨by simp, ?_⟩
    rw [whole, throughout_append]
    refine ⟨?_, by simp, fun _ => waited _, trivial⟩
    apply throughout_of_forall
    intro earlier event begins freed
    have listed : event ∈ body := begins.subset (by simp)
    rw [freed] at listed
    obtain ⟨k, v, same⟩ := stored .free listed
    cases same
  · rw [whole, List.append_cons, ← List.cons_append, ← List.cons_append, inFlight_concat, waited]
    rfl

/-- The one handle that is not given back is that of a work-item without rows. -/
theorem handles_workItemEvents (evIN : Bool) (id chunks : ℤ) :
    handles (workItemEvents evIN source cols rows id chunks) =
      if evIN = true ∧ Surplus rows chunks id then 1 else 0 := by
  unfold handles workItemEvents
  cases evIN with
  | false => simp
  | true =>
      by_cases surplus : Surplus rows chunks id
      · simp [surplus]
      · have balanced := (released_computeEvents source cols rows (offset rows chunks id)
          (mLocal rows chunks id).toNat).balanced
        simp only [Bool.not_true, Bool.false_eq_true, if_false, surplus, and_false, balanced,
          sub_self]

theorem released_workItemEvents {evIN : Bool} {id chunks : ℤ} (active : ¬ Surplus rows chunks id) :
    Released (workItemEvents evIN source cols rows id chunks) := by
  unfold workItemEvents
  cases evIN with
  | false => exact ⟨rfl, by simp [Throughout], rfl⟩
  | true =>
      simp only [Bool.not_true, Bool.false_eq_true, if_false, if_neg active]
      exact released_computeEvents source cols rows _ _

variable {source cols rows}

/-- At no time a work-item has more than one handle. -/
theorem handles_le_one {evIN : Bool} {id chunks : ℤ} {log : List EdmaEvent}
    (begins : log <+: workItemEvents evIN source cols rows id chunks) : handles log ≤ 1 := by
  have whole :
      (workItemEvents evIN source cols rows id chunks).count (.emit (.alloc true)) ≤ 1 := by
    unfold workItemEvents
    split
    · simp
    split
    · simp
    · rw [List.count_cons_self, (count_computeEvents _ _ _ _ _).1]
  have := begins.sublist.count_le (.emit (.alloc true))
  unfold handles
  omega

end Handle

/-! ## Launches -/

/-- A launch the host admits: an image, the number of compute units, and what these find in
their lines. -/
structure Launch where
  source : ℤ → UInt8
  cols : ℤ
  rows : ℤ
  chunks : ℤ
  lines : ℤ → LineAddress → UInt8
  aligned : cols % 8 = 0
  nonneg : 0 ≤ cols
  narrow : cols < 2046
  tall : 2 < rows
  several : 0 < chunks

/-- A work-item that has not started, or what is left of it and its machine. -/
abbrev Item : Type := Option (Configuration LineAddress ℤ UInt8 Output Unit)

/-- The handles a work-item has in use. -/
def itemHandles : Item → ℤ
  | none => 0
  | some config => handles config.machine.log

namespace Launch

variable (launch : Launch)

/-- A work-item about to call `EdmaMgr_alloc`, which will grant the handle or not. -/
def initial (evIN : Bool) (id : ℤ) : Configuration LineAddress ℤ UInt8 Output Unit :=
  .initial (tidsp_morph_erode evIN launch.cols launch.rows id launch.chunks) (launch.lines id)

/-- The events of a work-item, by whether its handle is granted. -/
def events (evIN : Bool) (id : ℤ) : List EdmaEvent :=
  workItemEvents evIN launch.source launch.cols launch.rows id launch.chunks

/-- The handles of the pool in use, given those in use before the launch. -/
def inUse (before : ℤ) (items : ℤ → Item) : ℤ :=
  before + ∑ id ∈ Finset.range launch.chunks.toNat, itemHandles (items id)

/-- A work-item calls `EdmaMgr_alloc`, which grants a handle while the pool has one, or goes
on. -/
inductive ItemStep (capacity inUse id : ℤ) : Item → Item → Prop
  | alloc {after : Configuration LineAddress ℤ UInt8 Output Unit}
      (step : Step launch.source (launch.initial (decide (inUse < capacity)) id) after)
      (called : after.machine.log = [.emit (.alloc (decide (inUse < capacity)))]) :
      ItemStep capacity inUse id none (some after)
  | go {config after : Configuration LineAddress ℤ UInt8 Output Unit}
      (step : Step launch.source config after) :
      ItemStep capacity inUse id (some config) (some after)

/-- A step of one of the work-items. -/
def step (capacity before : ℤ) (items : ℤ → Item) (id : ℤ) (item : Item) : Prop :=
  (0 ≤ id ∧ id < launch.chunks) ∧
    launch.ItemStep capacity (launch.inUse before items) id (items id) item

/-- The work-items get from the beginning of the launch to the given states. -/
def Steps (capacity before : ℤ) (items : ℤ → Item) : Prop :=
  Interleaving.Steps (launch.step capacity before) (fun _ => none) items

/-- All work-items have returned. -/
def Finished (items : ℤ → Item) : Prop :=
  ∀ id, 0 ≤ id → id < launch.chunks → ∃ value machine, items id = some ⟨.done value, machine⟩

end Launch

/-- Launches one after the other, from a number of handles in use to another. -/
inductive Run (capacity start : ℤ) : List Launch → ℤ → Prop
  | nil : Run capacity start [] start
  | launch {launches : List Launch} {before : ℤ} (run : Run capacity start launches before)
      (launch : Launch) {items : ℤ → Item} (steps : launch.Steps capacity before items)
      (finished : launch.Finished items) :
      Run capacity start (launches ++ [launch]) (launch.inUse before items)

/-! ## What a launch leaves in use -/

section Launches

variable {launch : Launch} {capacity before : ℤ} {items : ℤ → Item}

/-- A work-item that has started is on its way through the kernel. -/
def Traced (launch : Launch) (may : Bool → Prop) (id : ℤ) : Item → Prop
  | none => True
  | some config => ∃ evIN, may evIN ∧ Steps launch.source (launch.initial evIN id) config

variable {may : Bool → Prop} {id : ℤ}

/-- Going on keeps a work-item on its way. -/
theorem Traced.step {inUse : ℤ} {before after : Item} (traced : Traced launch may id before)
    (step : launch.ItemStep capacity inUse id before after)
    (allowed : before = none → may (decide (inUse < capacity))) : Traced launch may id after := by
  cases step with
  | alloc step _ => exact ⟨_, allowed rfl, .single step⟩
  | go step =>
      obtain ⟨evIN, possible, steps⟩ := traced
      exact ⟨evIN, possible, steps.tail step⟩

/-- Every work-item is on its way through the kernel. -/
theorem traced_of_steps (steps : launch.Steps capacity before items) (id : ℤ) :
    Traced launch (fun _ => True) id (items id) := by
  apply Interleaving.Steps.invariant steps
  · exact fun _ => trivial
  · exact fun items id item traced step => (traced id).step step.2 fun _ => trivial

theorem Traced.log_begins {config : Configuration LineAddress ℤ UInt8 Output Unit}
    (traced : Traced launch may id (some config)) :
    ∃ evIN, may evIN ∧ config.machine.log <+: launch.events evIN id := by
  obtain ⟨evIN, possible, steps⟩ := traced
  exact ⟨evIN, possible, TiDsp.log_begins launch.aligned launch.nonneg steps⟩

theorem Traced.log_finished {value : Unit} {machine : Pending LineAddress ℤ UInt8 Output}
    (traced : Traced launch may id (some ⟨.done value, machine⟩)) :
    ∃ evIN, may evIN ∧ machine.log = launch.events evIN id := by
  obtain ⟨evIN, possible, steps⟩ := traced
  exact ⟨evIN, possible, TiDsp.log_finished launch.aligned launch.nonneg steps rfl⟩

/-- While a work-item has not started there is a handle for it, if there was one for each. -/
theorem inUse_lt (traced : ∀ id, Traced launch may id (items id))
    (listed : 0 ≤ id ∧ id < launch.chunks) (idle : items id = none) :
    launch.inUse before items < before + launch.chunks := by
  have member : id.toNat ∈ Finset.range launch.chunks.toNat := Finset.mem_range.mpr (by omega)
  have single (other : ℕ) : itemHandles (items other) ≤ 1 := by
    have way := traced other
    cases state : items other with
    | none => exact zero_le_one
    | some config =>
        rw [state] at way
        obtain ⟨evIN, _, begins⟩ := way.log_begins
        exact handles_le_one begins
  have bound := Finset.sum_le_card_nsmul ((Finset.range launch.chunks.toNat).erase id.toNat)
    (fun other : ℕ => itemHandles (items other)) 1 fun other _ => single other
  rw [Finset.card_erase_of_mem member, Finset.card_range, nsmul_one] at bound
  have own : itemHandles (items id.toNat) = 0 := by
    rw [Int.toNat_of_nonneg listed.1, idle]
    rfl
  have several := launch.several
  rw [Launch.inUse, ← Finset.sum_erase_add _ _ member, own]
  omega

/-- With a handle for each every work-item gets one. -/
theorem granted_of_room (room : before + launch.chunks ≤ capacity)
    (steps : launch.Steps capacity before items) (id : ℤ) :
    Traced launch (fun evIN => evIN = true) id (items id) := by
  apply Interleaving.Steps.invariant steps
  · exact fun _ => trivial
  · intro items id item traced step
    apply (traced id).step step.2
    intro idle
    have below : launch.inUse before items < before + launch.chunks :=
      inUse_lt traced step.1 idle
    exact decide_eq_true (by omega)

/-- What a work-item that has returned has in use. -/
theorem Traced.handles_finished {value : Unit} {machine : Pending LineAddress ℤ UInt8 Output}
    (traced : Traced launch may id (some ⟨.done value, machine⟩)) :
    ∃ evIN, may evIN ∧ handles machine.log =
      if evIN = true ∧ Surplus launch.rows launch.chunks id then 1 else 0 := by
  obtain ⟨evIN, possible, done⟩ := traced.log_finished
  exact ⟨evIN, possible, done ▸ handles_workItemEvents _ _ _ _ _ _⟩

/-- A launch with no more work-items than rows leaves as many handles in use as before. -/
theorem inUse_of_fits (fits : launch.chunks ≤ launch.rows)
    (steps : launch.Steps capacity before items) (finished : launch.Finished items) :
    launch.inUse before items = before := by
  rw [Launch.inUse, Finset.sum_eq_zero, add_zero]
  intro id member
  have listed := Finset.mem_range.mp member
  obtain ⟨value, machine, returned⟩ := finished id (by omega) (by omega)
  have way := traced_of_steps steps id
  rw [returned] at way ⊢
  obtain ⟨evIN, _, left⟩ := way.handles_finished
  refine left.trans (if_neg ?_)
  intro kept
  exact absurd kept.2.1 (not_lt.mpr fits)

/-- **The leak.** With a handle for each, a launch with more work-items than rows keeps the
handles of those without a row. -/
theorem inUse_of_room (room : before + launch.chunks ≤ capacity)
    (steps : launch.Steps capacity before items) (finished : launch.Finished items) :
    launch.inUse before items = before + (launch.chunks - launch.rows).toNat := by
  have each : ∀ id ∈ Finset.range launch.chunks.toNat,
      itemHandles (items id) = if Surplus launch.rows launch.chunks id then 1 else 0 := by
    intro id member
    have listed := Finset.mem_range.mp member
    obtain ⟨value, machine, returned⟩ := finished id (by omega) (by omega)
    have way := granted_of_room room steps id
    rw [returned] at way ⊢
    obtain ⟨evIN, rfl, left⟩ := way.handles_finished
    simp only [true_and] at left
    exact left
  have tall := launch.tall
  have surplus : (Finset.range launch.chunks.toNat).filter
      (fun id : ℕ => Surplus launch.rows launch.chunks id) =
        Finset.Ico launch.rows.toNat launch.chunks.toNat := by
    ext id
    rw [Finset.mem_filter, Finset.mem_range, Finset.mem_Ico, Surplus]
    omega
  rw [Launch.inUse, Finset.sum_congr rfl each, Finset.sum_boole, surplus, Nat.card_Ico]
  omega

/-- With a handle for each all bytes of the image are stored. -/
theorem stored_of_room (room : before + launch.chunks ≤ capacity)
    (steps : launch.Steps capacity before items) (finished : launch.Finished items) {k : ℤ}
    (lower : 0 ≤ k) (upper : k < launch.rows * launch.cols) :
    ∃ id config b, items id = some config ∧ (k, b) ∈ stores config.machine.log := by
  have tall := launch.tall
  obtain ⟨id, ⟨⟨first, last⟩, b, stored⟩, _⟩ := existsUnique_store launch.aligned launch.nonneg
    (by omega) launch.several launch.source launch.lines (fun _ _ => []) lower upper
  obtain ⟨value, machine, returned⟩ := finished id first last
  have way := granted_of_room room steps id
  rw [returned] at way
  obtain ⟨evIN, rfl, done⟩ := way.log_finished
  refine ⟨id, _, b, returned, ?_⟩
  rw [workItem_eq_workItemEvents _ _ _ _ launch.aligned launch.nonneg] at stored
  exact done.symm ▸ stored

/-- A work-item of a launch with no more of them than rows gives its handle back before it
returns. -/
theorem released_of_fits (fits : launch.chunks ≤ launch.rows)
    (steps : launch.Steps capacity before items) {value : Unit}
    {machine : Pending LineAddress ℤ UInt8 Output}
    (returned : items id = some ⟨.done value, machine⟩) :
    Released machine.log ∧ machine.pending = [] := by
  have way := traced_of_steps steps id
  rw [returned] at way
  obtain ⟨evIN, _, done⟩ := way.log_finished
  obtain ⟨evIN', _, own⟩ := way
  have active : ¬ Surplus launch.rows launch.chunks id := fun surplus =>
    absurd surplus.1 (not_lt.mpr fits)
  have released : Released machine.log :=
    done ▸ released_workItemEvents launch.source launch.cols launch.rows active
  have holds := wp_workItemEvents evIN' launch.source launch.rows id launch.chunks launch.aligned
    launch.nonneg (launch.lines id)
  obtain ⟨state, reached⟩ := AsyncCopy.Steps.reached holds.1 own
  refine ⟨released, List.eq_nil_iff_forall_not_mem.mpr fun entry waiting => ?_⟩
  have flying := reached.pending waiting
  rw [released.settled] at flying
  exact List.not_mem_nil flying

/-- A work-item that has started goes on. -/
def Goes (launch : Launch) (item after : Item) : Prop :=
  ∃ config next, item = some config ∧ after = some next ∧ Step launch.source config next

/-- A work-item that has not started can run to its return. -/
theorem exists_returned {parties : ℤ → Item} (listed : 0 ≤ id ∧ id < launch.chunks)
    (idle : parties id = none) :
    ∃ item, (∃ value machine, item = some ⟨.done value, machine⟩) ∧
      Interleaving.Steps (launch.step capacity before) parties
        (Function.update parties id item) := by
  obtain ⟨granted, decided⟩ :
      ∃ granted, granted = decide (launch.inUse before parties < capacity) := ⟨_, rfl⟩
  obtain ⟨rest, called⟩ : ∃ rest, tidsp_morph_erode granted launch.cols launch.rows id
      launch.chunks = .emit (.alloc granted) rest := ⟨_, rfl⟩
  obtain ⟨first, started⟩ : ∃ first : Configuration LineAddress ℤ UInt8 Output Unit,
      first = ⟨rest, ⟨launch.lines id, [], [.emit (.alloc granted)]⟩⟩ := ⟨_, rfl⟩
  have call : Step launch.source (launch.initial granted id) first := by
    rw [Launch.initial, Configuration.initial, called, started]
    exact .emit _ _ _
  have granting : launch.step capacity before parties id (some first) := by
    refine ⟨listed, ?_⟩
    rw [idle]
    subst decided started
    exact .alloc call rfl
  have going : ∀ (parties : ℤ → Item) (item : Item), Goes launch (parties id) item →
      launch.step capacity before parties id item := by
    rintro parties _ ⟨config, after, present, rfl, step⟩
    refine ⟨listed, ?_⟩
    rw [present]
    exact .go step
  obtain ⟨value, machine, moves⟩ := exists_finished launch.source first
  have own : Relation.ReflTransGen (Goes launch)
      (Function.update parties id (some first) id) (some ⟨.done value, machine⟩) := by
    rw [Function.update_self]
    exact moves.lift some fun config after step => ⟨config, after, rfl, rfl, step⟩
  have steps := Interleaving.steps_of_party going own
  rw [Function.update_idem] at steps
  exact ⟨_, ⟨value, machine, rfl⟩, .head ⟨id, _, granting, rfl⟩ steps⟩

variable (launch capacity before)

/-- Every launch can run to its end. -/
theorem exists_finished_launch :
    ∃ items, launch.Steps capacity before items ∧ launch.Finished items := by
  obtain ⟨items, steps, done, _⟩ := Interleaving.exists_steps (counters_nodup one_pos)
    fun parties id listed (idle : parties id = none) =>
      @exists_returned launch capacity before id parties (mem_counters_one.mp listed) idle
  exact ⟨items, steps, fun id lower listed => done id (mem_counters_one.mpr ⟨lower, listed⟩)⟩

end Launches

/-! ## Sequences of launches -/

section Runs

variable {capacity start before : ℤ} {launches : List Launch}

/-- Launches with no more work-items than rows leave as many handles in use as there were. -/
theorem Run.inUse_eq (run : Run capacity start launches before)
    (fit : ∀ launch ∈ launches, launch.chunks ≤ launch.rows) : before = start := by
  induction run with
  | nil => rfl
  | launch _ launch steps finished ih =>
      rw [inUse_of_fits (fit launch (by simp)) steps finished]
      exact ih fun earlier listed => fit earlier (List.mem_append_left _ listed)

/-- **Launches with no more work-items than rows give their handles back.** After any number
of them and at any moment of the next one, the work-items that have returned have given back
what they obtained, with no copy left in flight; the launch leaves as many handles in use as
there were at the start; and it stores its whole image if these left a handle for each of
its work-items. -/
theorem run_releases_handles (run : Run capacity start launches before)
    (fit : ∀ launch ∈ launches, launch.chunks ≤ launch.rows) {launch : Launch}
    (fits : launch.chunks ≤ launch.rows) {items : ℤ → Item}
    (steps : launch.Steps capacity before items) :
    before = start ∧
    (∀ id value machine, items id = some ⟨.done value, machine⟩ →
      Released machine.log ∧ machine.pending = []) ∧
    (launch.Finished items → launch.inUse before items = before) ∧
    (start + launch.chunks ≤ capacity → launch.Finished items →
      ∀ k, 0 ≤ k → k < launch.rows * launch.cols →
        ∃ id config b, items id = some config ∧ (k, b) ∈ stores config.machine.log) := by
  have same := run.inUse_eq fit
  refine ⟨same, fun id value machine => released_of_fits fits steps, inUse_of_fits fits steps, ?_⟩
  intro room finished k lower upper
  exact stored_of_room (same ▸ room) steps finished lower upper

end Runs

/-- A launch on four compute units with the given number of rows. -/
def fourUnits (rows : ℤ) (tall : 2 < rows) : Launch where
  source _ := 0
  cols := 8
  rows := rows
  chunks := 4
  lines _ _ := 0
  aligned := by decide
  nonneg := by decide
  narrow := by decide
  tall := tall
  several := by decide

theorem run_releases_handles_four_rows :
    ∃ before items, Run 4 0 [fourUnits 4 (by decide)] before ∧
      (fourUnits 4 (by decide)).Steps 4 before items ∧
        (fourUnits 4 (by decide)).Finished items ∧
          (fourUnits 4 (by decide)).inUse before items = before := by
  obtain ⟨first, steps, finished⟩ := exists_finished_launch (fourUnits 4 (by decide)) 4 0
  have run := Run.launch .nil _ steps finished
  obtain ⟨items, next, done⟩ := exists_finished_launch (fourUnits 4 (by decide)) 4
    ((fourUnits 4 (by decide)).inUse 0 first)
  have kept :=
    (run_releases_handles run (by simp [fourUnits]) (by simp [fourUnits]) next).2.2.1 done
  exact ⟨_, items, run, next, done, kept⟩

/-- Three rows on four compute units keep one handle of four. -/
theorem launch_keeps_handle :
    ∃ items, (fourUnits 3 (by decide)).Steps 4 0 items ∧
      (fourUnits 3 (by decide)).Finished items ∧ (fourUnits 3 (by decide)).inUse 0 items = 1 := by
  obtain ⟨items, steps, finished⟩ := exists_finished_launch (fourUnits 3 (by decide)) 4 0
  exact ⟨items, steps, finished, inUse_of_room (by decide) steps finished⟩

end ErodeTest.TiDsp
