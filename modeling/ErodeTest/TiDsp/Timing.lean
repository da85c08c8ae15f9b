import ErodeTest.Foundation.AsyncSteps
import ErodeTest.TiDsp.WorkItem

/-! # The timing of a work-item's copies

The copies of a work-item may run at any moments between their issue and the next wait.
In every order of these steps a line is read only when the copy that filled it was
waited for and no other copy into it is in flight (`ErodeTest.TiDsp.Timed`), and the
guard bytes keep their value, so that all orders lead to the same stores
(`ErodeTest.TiDsp.timing_irrelevant`).
-/

namespace ErodeTest.TiDsp

open AsyncCopy BufferProgram

/-- The events of a work-item, by the way it takes through the kernel. -/
def workItemEvents (evIN : Bool) (source : ℤ → UInt8) (cols rows id chunks : ℤ) :
    List EdmaEvent :=
  if !evIN then [.emit (.alloc false), .emit (.printf "Failed to alloc edmaIN handle.\n")]
  else if Surplus rows chunks id then [.emit (.alloc true)]
  else .emit (.alloc true) ::
    computeEvents source cols rows (offset rows chunks id) (mLocal rows chunks id).toNat

theorem wp_workItemEvents (evIN : Bool) (source : ℤ → UInt8) {cols : ℤ} (rows id chunks : ℤ)
    (aligned : cols % 8 = 0) (nonneg : 0 ≤ cols) (lines : LineAddress → UInt8) :
    wp source (tidsp_morph_erode evIN cols rows id chunks)
      (fun _ after => after.log = workItemEvents evIN source cols rows id chunks)
      ⟨lines, [], []⟩ := by
  unfold workItemEvents
  cases evIN with
  | false => exact wp_denied source lines
  | true =>
      by_cases surplus : Surplus rows chunks id
      · simp only [Bool.not_true, Bool.false_eq_true, if_false, if_pos surplus]
        exact wp_surplus source lines surplus
      · simp only [Bool.not_true, Bool.false_eq_true, if_false, if_neg surplus]
        exact wp_mono (wp_active source lines surplus aligned nonneg) fun _ _ done => done.2

theorem workItem_eq_workItemEvents (source : ℤ → UInt8) {cols : ℤ} (rows id chunks : ℤ)
    (aligned : cols % 8 = 0) (nonneg : 0 ≤ cols) (lines : LineAddress → UInt8)
    (schedule : Schedule) :
    workItem source cols rows chunks lines schedule id =
      workItemEvents true source cols rows id chunks := by
  obtain ⟨final, same, done⟩ :=
    wp_sound (wp_workItemEvents true source rows id chunks aligned nonneg lines) schedule
  exact same.trans done

/-! ## What a work-item may do -/

/-- A work-item copies rows into its lines, writes guard bytes, reads, waits and reports. -/
inductive Admitted (cols : ℤ) : EdmaEvent → Prop
  | copy (srcPtr : ℤ) {line : ℕ} (below : line < 4) :
      Admitted cols (.copy (transfer srcPtr (line, 1) cols))
  | write {line : ℕ} {p : ℤ} (guard : p = 0 ∨ p = cols + 1) : Admitted cols (.write (line, p) 255)
  | read (address : LineAddress) (value : UInt8) : Admitted cols (.read address value)
  | wait : Admitted cols .wait
  | emit (output : Output) : Admitted cols (.emit output)

section Admitted

variable {source : ℤ → UInt8} {cols rows : ℤ}

theorem admitted_rowEvents {offset : ℤ} {n : ℕ} {event : EdmaEvent}
    (listed : event ∈ rowEvents source cols rows offset n) : Admitted cols event := by
  rcases List.mem_cons.mp listed with rfl | listed
  · exact .wait
  rcases List.mem_cons.mp listed with rfl | listed
  · exact .copy _ (Nat.mod_lt _ (by decide))
  rcases mem_columnEvents listed with ⟨line, p, _, _, rfl⟩ | ⟨k, v, rfl⟩
  · exact .read _ _
  · exact .emit _

theorem admitted_computeEvents {offset : ℤ} {n : ℕ} {event : EdmaEvent}
    (listed : event ∈ computeEvents source cols rows offset n) : Admitted cols event := by
  simp only [computeEvents, List.mem_append, List.mem_flatMap] at listed
  rcases listed with ((start | ⟨line, _, guard⟩) | ⟨y, _, row⟩) | last
  · simp only [startEvents, List.mem_cons, List.not_mem_nil, or_false] at start
    rcases start with rfl | rfl | rfl
    · exact .copy _ (by decide)
    · exact .copy _ (by decide)
    · exact .copy _ (by decide)
  · simp only [guardEvents, List.mem_cons, List.not_mem_nil, or_false] at guard
    rcases guard with rfl | rfl
    · exact .write (Or.inl rfl)
    · exact .write (Or.inr rfl)
  · exact admitted_rowEvents row
  · simp only [List.mem_cons, List.not_mem_nil, or_false] at last
    rcases last with rfl | rfl
    · exact .wait
    · exact .emit _

theorem admitted_workItemEvents {evIN : Bool} {id chunks : ℤ} {event : EdmaEvent}
    (listed : event ∈ workItemEvents evIN source cols rows id chunks) : Admitted cols event := by
  unfold workItemEvents at listed
  split at listed
  · simp only [List.mem_cons, List.not_mem_nil, or_false] at listed
    rcases listed with rfl | rfl
    · exact .emit _
    · exact .emit _
  split at listed
  · rw [List.mem_singleton.mp listed]
    exact .emit _
  · rcases List.mem_cons.mp listed with rfl | listed
    · exact .emit _
    · exact admitted_computeEvents listed

variable {log : List EdmaEvent} (admitted : ∀ event ∈ log, Admitted cols event)

include admitted

/-- Nothing but 255 is stored in a guard byte. -/
theorem eq_of_written_guard {line : ℕ} {p : ℤ} {value : UInt8} (guard : p = 0 ∨ p = cols + 1)
    (stored : ((line, p), value) ∈ written source log) : value = 255 := by
  obtain ⟨event, listed, stored⟩ := List.mem_flatMap.mp stored
  cases admitted event listed with
  | copy srcPtr below =>
      obtain ⟨entry, copied, same⟩ := List.mem_map.mp stored
      have filled := List.mem_map_of_mem (f := Prod.fst) copied
      rw [(Prod.mk.inj same).1] at filled
      have bounds := mem_transfer_fst.mp filled
      omega
  | write _ => exact (Prod.mk.inj (List.mem_singleton.mp stored)).2
  | read => exact absurd stored List.not_mem_nil
  | wait => exact absurd stored List.not_mem_nil
  | emit => exact absurd stored List.not_mem_nil

/-- A guard byte is never in flight. -/
theorem guard_not_inFlight {line : ℕ} {p : ℤ} (guard : p = 0 ∨ p = cols + 1) :
    (line, p) ∉ inFlight log := by
  intro waiting
  obtain ⟨copied, issued, filled⟩ := exists_copy_of_mem_inFlight waiting
  cases admitted _ issued with
  | copy srcPtr below =>
      have bounds := mem_transfer_fst.mp filled
      omega

end Admitted

/-! ## Lines are read in time -/

/-- The last copy into the line is a row. -/
def LastCopy (cols : ℤ) (line : ℕ) (log : List EdmaEvent) : Prop :=
  ∃ earlier srcPtr later, log = earlier ++ .copy (transfer srcPtr (line, 1) cols) :: later ∧
    ∀ copied, .copy copied ∈ later → ∀ entry ∈ copied, entry.1.1 ≠ line

/-- The last copy into the line is a row and was waited for. -/
def Filled (cols : ℤ) (line : ℕ) (log : List EdmaEvent) : Prop :=
  ∃ earlier srcPtr later, log = earlier ++ .copy (transfer srcPtr (line, 1) cols) :: later ∧
    .wait ∈ later ∧ ∀ copied, .copy copied ∈ later → ∀ entry ∈ copied, entry.1.1 ≠ line

/-- The guard bytes of all lines are written. -/
def Guarded (cols : ℤ) (log : List EdmaEvent) : Prop :=
  ∀ line < 4, .write (line, 0) 255 ∈ log ∧ .write (line, cols + 1) 255 ∈ log

/-- A line is read when it is filled and guarded and no copy into it is in flight. -/
def Timed (cols : ℤ) (before : List EdmaEvent) : EdmaEvent → Prop
  | .read (line, _) _ => (∀ q, (line, q) ∉ inFlight before) ∧ Filled cols line before ∧
      Guarded cols before
  | _ => True

section Timed

variable {source : ℤ → UInt8} {cols rows offset : ℤ} {line : ℕ} {log later : List EdmaEvent}

theorem LastCopy.append (last : LastCopy cols line log)
    (apart : ∀ copied, .copy copied ∈ later → ∀ entry ∈ copied, entry.1.1 ≠ line) :
    LastCopy cols line (log ++ later) := by
  obtain ⟨earlier, srcPtr, between, rfl, alone⟩ := last
  refine ⟨earlier, srcPtr, between ++ later, by simp, ?_⟩
  intro copied issued
  rcases List.mem_append.mp issued with before | after
  · exact alone copied before
  · exact apart copied after

theorem LastCopy.append_quiet (last : LastCopy cols line log)
    (uncopied : ∀ copied, .copy copied ∉ later) : LastCopy cols line (log ++ later) :=
  last.append fun copied issued => absurd issued (uncopied copied)

theorem LastCopy.append_copy {srcPtr : ℤ} {other : ℕ} (last : LastCopy cols line log)
    (different : line ≠ other) :
    LastCopy cols line (log ++ [.copy (transfer srcPtr (other, 1) cols)]) := by
  apply last.append
  intro copied issued entry filled
  rw [Event.copy.inj (List.mem_singleton.mp issued)] at filled
  rw [(mem_transfer.mp filled).1]
  exact different.symm

theorem lastCopy_copy {srcPtr : ℤ} :
    LastCopy cols line (log ++ [.copy (transfer srcPtr (line, 1) cols)]) :=
  ⟨log, srcPtr, [], rfl, fun _ issued => absurd issued List.not_mem_nil⟩

theorem LastCopy.filled (last : LastCopy cols line log) (waited : .wait ∈ later)
    (apart : ∀ copied, .copy copied ∈ later → ∀ entry ∈ copied, entry.1.1 ≠ line) :
    Filled cols line (log ++ later) := by
  obtain ⟨earlier, srcPtr, between, rfl, alone⟩ := last
  refine ⟨earlier, srcPtr, between ++ later, by simp, List.mem_append_right _ waited, ?_⟩
  intro copied issued
  rcases List.mem_append.mp issued with before | after
  · exact alone copied before
  · exact apart copied after

theorem Guarded.append (guarded : Guarded cols log) : Guarded cols (log ++ later) :=
  fun line below => ⟨List.mem_append_left _ (guarded line below).1,
    List.mem_append_left _ (guarded line below).2⟩

/-- Events among which no line is read. -/
theorem throughout_timed_of_no_read {events : List EdmaEvent}
    (unread : ∀ address value, .read address value ∉ events) :
    Throughout (Timed cols) log events := by
  apply throughout_of_forall
  intro earlier event begins
  have listed : event ∈ events := begins.subset (by simp)
  cases event with
  | read address value => exact absurd listed (unread address value)
  | write => trivial
  | copy => trivial
  | wait => trivial
  | emit => trivial

variable {n : ℕ}

theorem copy_notMem_columnEvents {memory : LineAddress → UInt8} {yprev_ptr y_ptr ynext_ptr : ℕ}
    {dest_ptr : ℤ} (copied : List (LineAddress × ℤ)) :
    .copy copied ∉ columnEvents memory yprev_ptr y_ptr ynext_ptr dest_ptr n := by
  intro listed
  rcases mem_columnEvents listed with ⟨line, p, _, _, same⟩ | ⟨k, v, same⟩
  · cases same
  · cases same

/-- A round copies into one line only. -/
theorem copies_apart {srcPtr : ℤ} {into : ℕ} {memory : LineAddress → UInt8}
    {yprev_ptr y_ptr ynext_ptr : ℕ} {dest_ptr : ℤ} {some : List EdmaEvent}
    (among : some ⊆ columnEvents memory yprev_ptr y_ptr ynext_ptr dest_ptr n)
    (different : line ≠ into) (copied : List (LineAddress × ℤ))
    (issued : .copy copied ∈ [.wait, .copy (transfer srcPtr (into, 1) cols)] ++ some) :
    ∀ entry ∈ copied, entry.1.1 ≠ line := by
  intro entry filled
  rcases List.mem_append.mp issued with opening | listed
  · have same : copied = transfer srcPtr (into, 1) cols := by simpa using opening
    rw [same] at filled
    rw [(mem_transfer.mp filled).1]
    exact different.symm
  · exact absurd (among listed) (copy_notMem_columnEvents copied)

/-- While a round computes, its copy is the only one in flight. -/
theorem line_of_inFlight {srcPtr : ℤ} {into : ℕ} {memory : LineAddress → UInt8}
    {yprev_ptr y_ptr ynext_ptr : ℕ} {dest_ptr q : ℤ} {some : List EdmaEvent}
    (among : some ⊆ columnEvents memory yprev_ptr y_ptr ynext_ptr dest_ptr n)
    (waiting : (line, q) ∈
      inFlight (log ++ [.wait, .copy (transfer srcPtr (into, 1) cols)] ++ some)) :
    line = into := by
  have quiet : ∀ event ∈ some, ∀ before : List LineAddress, event.inFlight before = before := by
    intro event listed
    rcases mem_columnEvents (among listed) with ⟨line, p, _, _, rfl⟩ | ⟨k, v, rfl⟩
    · exact fun _ => rfl
    · exact fun _ => rfl
  rw [inFlight_append_quiet quiet, List.append_cons, inFlight_concat, inFlight_concat] at waiting
  exact (mem_transfer_fst.mp waiting).1

/-- In a round of the row loop lines are read in time. -/
theorem throughout_rowEvents (guarded : Guarded cols log)
    (last : ∀ j < 3, LastCopy cols ((n + j) % 4) log) :
    Throughout (Timed cols) log (rowEvents source cols rows offset n) := by
  have opening : rowEvents source cols rows offset n =
      [.wait, .copy (transfer (fetched rows offset (n + 3) * cols) ((n + 3) % 4, 1) cols)] ++
        columnEvents (ringLines source cols rows offset n) (n % 4) ((n + 1) % 4) ((n + 2) % 4)
          ((offset + n) * cols) (cols / 8).toNat := rfl
  rw [opening, throughout_append]
  refine ⟨throughout_timed_of_no_read (by simp), ?_⟩
  apply throughout_of_forall
  intro earlier event begins
  have among : earlier ⊆ _ := fun event listed => begins.subset (List.mem_append_left _ listed)
  have listed : event ∈ _ := begins.subset (List.mem_append_right _ (List.mem_singleton_self event))
  rcases mem_columnEvents listed with ⟨line, p, which, _, rfl⟩ | ⟨k, v, rfl⟩
  · obtain ⟨j, below, slot⟩ := exists_slot which
    have different : line ≠ (n + 3) % 4 := by omega
    refine ⟨fun q waiting => different (line_of_inFlight among waiting), ?_,
      guarded.append.append⟩
    rw [slot, List.append_assoc]
    exact (last j below).filled (by simp) (slot ▸ copies_apart among different)
  · trivial

/-- The copies of a round leave the next round's lines as they have to be. -/
theorem lastCopy_rowEvents (last : ∀ j < 3, LastCopy cols ((n + j) % 4) log) (j : ℕ)
    (below : j < 3) :
    LastCopy cols ((n + 1 + j) % 4) (log ++ rowEvents source cols rows offset n) := by
  have copies : log ++ rowEvents source cols rows offset n = log ++ [.wait] ++
      [.copy (transfer (fetched rows offset (n + 3) * cols) ((n + 3) % 4, 1) cols)] ++
        columnEvents (ringLines source cols rows offset n) (n % 4) ((n + 1) % 4) ((n + 2) % 4)
          ((offset + n) * cols) (cols / 8).toNat := by
    simp [rowEvents]
  rw [copies]
  apply LastCopy.append_quiet _ copy_notMem_columnEvents
  by_cases newest : j = 2
  · rw [newest]
    exact lastCopy_copy
  · have same : (n + 1 + j) % 4 = (n + (j + 1)) % 4 := by omega
    rw [same]
    exact ((last (j + 1) (by omega)).append_quiet (by simp)).append_copy (by omega)

/-- **In the row loop lines are read in time.** -/
theorem throughout_rows (guarded : Guarded cols log)
    (last : ∀ j < 3, LastCopy cols (j % 4) log) (n : ℕ) :
    Throughout (Timed cols) log ((List.range n).flatMap (rowEvents source cols rows offset)) ∧
      ∀ j < 3, LastCopy cols ((n + j) % 4)
        (log ++ (List.range n).flatMap (rowEvents source cols rows offset)) := by
  induction n with
  | zero => exact ⟨trivial, by simpa using last⟩
  | succ n ih =>
      obtain ⟨timed, ready⟩ := ih
      simp only [List.range_succ, List.flatMap_append, List.flatMap_singleton]
      refine ⟨(throughout_append _ _).mpr ⟨timed, throughout_rowEvents guarded.append ready⟩, ?_⟩
      intro j below
      rw [← List.append_assoc]
      exact lastCopy_rowEvents ready j below

/-- The start-up copies fill the first three lines. -/
theorem lastCopy_startEvents (j : ℕ) (below : j < 3) :
    LastCopy cols j (log ++ startEvents cols rows offset) := by
  have copies : log ++ startEvents cols rows offset =
      log ++ [.copy (transfer (fetched rows offset 0 * cols) (0, 1) cols)] ++
        [.copy (transfer (fetched rows offset 1 * cols) (1, 1) cols)] ++
          [.copy (transfer (fetched rows offset 2 * cols) (2, 1) cols)] := by
    simp [startEvents]
  rw [copies]
  obtain rfl | rfl | rfl : j = 0 ∨ j = 1 ∨ j = 2 := by omega
  · exact (lastCopy_copy.append_copy (by decide)).append_copy (by decide)
  · exact lastCopy_copy.append_copy (by decide)
  · exact lastCopy_copy

/-- From the start on lines are read in time. -/
theorem throughout_computeEvents (n : ℕ) :
    Throughout (Timed cols) log (computeEvents source cols rows offset n) := by
  have guards : [0, 1, 2, 3].flatMap (guardEvents cols) =
      [.write (0, 0) 255, .write (0, cols + 1) 255, .write (1, 0) 255, .write (1, cols + 1) 255,
        .write (2, 0) 255, .write (2, cols + 1) 255, .write (3, 0) 255, .write (3, cols + 1) 255] :=
    rfl
  rw [computeEvents, throughout_append, throughout_append]
  refine ⟨⟨throughout_timed_of_no_read ?_, ?_⟩, throughout_timed_of_no_read (by simp)⟩
  · rw [guards]
    simp [startEvents]
  · refine (throughout_rows ?_ ?_ n).1
    · intro line below
      obtain rfl | rfl | rfl | rfl : line = 0 ∨ line = 1 ∨ line = 2 ∨ line = 3 := by omega
      all_goals simp [guards]
    · intro j below
      rw [Nat.mod_eq_of_lt (by omega)]
      rw [← List.append_assoc]
      apply (lastCopy_startEvents j below).append_quiet
      rw [guards]
      simp

end Timed

/-- The lines of a work-item are read in time. -/
theorem throughout_workItemEvents (evIN : Bool) (source : ℤ → UInt8) (cols rows id chunks : ℤ) :
    Throughout (Timed cols) [] (workItemEvents evIN source cols rows id chunks) := by
  unfold workItemEvents
  split
  · exact throughout_timed_of_no_read (by simp)
  split
  · exact throughout_timed_of_no_read (by simp)
  · exact ⟨trivial, throughout_computeEvents _⟩

/-! ## All timings -/

section Timings

variable {evIN : Bool} {source : ℤ → UInt8} {cols rows id chunks : ℤ} {lines : LineAddress → UInt8}
  {config : Configuration LineAddress ℤ UInt8 Output Unit} (aligned : cols % 8 = 0)
  (nonneg : 0 ≤ cols)
  (steps : Steps source (.initial (tidsp_morph_erode evIN cols rows id chunks) lines) config)

include aligned nonneg steps

/-- What a work-item has done is the beginning of its events. -/
theorem log_begins :
    config.machine.log <+: workItemEvents evIN source cols rows id chunks := by
  have holds := wp_workItemEvents evIN source rows id chunks aligned nonneg lines
  obtain ⟨state, reached⟩ := steps.reached holds.1
  exact holds.2 ▸ reached.begins

/-- At its end a work-item has done all of its events. -/
theorem log_finished {value : Unit} (done : config.program = .done value) :
    config.machine.log = workItemEvents evIN source cols rows id chunks := by
  have holds := wp_workItemEvents evIN source rows id chunks aligned nonneg lines
  obtain ⟨state, reached⟩ := steps.reached holds.1
  exact (reached.finished done).trans holds.2

/-- A line about to be read is filled and guarded, and no copy into it is in flight. -/
theorem timed_read {line : ℕ} {p : ℤ} {next : UInt8 → Edma Unit}
    (reads : config.program = .read (line, p) next) :
    (∀ q, (line, q) ∉ inFlight config.machine.log) ∧ Filled cols line config.machine.log ∧
      Guarded cols config.machine.log := by
  obtain ⟨program, machine⟩ := config
  obtain rfl : program = .read (line, p) next := reads
  have begins := log_begins aligned nonneg (steps.tail (.read (line, p) next machine))
  exact (throughout_workItemEvents evIN source cols rows id chunks).of_begins begins

/-- Once written a guard byte keeps its value. -/
theorem guard_kept {line : ℕ} {p : ℤ} (guard : p = 0 ∨ p = cols + 1)
    (wrote : .write (line, p) 255 ∈ config.machine.log) :
    config.machine.memory (line, p) = 255 := by
  have holds := wp_workItemEvents evIN source rows id chunks aligned nonneg lines
  obtain ⟨state, reached⟩ := steps.reached holds.1
  have admitted : ∀ event ∈ config.machine.log, Admitted cols event := fun event listed =>
    admitted_workItemEvents ((log_begins aligned nonneg steps).subset listed)
  apply reached.memory_eq (guard_not_inFlight admitted guard)
  · exact List.mem_flatMap.mpr ⟨_, wrote, List.mem_singleton_self _⟩
  · exact fun value stored => eq_of_written_guard admitted guard stored

/-- **The timing of the copies does not matter.** Wherever a work-item is after any sequence
of steps, it has done a beginning of the same events, and at its end all of them; no two
copies in flight share a destination; a line about to be read was filled by a copy that was
waited for, and none into it is in flight; and the guard bytes keep their value. -/
theorem timing_irrelevant :
    config.machine.log <+: workItemEvents evIN source cols rows id chunks ∧
    (∀ value, config.program = .done value →
      config.machine.log = workItemEvents evIN source cols rows id chunks ∧
        stores config.machine.log = stores (workItemEvents evIN source cols rows id chunks)) ∧
    (∃ value machine, Steps source config ⟨.done value, machine⟩) ∧
    (∀ entry ∈ config.machine.pending, entry.1 ∈ inFlight config.machine.log) ∧
    (inFlight config.machine.log).Nodup ∧
    (∀ line p next, config.program = .read (line, p) next →
      (∀ q, (line, q) ∉ inFlight config.machine.log) ∧ Filled cols line config.machine.log ∧
        Guarded cols config.machine.log) ∧
    ∀ line p, (p = 0 ∨ p = cols + 1) → .write (line, p) 255 ∈ config.machine.log →
      config.machine.memory (line, p) = 255 := by
  have holds := wp_workItemEvents evIN source rows id chunks aligned nonneg lines
  obtain ⟨state, reached⟩ := steps.reached holds.1
  refine ⟨log_begins aligned nonneg steps, ?_, exists_finished source config,
    fun entry => reached.pending, reached.nodup, fun line p next => timed_read aligned nonneg steps,
    fun line p => guard_kept aligned nonneg steps⟩
  intro value done
  have finished := log_finished aligned nonneg steps done
  exact ⟨finished, congrArg stores finished⟩

end Timings

/-- Under the schedule that lets every copy wait, the only work-item of a small image does
what it does under any other. -/
theorem timing_irrelevant_three_rows :
    ((tidsp_morph_erode true 8 3 0 1).run (fun _ => 7) (fun _ => []) ⟨fun _ => 0, [], []⟩).2.log =
      workItemEvents true (fun _ => 7) 8 3 0 1 := by
  have steps := steps_run (fun _ => 7) (tidsp_morph_erode true 8 3 0 1) (fun _ => [])
    ⟨fun _ => 0, [], []⟩
  exact ((timing_irrelevant (by decide) (by decide) steps).2.1 _ rfl).1

end ErodeTest.TiDsp
