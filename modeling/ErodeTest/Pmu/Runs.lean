import ErodeTest.Pmu.Calls

/-! # Runs of measurements

Whatever the order of the calls and whatever the system answers, no descriptor is used that
is not open, none stays open after `close_pmu_counters` and no assertion fails
(`Reached.sound`).

The reports of a run give for each section what it spent in user mode between two moments
that are the same for both counters, and the time between the two readings of the clock
(`wp_measured`).
-/

namespace ErodeTest.Pmu

open Fallible

/-! ## The state machine -/

/-- The states a program reaches that sets the counters up only when they are not. -/
inductive Reached : World → Prop where
  | boot {world : World} : Closed world → Reached world
  | work {world : World} (progress : Progress) : Reached world → Reached (world.pass progress)
  | setup {world : World} (answers : Config → ℤ) (passing : ℕ → Progress) :
      Reached world → world.pmu_ready = false →
      Reached (setup_pmu_counters answers passing world).2
  | start {world : World} (passing : ℕ → Progress) :
      Reached world → Reached (start_pmu_counters passing world).2
  | stop {world : World} (passing : ℕ → Progress) :
      Reached world → Reached (stop_pmu_counters passing world).2
  | print {world : World} (passing : ℕ → Progress) :
      Reached world → Reached (print_pmu_counters passing world).2
  | close {world : World} (passing : ℕ → Progress) :
      Reached world → Reached (close_pmu_counters passing world).2

/-- The counters are closed or set up. -/
def Sound (world : World) : Prop :=
  Closed world ∨ ∃ running cycles instructions, Counting world running cycles instructions

section Steps

variable {world : World} (sound : Sound world) (passing : ℕ → Progress)

include sound

theorem Sound.pass (progress : Progress) : Sound (world.pass progress) := by
  rcases sound with closed | ⟨running, cycles, instructions, counting⟩
  · exact Or.inl (closed.pass progress)
  · exact Or.inr ⟨running, _, _, counting.pass progress⟩

theorem Sound.start :
    wp (start_pmu_counters passing) (fun _ => Sound) (fun _ _ => False) world := by
  rcases sound with closed | ⟨running, cycles, instructions, counting⟩
  · exact wp_mono (wp_start_closed closed passing) (fun _ _ after => Or.inl after.1)
      fun _ _ => id
  · exact wp_mono (wp_start_counting counting passing)
      (fun _ _ after => Or.inr ⟨_, _, _, after.1⟩) fun _ _ => id

theorem Sound.stop :
    wp (stop_pmu_counters passing) (fun _ => Sound) (fun _ _ => False) world := by
  rcases sound with closed | ⟨running, cycles, instructions, counting⟩
  · exact wp_mono (wp_stop_closed closed passing) (fun _ _ after => Or.inl after.1)
      fun _ _ => id
  · exact wp_mono (wp_stop_counting counting passing)
      (fun _ _ after => Or.inr ⟨_, _, _, after.1⟩) fun _ _ => id

theorem Sound.print :
    wp (print_pmu_counters passing) (fun _ => Sound) (fun _ _ => False) world := by
  rcases sound with closed | ⟨running, cycles, instructions, counting⟩
  · exact wp_mono (wp_print_closed closed passing) (fun _ _ after => Or.inl after.2)
      fun _ _ => id
  · exact wp_mono (wp_print_counting counting passing)
      (fun _ _ after => Or.inr ⟨_, _, _, after.2⟩) fun _ _ => id

theorem Sound.close :
    wp (close_pmu_counters passing) (fun _ => Sound) (fun _ _ => False) world := by
  rcases sound with closed | ⟨running, cycles, instructions, counting⟩
  · exact wp_mono (wp_close_closed closed passing) (fun _ _ => Or.inl) fun _ _ => id
  · exact wp_mono (wp_close_counting counting passing) (fun _ _ => Or.inl) fun _ _ => id

theorem Sound.setup (unready : world.pmu_ready = false) (answers : Config → ℤ) :
    wp (setup_pmu_counters answers passing) (fun _ => Sound) (fun _ _ => False) world := by
  rcases sound with closed | ⟨running, cycles, instructions, counting⟩
  · apply wp_mono (wp_setup closed answers passing)
    · rintro status after (⟨_, _, counting⟩ | ⟨_, _, closed⟩)
      · exact Or.inr ⟨_, _, _, counting⟩
      · exact Or.inl closed
    · exact fun _ _ => id
  · rw [counting.ready] at unready
    cases unready

end Steps

theorem Reached.invariant {world : World} (reached : Reached world) : Sound world := by
  induction reached with
  | boot closed => exact Or.inl closed
  | work progress _ sound => exact sound.pass progress
  | setup answers passing _ unready sound =>
      exact (wp_total (sound.setup passing unready answers)).choose_spec.2
  | start passing _ sound => exact (wp_total (sound.start passing)).choose_spec.2
  | stop passing _ sound => exact (wp_total (sound.stop passing)).choose_spec.2
  | print passing _ sound => exact (wp_total (sound.print passing)).choose_spec.2
  | close passing _ sound => exact (wp_total (sound.close passing)).choose_spec.2

/-- **No call goes wrong**, whatever the order of the calls and whatever the system answers:
none is made on a descriptor that is not open, the open descriptors are those of the pair
while it is set up and none when it is not, and no assertion fails. -/
theorem Reached.sound {world : World} (reached : Reached world) :
    world.refused = [] ∧
      (∀ fd, (world.events fd).isSome ↔
        world.pmu_ready = true ∧ (fd = world.cycles_fd ∨ fd = world.instructions_fd)) ∧
      ∀ passing, ∃ report, (print_pmu_counters passing world).1 = .ok report := by
  refine ⟨?_, fun fd => ?_, fun passing => ?_⟩
  · rcases reached.invariant with closed | ⟨_, _, _, counting⟩
    · exact closed.refused
    · exact counting.refused
  · rcases reached.invariant with closed | ⟨_, _, _, counting⟩
    · rw [closed.closed, closed.unready]
      exact ⟨nofun, nofun⟩
    · rw [counting.pair.isSome_iff, counting.ready]
      exact ⟨fun either => ⟨rfl, either⟩, fun both => both.2⟩
  · obtain ⟨report, printed, _⟩ := wp_total (reached.invariant.print passing)
    exact ⟨report, printed⟩

/-- The state when the process begins. -/
def booted (nanoseconds : ℕ) : World where
  startTime := ⟨0, 0⟩
  endTime := ⟨0, 0⟩
  cycles_fd := 0
  instructions_fd := 0
  pmu_ready := false
  events _ := none
  nanoseconds := nanoseconds
  refused := []

theorem closed_booted (nanoseconds : ℕ) : Closed (booted nanoseconds) := ⟨rfl, rfl, fun _ => rfl⟩

/-- Between start and stop, after a set-up under the descriptors 3 and 4. -/
theorem Reached.sound_started :
    (start_pmu_counters (fun _ => ⟨5, fun _ _ => 7⟩)
      (setup_pmu_counters (fun | .cpu_cycles => 3 | .instructions => 4)
        (fun _ => ⟨5, fun _ _ => 7⟩) (booted 0)).2).2.refused = [] :=
  (Reached.sound (.start _ (.setup _ _ (.boot (closed_booted 0)) rfl))).1

/-! ## Reports -/

/-- What `main` measures: the process is idle, then works between start and stop, and prints. -/
structure Section where
  idle : Progress
  start : ℕ → Progress
  work : Progress
  stop : ℕ → Progress
  print : ℕ → Progress

namespace Section

def measure (part : Section) : Call Report := do
  modify (World.pass part.idle)
  start_pmu_counters part.start
  modify (World.pass part.work)
  stop_pmu_counters part.stop
  print_pmu_counters part.print

/-- The stretch in which both counters count: from the last request of `start_pmu_counters`
to the request of `stop_pmu_counters`. -/
def counted (part : Section) : Progress := part.work + part.stop 0

/-- The stretch between the two readings of the clock. -/
def clocked (ready : Bool) (part : Section) : Progress :=
  if ready then
    part.start 1 + part.start 2 + part.start 3 + part.start 4 + part.work +
      (part.stop 0 + part.stop 1)
  else part.work + part.stop 1

def report (ready : Bool) (part : Section) : Report where
  counts := if ready then
      some (printed (part.counted.spent .cpu_cycles .user) (part.counted.spent .instructions .user))
    else none
  delta := timespec (part.clocked ready).nanoseconds

end Section

/-- Between two sections. -/
def Stopped (ready : Bool) (world : World) : Prop :=
  if ready then ∃ cycles instructions, Counting world false cycles instructions else Closed world

theorem wp_measure_closed {world : World} (closed : Closed world) (part : Section) :
    wp part.measure (fun report after => report = part.report false ∧ Closed after)
      (fun _ _ => False) world := by
  rw [Section.measure, wp_bind, wp_modify, wp_bind]
  apply wp_mono (wp_start_closed (closed.pass part.idle) part.start)
  · rintro _ started ⟨closed, startTime, total⟩
    rw [wp_bind, wp_modify, wp_bind]
    apply wp_mono (wp_stop_closed (closed.pass part.work) part.stop)
    · rintro _ ended ⟨closed, kept, endTime⟩
      apply wp_mono (wp_print_closed closed part.print)
      · rintro report after ⟨rfl, closed⟩
        have later : (started.pass part.work).nanoseconds + (part.stop 1).nanoseconds =
            started.nanoseconds + (part.work + part.stop 1).nanoseconds := Nat.add_assoc _ _ _
        have before : (started.pass part.work).startTime = timespec started.nanoseconds := by
          rw [total, ← startTime]
          rfl
        rw [kept, endTime, before, later, delta_timespec]
        exact ⟨rfl, closed⟩
      · exact fun _ _ => id
    · exact fun _ _ => id
  · exact fun _ _ => id

theorem wp_measure_counting {world : World} {cycles instructions : ℕ}
    (counting : Counting world false cycles instructions) (part : Section) :
    wp part.measure
      (fun report after => report = part.report true ∧
        Counting after false (part.counted.spent .cpu_cycles .user)
          (part.counted.spent .instructions .user))
      (fun _ _ => False) world := by
  rw [Section.measure, wp_bind, wp_modify, wp_bind]
  apply wp_mono (wp_start_counting (counting.pass part.idle) part.start)
  · rintro _ started ⟨counting, startTime, total⟩
    rw [wp_bind, wp_modify, wp_bind]
    apply wp_mono (wp_stop_counting (counting.pass part.work) part.stop)
    · rintro _ ended ⟨counting, kept, endTime, later⟩
      apply wp_mono (wp_print_counting counting part.print)
      · rintro report after ⟨rfl, counting⟩
        simp only [added, Bool.false_eq_true, if_false, if_true, Nat.add_zero, Nat.zero_add]
          at counting ⊢
        have before : (started.pass part.work).startTime =
            timespec ((world.pass part.idle).nanoseconds + (part.start 0).nanoseconds) := startTime
        have elapsed : ended.nanoseconds =
            (world.pass part.idle).nanoseconds + (part.start 0).nanoseconds +
              (part.clocked true).nanoseconds := by
          rw [later, World.pass, total, Section.clocked, if_pos rfl]
          simp only [Progress.nanoseconds_add]
          omega
        rw [kept, endTime, before, elapsed, delta_timespec]
        exact ⟨rfl, counting⟩
      · exact fun _ _ => id
    · exact fun _ _ => id
  · exact fun _ _ => id

theorem wp_measure {ready : Bool} {world : World} (stopped : Stopped ready world)
    (part : Section) :
    wp part.measure (fun report after => report = part.report ready ∧ Stopped ready after)
      (fun _ _ => False) world := by
  cases ready with
  | false => exact wp_measure_closed stopped part
  | true =>
      obtain ⟨cycles, instructions, counting⟩ := stopped
      exact wp_mono (wp_measure_counting counting part)
        (fun _ _ after => ⟨after.1, _, _, after.2⟩) fun _ _ => id

def measureAll : List Section → Call (List Report)
  | [] => return []
  | part :: parts => do
    let report ← part.measure
    let reports ← measureAll parts
    return report :: reports

theorem wp_measureAll {ready : Bool} {world : World} (stopped : Stopped ready world)
    (parts : List Section) :
    wp (measureAll parts)
      (fun reports after => reports = parts.map (Section.report ready) ∧ Stopped ready after)
      (fun _ _ => False) world := by
  induction parts generalizing world with
  | nil => exact ⟨rfl, stopped⟩
  | cons part parts ih =>
      rw [measureAll, wp_bind]
      apply wp_mono (wp_measure stopped part)
      · rintro report middle ⟨rfl, stopped⟩
        rw [wp_bind]
        apply wp_mono (ih stopped)
        · rintro reports after ⟨rfl, stopped⟩
          exact ⟨rfl, stopped⟩
        · exact fun _ _ => id
      · exact fun _ _ => id

theorem wp_close {ready : Bool} {world : World} (stopped : Stopped ready world)
    (passing : ℕ → Progress) :
    wp (close_pmu_counters passing) (fun _ => Closed) (fun _ _ => False) world := by
  cases ready with
  | false => exact wp_close_closed stopped passing
  | true =>
      obtain ⟨_, _, counting⟩ := stopped
      exact wp_close_counting counting passing

/-- What `main` does with the counters. -/
def measured (answers : Config → ℤ) (setup close : ℕ → Progress) (parts : List Section) :
    Call (List Report) := do
  let _ ← setup_pmu_counters answers setup
  let reports ← measureAll parts
  close_pmu_counters close
  return reports

/-- **Both counters run at the same time.** In a whole run every report gives the cycles and
the instructions the process spent in user mode in one stretch, that of the work and what
passes until the counters stop; if a counter could not be opened it gives neither. The wall
time is that between the two readings of the clock. No assertion fails, and nothing is open at
the end. -/
theorem wp_measured {world : World} (closed : Closed world) (answers : Config → ℤ)
    (setup close : ℕ → Progress) (parts : List Section) :
    wp (measured answers setup close parts)
      (fun reports after =>
        reports = parts.map (Section.report (decide (Granted answers))) ∧ Closed after)
      (fun _ _ => False) world := by
  rw [measured, wp_bind]
  apply wp_mono (wp_setup closed answers setup)
  · intro status ready state
    have stopped : Stopped (decide (Granted answers)) ready := by
      rcases state with ⟨_, granted, counting⟩ | ⟨_, refused, closed⟩
      · rw [decide_eq_true granted]
        exact ⟨0, 0, counting⟩
      · rw [decide_eq_false refused]
        exact closed
    rw [wp_bind]
    apply wp_mono (wp_measureAll stopped parts)
    · rintro reports ended ⟨rfl, stopped⟩
      rw [wp_bind]
      exact wp_mono (wp_close stopped close) (fun _ _ closed => ⟨rfl, closed⟩) fun _ _ => id
    · exact fun _ _ => id
  · exact fun _ _ => id

/-- A section of a second in which the process runs a hundred cycles and fifty instructions. -/
theorem wp_measured_second :
    wp (measured (fun | .cpu_cycles => 3 | .instructions => 4) (fun _ => ⟨5, fun _ _ => 7⟩)
        (fun _ => ⟨5, fun _ _ => 7⟩)
        [⟨⟨0, fun _ _ => 9⟩, fun _ => ⟨5, fun _ _ => 7⟩,
          ⟨1000000000, fun | .cpu_cycles, _ => 100 | .instructions, _ => 50⟩,
          fun _ => ⟨5, fun _ _ => 0⟩, fun _ => ⟨5, fun _ _ => 7⟩⟩])
      (fun reports _ => reports = [⟨some ⟨100, 50, some 2⟩, ⟨1, 30⟩⟩])
      (fun _ _ => False) (booted 999999999) :=
  wp_mono (wp_measured (closed_booted 999999999) _ _ _ _)
    (fun _ _ after => after.1.trans (by decide +kernel)) fun _ _ => id

end ErodeTest.Pmu
