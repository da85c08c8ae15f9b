import ErodeTest.Pmu.Counters

/-! # What each function does

For each function of `pmu_utils.cc`, what it leaves and returns when the pair of counters is
set up and when no counter is open. None of them throws.
-/

namespace ErodeTest.Pmu

open Fallible

theorem added_add (running : Bool) (first second : Progress) (config : Config) :
    added running (first + second) config =
      added running first config + added running second config := by
  cases running <;> rfl

theorem delta_timespec (before elapsed : ℕ) :
    delta (timespec before) (timespec (before + elapsed)) = timespec elapsed := by
  unfold delta timespec
  split
  · next negative =>
      dsimp only at negative ⊢
      rw [Timespec.mk.injEq]
      omega
  · next positive =>
      dsimp only at positive ⊢
      rw [Timespec.mk.injEq]
      omega

/-- The open counter is read after some time has passed. -/
theorem wp_read {before : Progress} {fd : ℤ} {event : Event} {world : World}
    {post : Option ℕ → World → Prop} {thrown : Unit → World → Prop}
    (opened : (world.pass before).events fd = some event)
    (holds : post (some event.count) (world.pass before)) :
    wp (read before fd) post thrown world := by
  have granted : (world.pass before).require fd = (world.pass before).refused := by
    rw [World.require, opened]
    rfl
  simp only [read, wp_bind, wp_modify, wp_get, wp_pure, granted, opened]
  exact holds

section Counting

variable {world : World} {running : Bool} {cycles instructions : ℕ}
  (counting : Counting world running cycles instructions) (passing : ℕ → Progress)

include counting

theorem wp_start_counting :
    wp (start_pmu_counters passing)
      (fun _ after =>
        Counting after true (added running (passing 3 + passing 4) .cpu_cycles)
            (added running (passing 2 + passing 3 + passing 4) .instructions) ∧
          after.startTime = timespec (world.nanoseconds + (passing 0).nanoseconds) ∧
          after.nanoseconds = world.nanoseconds + (passing 0).nanoseconds +
            (passing 1 + passing 2 + passing 3 + passing 4).nanoseconds)
      (fun _ _ => False) world := by
  simp only [start_pmu_counters, clock_gettime, ioctl, wp_bind, wp_modify, wp_get, wp_pure]
  split
  · have set := (counting.pass (passing 0)).of_clock (world.pass (passing 0)).now world.endTime
    have reset : Counting _ running _ 0 := (set.pass (passing 1)).ioctl_member .reset rfl
    have both : Counting _ running 0 _ := (reset.pass (passing 2)).ioctl_leader .reset rfl
    have enabled : Counting _ running _ _ := (both.pass (passing 3)).ioctl_member .enable rfl
    have started : Counting _ true _ _ := (enabled.pass (passing 4)).ioctl_leader .enable rfl
    refine ⟨?_, rfl, ?_⟩
    · simp only [Nat.zero_add] at started
      rw [added_add, added_add, added_add]
      exact started
    · simp only [World.ioctl, World.pass, Progress.nanoseconds_add]
      omega
  · next unready => exact absurd counting.ready unready

theorem wp_stop_counting :
    wp (stop_pmu_counters passing)
      (fun _ after =>
        Counting after false (cycles + added running (passing 0) .cpu_cycles)
            (instructions + added running (passing 0) .instructions) ∧
          after.startTime = world.startTime ∧
          after.endTime = timespec after.nanoseconds ∧
          after.nanoseconds = world.nanoseconds + (passing 0 + passing 1).nanoseconds)
      (fun _ _ => False) world := by
  simp only [stop_pmu_counters, clock_gettime, ioctl, wp_bind, wp_get]
  split
  · have halted : Counting _ false _ _ := (counting.pass (passing 0)).ioctl_leader .disable rfl
    have stopped := (halted.pass (passing 1)).of_clock world.startTime
      (((world.pass (passing 0)).ioctl world.cycles_fd .disable).pass (passing 1)).now
    exact ⟨stopped, rfl, rfl, Nat.add_assoc _ _ _⟩
  · next unready => exact absurd counting.ready unready

theorem wp_readCounts :
    wp (readCounts passing)
      (fun counts after =>
        counts = some (printed (cycles + added running (passing 0) .cpu_cycles)
          (instructions + added running (passing 0 + passing 1) .instructions)) ∧
        Counting after running (cycles + added running (passing 0 + passing 1) .cpu_cycles)
          (instructions + added running (passing 0 + passing 1) .instructions) ∧
        after.startTime = world.startTime ∧ after.endTime = world.endTime)
      (fun _ _ => False) world := by
  have first := counting.pass (passing 0)
  have second := first.pass (passing 1)
  simp only [readCounts, wp_bind, wp_get]
  split
  · simp only [wp_bind, wp_get]
    refine wp_read first.pair.leader ?_
    simp only [wp_ofOption_some]
    refine wp_read second.pair.member ?_
    simp only [wp_ofOption_some, wp_pure]
    rw [added_add, added_add, ← Nat.add_assoc, ← Nat.add_assoc]
    exact ⟨rfl, second, rfl, rfl⟩
  · next unready => exact absurd counting.ready unready

theorem wp_print_counting :
    wp (print_pmu_counters passing)
      (fun report after =>
        report = ⟨some (printed (cycles + added running (passing 0) .cpu_cycles)
            (instructions + added running (passing 0 + passing 1) .instructions)),
          delta world.startTime world.endTime⟩ ∧
        Counting after running (cycles + added running (passing 0 + passing 1) .cpu_cycles)
          (instructions + added running (passing 0 + passing 1) .instructions))
      (fun _ _ => False) world := by
  rw [print_pmu_counters, wp_bind]
  apply wp_mono (wp_readCounts counting passing)
  · rintro counts after ⟨rfl, counting, startTime, endTime⟩
    simp only [wp_bind, wp_get, wp_pure, startTime, endTime]
    exact ⟨trivial, counting⟩
  · exact fun _ _ => id

end Counting

section Closed

variable {world : World} (closed : Closed world) (passing : ℕ → Progress)

include closed

theorem Closed.pass (progress : Progress) : Closed (world.pass progress) where
  unready := closed.unready
  refused := closed.refused
  closed fd := by
    change (world.events fd).map _ = _
    rw [closed.closed, Option.map_none]

theorem wp_start_closed :
    wp (start_pmu_counters passing)
      (fun _ after => Closed after ∧
        after.startTime = timespec (world.nanoseconds + (passing 0).nanoseconds) ∧
        after.nanoseconds = world.nanoseconds + (passing 0).nanoseconds)
      (fun _ _ => False) world := by
  simp only [start_pmu_counters, clock_gettime, wp_bind, wp_modify, wp_get, wp_pure]
  split
  · next ready => exact absurd ready (ne_true_of_eq_false closed.unready)
  · exact ⟨⟨closed.unready, closed.refused, (closed.pass (passing 0)).closed⟩, rfl, rfl⟩

theorem wp_stop_closed :
    wp (stop_pmu_counters passing)
      (fun _ after => Closed after ∧ after.startTime = world.startTime ∧
        after.endTime = timespec (world.nanoseconds + (passing 1).nanoseconds))
      (fun _ _ => False) world := by
  simp only [stop_pmu_counters, clock_gettime, wp_bind, wp_get]
  split
  · next ready => exact absurd ready (ne_true_of_eq_false closed.unready)
  · exact ⟨⟨closed.unready, closed.refused, (closed.pass (passing 1)).closed⟩, rfl, rfl⟩

theorem wp_print_closed :
    wp (print_pmu_counters passing)
      (fun report after =>
        report = ⟨none, delta world.startTime world.endTime⟩ ∧ Closed after)
      (fun _ _ => False) world := by
  simp only [print_pmu_counters, readCounts, wp_bind, wp_get]
  split
  · next ready => exact absurd ready (ne_true_of_eq_false closed.unready)
  · exact ⟨rfl, closed⟩

end Closed

/-! ## Setting up and closing -/

/-- One descriptor is open. -/
structure Only (fd : ℤ) (world : World) : Prop where
  refused : world.refused = []
  opened : (world.events fd).isSome
  alone : ∀ other, other ≠ fd → world.events other = none

theorem Only.pass {fd : ℤ} {world : World} (only : Only fd world) (progress : Progress) :
    Only fd (world.pass progress) where
  refused := only.refused
  opened := by
    change ((world.events fd).map _).isSome
    rw [Option.isSome_map, only.opened]
  alone other different := by
    change (world.events other).map _ = _
    rw [only.alone other different, Option.map_none]

theorem Only.close {fd : ℤ} {world : World} (only : Only fd world) :
    (world.close fd).refused = [] ∧ ∀ other, (world.close fd).events other = none := by
  constructor
  · change world.require fd = []
    rw [World.require, if_pos only.opened, only.refused]
  · intro other
    change Function.update _ _ _ _ = _
    by_cases same : other = fd
    · rw [same, Function.update_self]
    · rw [Function.update_of_ne same, only.alone other same]

/-- The group leader is open and stopped, and nothing else is. -/
structure Leading (world : World) : Prop where
  unready : world.pmu_ready = false
  refused : world.refused = []
  valid : 0 ≤ world.cycles_fd
  leader : world.events world.cycles_fd = some ⟨cyclesAttr, -1, false, 0⟩
  alone : ∀ fd, fd ≠ world.cycles_fd → world.events fd = none

theorem Leading.pass {world : World} (leading : Leading world) (progress : Progress) :
    Leading (world.pass progress) where
  unready := leading.unready
  refused := leading.refused
  valid := leading.valid
  leader := by
    change (world.events world.cycles_fd).map _ = _
    rw [leading.leader, Option.map_some]
    rfl
  alone fd other := by
    change (world.events fd).map _ = _
    rw [leading.alone fd other, Option.map_none]

theorem Leading.only {world : World} (leading : Leading world) : Only world.cycles_fd world where
  refused := leading.refused
  opened := by rw [leading.leader, Option.isSome_some]
  alone := leading.alone

/-- Opening the leader. -/
theorem Closed.openEvent {world : World} (closed : Closed world) {answer : ℤ}
    (opens : world.Opens answer (-1)) :
    Leading { world.openEvent answer cyclesAttr (-1) with cycles_fd := answer } where
  unready := closed.unready
  refused := closed.refused
  valid := opens.1
  leader := Function.update_self answer _ _
  alone fd other := (Function.update_of_ne other _ _).trans (closed.closed fd)

/-- Opening the member. -/
theorem Leading.openEvent {world : World} (leading : Leading world) {answer : ℤ}
    (opens : world.Opens answer world.cycles_fd) :
    Counting { world.openEvent answer instructionsAttr world.cycles_fd with
      instructions_fd := answer, pmu_ready := true } false 0 0 where
  ready := rfl
  refused := leading.refused
  pair := {
    valid := ⟨leading.valid, opens.1⟩
    leader := by
      have free := opens.2.1
      have other : world.cycles_fd ≠ answer := by
        rintro rfl
        rw [leading.leader] at free
        cases free
      exact (Function.update_of_ne other _ _).trans leading.leader
    member := Function.update_self answer _ _
    alone fd other another := (Function.update_of_ne another _ _).trans (leading.alone fd other) }

/-- The system opens both counters, under descriptors of their own. -/
def Granted (answers : Config → ℤ) : Prop :=
  0 ≤ answers .cpu_cycles ∧ 0 ≤ answers .instructions ∧
    answers .instructions ≠ answers .cpu_cycles

instance (answers : Config → ℤ) : Decidable (Granted answers) :=
  inferInstanceAs (Decidable (_ ∧ _ ∧ _))

theorem Leading.opens_iff {world : World} (leading : Leading world) (answer : ℤ) :
    world.Opens answer world.cycles_fd ↔ 0 ≤ answer ∧ answer ≠ world.cycles_fd := by
  constructor
  · rintro ⟨valid, free, _⟩
    refine ⟨valid, ?_⟩
    rintro rfl
    rw [leading.leader] at free
    cases free
  · rintro ⟨valid, other⟩
    refine ⟨valid, ?_, Or.inr leading.only.opened⟩
    rw [leading.alone answer other]
    rfl

theorem wp_setup {world : World} (closed : Closed world) (answers : Config → ℤ)
    (passing : ℕ → Progress) :
    wp (setup_pmu_counters answers passing)
      (fun status after =>
        (status = 0 ∧ Granted answers ∧ Counting after false 0 0) ∨
          (status = -1 ∧ ¬ Granted answers ∧ Closed after))
      (fun _ _ => False) world := by
  have begun := closed.pass (passing 0)
  simp only [setup_pmu_counters, sys_perf_event_open, close, wp_bind, wp_modify, wp_get]
  split
  · next opens =>
      have leading := (begun.openEvent opens).pass (passing 1)
      have joins_iff := leading.opens_iff (answers .instructions)
      simp only [wp_bind, wp_modify, wp_get, wp_pure, if_neg (Int.not_lt.mpr opens.1)]
      split
      · next joins =>
          have distinct := joins_iff.mp joins
          simp only [wp_bind, wp_modify, wp_pure, if_neg (Int.not_lt.mpr joins.1)]
          exact Or.inl ⟨trivial, ⟨opens.1, distinct⟩, leading.openEvent joins⟩
      · next alone =>
          have failed : Leading _ := leading.pass (passing 2)
          have shut := failed.only.close
          refine Or.inr ⟨rfl, fun granted => ?_, failed.unready, shut.1, shut.2⟩
          exact alone (joins_iff.mpr granted.2)
  · next refused =>
      refine Or.inr ⟨rfl, fun granted => ?_, begun.unready, begun.refused, begun.closed⟩
      refine refused ⟨granted.1, ?_, Or.inl rfl⟩
      rw [begun.closed]
      rfl

/-- Closing the leader leaves the member. -/
theorem Counting.close {world : World} {running : Bool} {cycles instructions : ℕ}
    (counting : Counting world running cycles instructions) :
    Only world.instructions_fd (world.close world.cycles_fd) where
  refused := counting.require_leader
  opened := by
    have kept : (world.close world.cycles_fd).events world.instructions_fd = _ :=
      Function.update_of_ne counting.pair.distinct.symm _ _
    rw [kept, counting.pair.member, Option.isSome_some]
  alone other different := by
    change Function.update _ _ _ _ = _
    by_cases same : other = world.cycles_fd
    · rw [same, Function.update_self]
    · rw [Function.update_of_ne same, counting.pair.alone other same different]

theorem wp_close_counting {world : World} {running : Bool} {cycles instructions : ℕ}
    (counting : Counting world running cycles instructions) (passing : ℕ → Progress) :
    wp (close_pmu_counters passing) (fun _ after => Closed after) (fun _ _ => False) world := by
  simp only [close_pmu_counters, close, wp_bind, wp_get]
  split
  · have first : Only _ _ := (counting.pass (passing 0)).close
    have shut := (first.pass (passing 1)).close
    exact ⟨rfl, shut.1, shut.2⟩
  · next unready => exact absurd counting.ready unready

theorem wp_close_closed {world : World} (closed : Closed world) (passing : ℕ → Progress) :
    wp (close_pmu_counters passing) (fun _ after => Closed after) (fun _ _ => False) world := by
  simp only [close_pmu_counters, wp_bind, wp_get]
  split
  · next ready => exact absurd ready (ne_true_of_eq_false closed.unready)
  · exact ⟨rfl, closed.refused, closed.closed⟩

end ErodeTest.Pmu
