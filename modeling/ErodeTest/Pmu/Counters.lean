import ErodeTest.Pmu.Events
import Mathlib.Data.Rat.Defs
import Mathlib.Tactic.Common

/-! # The functions that measure

The functions of `pmu_utils.cc`. One counter counts cycles and leads a group in which the
other counts instructions, "in order to ensure both counters run at the same time and our
CPI statistics are valid". The pair keeps its shape under every request they make
(`Counting`).
-/

namespace ErodeTest.Pmu

open Fallible

/-! ## The functions -/

/-- What is printed of the counters. -/
structure Counts where
  cycles : ℕ
  instructions : ℕ
  CPI : Option ℚ
  deriving DecidableEq, Repr

structure Report where
  counts : Option Counts
  delta : Timespec
  deriving DecidableEq, Repr

def close_pmu_counters (passing : ℕ → Progress) : Call Unit := do
  if (← get).pmu_ready then
    close (passing 0) (← get).cycles_fd
    close (passing 1) (← get).instructions_fd
  modify fun world => { world with pmu_ready := false }

/-- The attributes of the group leader. -/
def cyclesAttr : PerfEventAttr where
  exclude_kernel := true
  exclude_hv := true
  disabled := true
  config := .cpu_cycles

/-- The group leader starts and stops this counter. -/
def instructionsAttr : PerfEventAttr :=
  { cyclesAttr with disabled := false, config := .instructions }

def setup_pmu_counters (answers : Config → ℤ) (passing : ℕ → Progress) : Call ℤ := do
  let cycles_fd ← sys_perf_event_open (passing 0) (answers .cpu_cycles) cyclesAttr (-1)
  modify fun world => { world with cycles_fd }
  if cycles_fd < 0 then
    return -1
  else
    let instructions_fd ←
      sys_perf_event_open (passing 1) (answers .instructions) instructionsAttr cycles_fd
    modify fun world => { world with instructions_fd }
    if instructions_fd < 0 then
      close (passing 2) (← get).cycles_fd
      return -1
    else
      modify fun world => { world with pmu_ready := true }
      return 0

def start_pmu_counters (passing : ℕ → Progress) : Call Unit := do
  let startTime ← clock_gettime (passing 0)
  modify fun world => { world with startTime }
  if (← get).pmu_ready then
    ioctl (passing 1) (← get).instructions_fd .reset
    ioctl (passing 2) (← get).cycles_fd .reset
    ioctl (passing 3) (← get).instructions_fd .enable
    ioctl (passing 4) (← get).cycles_fd .enable

def stop_pmu_counters (passing : ℕ → Progress) : Call Unit := do
  if (← get).pmu_ready then
    ioctl (passing 0) (← get).cycles_fd .disable
  let endTime ← clock_gettime (passing 1)
  modify fun world => { world with endTime }

/-- The time between two readings of the clock. -/
def delta (startTime endTime : Timespec) : Timespec :=
  if endTime.tv_nsec - startTime.tv_nsec < 0 then
    ⟨endTime.tv_sec - startTime.tv_sec - 1, endTime.tv_nsec - startTime.tv_nsec + 1000000000⟩
  else
    ⟨endTime.tv_sec - startTime.tv_sec, endTime.tv_nsec - startTime.tv_nsec⟩

def printed (cycles instructions : ℕ) : Counts where
  cycles := cycles
  instructions := instructions
  CPI := if instructions > 0 then some (cycles / instructions) else none

def readCounts (passing : ℕ → Progress) : Call (Option Counts) := do
  if (← get).pmu_ready then
    let cycles ← ofOption () (← read (passing 0) (← get).cycles_fd)
    let instructions ← ofOption () (← read (passing 1) (← get).instructions_fd)
    return some (printed cycles instructions)
  else
    return none

def print_pmu_counters (passing : ℕ → Progress) : Call Report := do
  let counts ← readCounts passing
  return { counts, delta := delta (← get).startTime (← get).endTime }

/-! ## The pair of counters -/

/-- Under the descriptors are the two counters with these counts, and under no other is one;
the leader is enabled or not. -/
structure Pair (events : ℤ → Option Event) (cycles_fd instructions_fd : ℤ) (running : Bool)
    (cycles instructions : ℕ) : Prop where
  valid : 0 ≤ cycles_fd ∧ 0 ≤ instructions_fd
  leader : events cycles_fd = some ⟨cyclesAttr, -1, running, cycles⟩
  member : events instructions_fd = some ⟨instructionsAttr, cycles_fd, true, instructions⟩
  alone : ∀ fd, fd ≠ cycles_fd → fd ≠ instructions_fd → events fd = none

namespace Pair

variable {events : ℤ → Option Event} {cycles_fd instructions_fd : ℤ} {running : Bool}
  {cycles instructions : ℕ}
  (pair : Pair events cycles_fd instructions_fd running cycles instructions)

include pair

theorem distinct : cycles_fd ≠ instructions_fd := by
  intro same
  have leader := pair.leader
  rw [same, pair.member] at leader
  simp only [instructionsAttr, cyclesAttr, Option.some.injEq, Event.mk.injEq,
    PerfEventAttr.mk.injEq, reduceCtorEq, and_false, false_and] at leader

theorem ungrouped : events (-1) = none := by
  have valid := pair.valid
  exact pair.alone (-1) (by omega) (by omega)

theorem isSome_iff (fd : ℤ) : (events fd).isSome ↔ fd = cycles_fd ∨ fd = instructions_fd := by
  constructor
  · intro opened
    by_contra other
    push Not at other
    rw [pair.alone fd other.1 other.2] at opened
    cases opened
  · rintro (rfl | rfl)
    · rw [pair.leader, Option.isSome_some]
    · rw [pair.member, Option.isSome_some]

theorem update_leader {running' : Bool} {cycles' : ℕ} {event : Option Event}
    (changed : event = some ⟨cyclesAttr, -1, running', cycles'⟩) :
    Pair (Function.update events cycles_fd event) cycles_fd instructions_fd running' cycles'
      instructions where
  valid := pair.valid
  leader := by rw [Function.update_self, changed]
  member := by rw [Function.update_of_ne pair.distinct.symm, pair.member]
  alone fd other another := by rw [Function.update_of_ne other, pair.alone fd other another]

theorem update_member {instructions' : ℕ} {event : Option Event}
    (changed : event = some ⟨instructionsAttr, cycles_fd, true, instructions'⟩) :
    Pair (Function.update events instructions_fd event) cycles_fd instructions_fd running cycles
      instructions' where
  valid := pair.valid
  leader := by rw [Function.update_of_ne pair.distinct, pair.leader]
  member := by rw [Function.update_self, changed]
  alone fd other another := by rw [Function.update_of_ne another, pair.alone fd other another]

end Pair

/-- The counters are set up, and no call was refused. -/
structure Counting (world : World) (running : Bool) (cycles instructions : ℕ) : Prop where
  ready : world.pmu_ready = true
  refused : world.refused = []
  pair : Pair world.events world.cycles_fd world.instructions_fd running cycles instructions

/-- No counter is open, and no call was refused. -/
structure Closed (world : World) : Prop where
  unready : world.pmu_ready = false
  refused : world.refused = []
  closed : ∀ fd, world.events fd = none

/-- What a counter adds if the leader is enabled. -/
def added (running : Bool) (progress : Progress) (config : Config) : ℕ :=
  if running then progress.spent config .user else 0

namespace Counting

variable {world : World} {running : Bool} {cycles instructions : ℕ}
  (counting : Counting world running cycles instructions)

include counting

theorem pass (progress : Progress) :
    Counting (world.pass progress) running (cycles + added running progress .cpu_cycles)
      (instructions + added running progress .instructions) where
  ready := counting.ready
  refused := counting.refused
  pair := {
    valid := counting.pair.valid
    leader := by
      change (world.events world.cycles_fd).map _ = _
      rw [counting.pair.leader, Option.map_some, World.counts, counting.pair.ungrouped]
      cases running <;> rfl
    member := by
      change (world.events world.instructions_fd).map _ = _
      rw [counting.pair.member, Option.map_some, World.counts, counting.pair.leader]
      cases running <;> rfl
    alone fd other another := by
      change (world.events fd).map _ = _
      rw [counting.pair.alone fd other another, Option.map_none] }

theorem require_leader : world.require world.cycles_fd = [] := by
  rw [World.require, counting.pair.leader, counting.refused]
  rfl

theorem require_member : world.require world.instructions_fd = [] := by
  rw [World.require, counting.pair.member, counting.refused]
  rfl

/-- A request to the leader. -/
theorem ioctl_leader (request : Request) {running' : Bool} {cycles' : ℕ}
    (applied : request.apply ⟨cyclesAttr, -1, running, cycles⟩ =
      ⟨cyclesAttr, -1, running', cycles'⟩) :
    Counting (world.ioctl world.cycles_fd request) running' cycles' instructions where
  ready := counting.ready
  refused := counting.require_leader
  pair := counting.pair.update_leader (by rw [counting.pair.leader, Option.map_some, applied])

/-- A request to the member that leaves it enabled. -/
theorem ioctl_member (request : Request) {instructions' : ℕ}
    (applied : request.apply ⟨instructionsAttr, world.cycles_fd, true, instructions⟩ =
      ⟨instructionsAttr, world.cycles_fd, true, instructions'⟩) :
    Counting (world.ioctl world.instructions_fd request) running cycles instructions' where
  ready := counting.ready
  refused := counting.require_member
  pair := counting.pair.update_member (by rw [counting.pair.member, Option.map_some, applied])

theorem of_clock (startTime endTime : Timespec) :
    Counting { world with startTime, endTime } running cycles instructions where
  ready := counting.ready
  refused := counting.refused
  pair := counting.pair

end Counting

end ErodeTest.Pmu
