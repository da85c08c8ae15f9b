import ErodeTest.Foundation.Fallible
import Mathlib.Data.Int.Notation
import Mathlib.Logic.Function.Basic

/-! # Performance counters

What `pmu_utils.cc` uses of the operating system: hardware counters behind file
descriptors and a clock. A counter counts while it and the leader of its group are
enabled. Before a system call takes effect some time passes in which the process works
(`World.pass`), and a call on a descriptor that is not open is refused.
-/

namespace ErodeTest.Pmu

/-- What a hardware counter counts. -/
inductive Config where
  | cpu_cycles
  | instructions
  deriving DecidableEq, Repr

inductive Mode where
  | user
  | kernel
  | hypervisor
  deriving DecidableEq, Repr

/-- A stretch of time: how long it is, and what the process spends of the hardware in each
mode. -/
structure Progress where
  nanoseconds : ℕ
  spent : Config → Mode → ℕ

namespace Progress

instance : Add Progress where
  add first second :=
    ⟨first.nanoseconds + second.nanoseconds,
      fun config mode => first.spent config mode + second.spent config mode⟩

@[simp] theorem nanoseconds_add (first second : Progress) :
    (first + second).nanoseconds = first.nanoseconds + second.nanoseconds := rfl

end Progress

/-- The fields of `perf_event_attr` that set-up changes from zero. -/
structure PerfEventAttr where
  exclude_kernel : Bool
  exclude_hv : Bool
  disabled : Bool
  config : Config

/-- What a counter adds for a stretch of time in which it counts. -/
def PerfEventAttr.counted (attr : PerfEventAttr) (progress : Progress) : ℕ :=
  progress.spent attr.config .user +
    (if attr.exclude_kernel then 0 else progress.spent attr.config .kernel) +
    (if attr.exclude_hv then 0 else progress.spent attr.config .hypervisor)

/-- An open counter. -/
structure Event where
  attr : PerfEventAttr
  group_fd : ℤ
  enabled : Bool
  count : ℕ

structure Timespec where
  tv_sec : ℤ
  tv_nsec : ℤ
  deriving DecidableEq, Repr

def timespec (nanoseconds : ℕ) : Timespec where
  tv_sec := nanoseconds / 1000000000
  tv_nsec := nanoseconds % 1000000000

/-- The variables of `pmu_utils.cc` and, behind the descriptors, the open counters; the time
since boot, and the descriptors a call was refused on because they were not open. -/
structure World where
  startTime : Timespec
  endTime : Timespec
  cycles_fd : ℤ
  instructions_fd : ℤ
  pmu_ready : Bool
  events : ℤ → Option Event
  nanoseconds : ℕ
  refused : List ℤ

namespace World

/-- The counter counts: it is enabled, and so is the leader of its group if it has one. -/
def counts (world : World) (event : Event) : Bool :=
  event.enabled && ((world.events event.group_fd).map Event.enabled).getD true

/-- Some time passes. A counter that counts has its hardware all of that time: the kernel
does not share it out among more counters than there are. -/
def pass (progress : Progress) (world : World) : World where
  __ := world
  nanoseconds := world.nanoseconds + progress.nanoseconds
  events fd := (world.events fd).map fun event =>
    if world.counts event then { event with count := event.count + event.attr.counted progress }
    else event

/-- The reading of `CLOCK_MONOTONIC`. -/
def now (world : World) : Timespec := timespec world.nanoseconds

/-- Refuse a call on a descriptor that is not open. -/
def require (fd : ℤ) (world : World) : List ℤ :=
  if (world.events fd).isSome then world.refused else world.refused ++ [fd]

end World

/-- The requests to `ioctl`. The argument after them, which the source leaves out, counts as
zero: a request is for one counter and not for its group. -/
inductive Request where
  | reset
  | enable
  | disable
  deriving DecidableEq, Repr

def Request.apply : Request → Event → Event
  | reset, event => { event with count := 0 }
  | enable, event => { event with enabled := true }
  | disable, event => { event with enabled := false }

namespace World

def ioctl (fd : ℤ) (request : Request) (world : World) : World where
  __ := world
  events := Function.update world.events fd ((world.events fd).map request.apply)
  refused := world.require fd

def close (fd : ℤ) (world : World) : World where
  __ := world
  events := Function.update world.events fd none
  refused := world.require fd

/-- The system opens a counter under a descriptor that is free, in the group of an open one
or in none. -/
def Opens (answer group_fd : ℤ) (world : World) : Prop :=
  0 ≤ answer ∧ (world.events answer).isNone ∧ (group_fd = -1 ∨ (world.events group_fd).isSome)

instance (answer group_fd : ℤ) (world : World) : Decidable (world.Opens answer group_fd) :=
  inferInstanceAs (Decidable (_ ∧ _ ∧ _))

def openEvent (answer : ℤ) (attr : PerfEventAttr) (group_fd : ℤ) (world : World) : World where
  __ := world
  events := Function.update world.events answer
    (some { attr, group_fd, enabled := !attr.disabled, count := 0 })

end World

/-! ## System calls -/

/-- The functions of `pmu_utils.cc`; the error is an assertion that fails. -/
abbrev Call : Type → Type := Fallible World Unit

open Fallible

def clock_gettime (before : Progress) : Call Timespec := do
  modify (World.pass before)
  return (← get).now

def ioctl (before : Progress) (fd : ℤ) (request : Request) : Call Unit := do
  modify (World.pass before)
  modify (World.ioctl fd request)

def close (before : Progress) (fd : ℤ) : Call Unit := do
  modify (World.pass before)
  modify (World.close fd)

/-- The count, if the descriptor is open. -/
def read (before : Progress) (fd : ℤ) : Call (Option ℕ) := do
  modify (World.pass before)
  modify fun world => { world with refused := world.require fd }
  return ((← get).events fd).map Event.count

/-- The descriptor the system answers with, or −1. -/
def sys_perf_event_open (before : Progress) (answer : ℤ) (attr : PerfEventAttr) (group_fd : ℤ) :
    Call ℤ := do
  modify (World.pass before)
  if (← get).Opens answer group_fd then
    modify (World.openEvent answer attr group_fd)
    return answer
  else
    return -1

end ErodeTest.Pmu
