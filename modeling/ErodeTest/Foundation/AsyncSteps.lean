import ErodeTest.Foundation.AsyncLogic
import Mathlib.Data.List.Infix
import Mathlib.Logic.Relation

/-! # Steps of a program with asynchronous copies

In a step one element of a copy arrives or the program goes on by one instruction; a
wait goes on when nothing is pending (`AsyncCopy.Step`). A sequence of steps may deliver
the elements at any moments and in any order; the runs under a schedule are among these
sequences (`AsyncCopy.steps_run`).

What a separated program has done after any sequence of steps is the beginning of what
its synchronous run does (`AsyncCopy.Reached.begins`).
-/

namespace AsyncCopy

open BufferProgram (replay)

variable {A S α O β : Type}

/-! ## What a log says -/

/-- The addresses in flight after an event. -/
def Event.inFlight (waiting : List A) : Event A S α O → List A
  | .copy transfer => waiting ++ transfer.map Prod.fst
  | .wait => []
  | _ => waiting

/-- The destinations of the copies issued since the last wait. -/
def inFlight (log : List (Event A S α O)) : List A := log.foldl Event.inFlight []

/-- What an event stores in the local memory. -/
def Event.written (source : S → α) : Event A S α O → List (A × α)
  | .write address value => [(address, value)]
  | .copy transfer => contents source transfer
  | _ => []

/-- What is stored in the local memory, in program order. -/
def written (source : S → α) (log : List (Event A S α O)) : List (A × α) :=
  log.flatMap (Event.written source)

section Log

variable (log later : List (Event A S α O)) (event : Event A S α O)

@[simp] theorem inFlight_concat : inFlight (log ++ [event]) = event.inFlight (inFlight log) := by
  simp [inFlight]

@[simp] theorem written_concat (source : S → α) :
    written source (log ++ [event]) = written source log ++ event.written source := by
  simp [written]

variable {log later}

/-- Events that neither copy nor wait change nothing about what is in flight. -/
theorem inFlight_append_quiet
    (quiet : ∀ event ∈ later, ∀ waiting : List A, event.inFlight waiting = waiting) :
    inFlight (log ++ later) = inFlight log := by
  induction later using List.reverseRecOn with
  | nil => rw [List.append_nil]
  | append_singleton later event ih =>
      rw [← List.append_assoc, inFlight_concat, quiet event (by simp)]
      exact ih fun other listed => quiet other (by simp [listed])

/-- What is in flight was issued. -/
theorem exists_copy_of_mem_inFlight {address : A} (waiting : address ∈ inFlight log) :
    ∃ transfer, .copy transfer ∈ log ∧ address ∈ transfer.map Prod.fst := by
  induction log using List.reverseRecOn with
  | nil => exact absurd waiting List.not_mem_nil
  | append_singleton log event ih =>
      rw [inFlight_concat] at waiting
      have earlier (before : address ∈ inFlight log) :
          ∃ transfer, .copy transfer ∈ log ++ [event] ∧ address ∈ transfer.map Prod.fst := by
        obtain ⟨transfer, issued, filled⟩ := ih before
        exact ⟨transfer, List.mem_append_left _ issued, filled⟩
      cases event with
      | copy transfer =>
          rcases List.mem_append.mp waiting with before | filled
          · exact earlier before
          · exact ⟨transfer, by simp, filled⟩
      | wait => exact absurd waiting List.not_mem_nil
      | read => exact earlier waiting
      | write => exact earlier waiting
      | emit => exact earlier waiting

end Log

/-! ## Conditions on what comes before an event -/

section Throughout

variable {ε : Type}

/-- Every event satisfies a condition on the events before it. -/
def Throughout (condition : List ε → ε → Prop) (before : List ε) : List ε → Prop
  | [] => True
  | event :: events => condition before event ∧ Throughout condition (before ++ [event]) events

variable {condition : List ε → ε → Prop} {before : List ε}

theorem throughout_append (first second : List ε) :
    Throughout condition before (first ++ second) ↔
      Throughout condition before first ∧ Throughout condition (before ++ first) second := by
  induction first generalizing before with
  | nil => simp [Throughout]
  | cons event first ih => simp [Throughout, ih, and_assoc]

/-- Events that meet the condition after any of the others. -/
theorem throughout_of_forall {events : List ε}
    (every : ∀ earlier event, earlier ++ [event] <+: events → condition (before ++ earlier) event) :
    Throughout condition before events := by
  induction events generalizing before with
  | nil => trivial
  | cons event events ih =>
      refine ⟨by simpa using every [] event (by simp), ih fun earlier later begins => ?_⟩
      simpa using every (event :: earlier) later (by simpa using begins)

theorem Throughout.of_begins {events earlier : List ε} {event : ε}
    (holds : Throughout condition [] events) (begins : earlier ++ [event] <+: events) :
    condition earlier event := by
  obtain ⟨rest, rfl⟩ := begins
  rw [throughout_append, throughout_append] at holds
  exact holds.1.2.1

end Throughout

variable [DecidableEq A]

/-! ## Steps -/

/-- The rest of a program and the machine that runs it. -/
structure Configuration (A S α O β : Type) where
  program : Program A S α O β
  machine : Pending A S α O

/-- Before the first step nothing is pending. -/
def Configuration.initial (program : Program A S α O β) (memory : A → α) :
    Configuration A S α O β :=
  ⟨program, ⟨memory, [], []⟩⟩

/-- An element arrives, or the next instruction is executed. -/
inductive Step (source : S → α) : Configuration A S α O β → Configuration A S α O β → Prop
  | arrive (program : Program A S α O β) (machine : Pending A S α O) (position : ℕ) :
      Step source ⟨program, machine⟩ ⟨program, machine.deliverOne position⟩
  | read (address : A) (next : α → Program A S α O β) (machine : Pending A S α O) :
      Step source ⟨.read address next, machine⟩
        ⟨next (machine.memory address),
          { machine with log := machine.log ++ [.read address (machine.memory address)] }⟩
  | write (address : A) (value : α) (next : Program A S α O β) (machine : Pending A S α O) :
      Step source ⟨.write address value next, machine⟩
        ⟨next, { machine with
          memory := Function.update machine.memory address value
          log := machine.log ++ [.write address value] }⟩
  | copy (transfer : List (A × S)) (next : Program A S α O β) (machine : Pending A S α O) :
      Step source ⟨.copy transfer next, machine⟩
        ⟨next, { machine with
          pending := machine.pending ++ contents source transfer
          log := machine.log ++ [.copy transfer] }⟩
  | wait (next : Program A S α O β) (machine : Pending A S α O) (settled : machine.pending = []) :
      Step source ⟨.wait next, machine⟩ ⟨next, { machine with log := machine.log ++ [.wait] }⟩
  | emit (output : O) (next : Program A S α O β) (machine : Pending A S α O) :
      Step source ⟨.emit output next, machine⟩
        ⟨next, { machine with log := machine.log ++ [.emit output] }⟩

/-- Any number of steps. -/
abbrev Steps (source : S → α) :
    Configuration A S α O β → Configuration A S α O β → Prop :=
  Relation.ReflTransGen (Step source)

/-- A step only adds to the log. -/
theorem Step.log_begins {source : S → α} {config after : Configuration A S α O β}
    (step : Step source config after) : config.machine.log <+: after.machine.log := by
  cases step with
  | arrive program machine position =>
      dsimp only [Pending.deliverOne]
      split <;> exact List.prefix_refl _
  | _ => exact List.prefix_append _ _

/-! ## Runs are sequences of steps -/

section Runs

variable (source : S → α)

theorem steps_deliver (program : Program A S α O β) (machine : Pending A S α O)
    (positions : List ℕ) :
    Steps source ⟨program, machine⟩ ⟨program, machine.deliver positions⟩ := by
  induction positions generalizing machine with
  | nil => exact .refl
  | cons position positions ih => exact .head (.arrive program machine position) (ih _)

/-- Everything pending can arrive. -/
theorem steps_settle (program : Program A S α O β) (machine : Pending A S α O) :
    Steps source ⟨program, machine⟩
      ⟨program, ⟨replay machine.pending machine.memory, [], machine.log⟩⟩ := by
  obtain ⟨memory, pending, log⟩ := machine
  induction pending generalizing memory with
  | nil => exact .refl
  | cons entry pending ih => exact .head (.arrive program _ 0) (ih _)

/-- **A run under a schedule is a sequence of steps.** -/
theorem steps_run (program : Program A S α O β) (schedule : Schedule) (machine : Pending A S α O) :
    Steps source ⟨program, machine⟩
      ⟨.done (program.run source schedule machine).1, (program.run source schedule machine).2⟩ := by
  induction program generalizing schedule machine with
  | done value => exact .refl
  | read address next ih =>
      exact ((steps_deliver source _ machine (schedule 0)).tail (.read _ _ _)).trans (ih _ _ _)
  | write address value next ih =>
      exact ((steps_deliver source _ machine (schedule 0)).tail (.write _ _ _ _)).trans (ih _ _)
  | copy transfer next ih =>
      exact ((steps_deliver source _ machine (schedule 0)).tail (.copy _ _ _)).trans (ih _ _)
  | wait next ih =>
      have arrived := (steps_deliver source (.wait next) machine (schedule 0)).trans
        (steps_settle source (.wait next) (machine.deliver (schedule 0)))
      exact (arrived.tail (.wait next _ rfl)).trans (ih _ _)
  | emit output next ih =>
      exact ((steps_deliver source _ machine (schedule 0)).tail (.emit _ _ _)).trans (ih _ _)

/-- No sequence of steps gets stuck before the end of the program. -/
theorem exists_finished (config : Configuration A S α O β) :
    ∃ value machine, Steps source config ⟨.done value, machine⟩ :=
  ⟨_, _, steps_run source config.program (fun _ => []) config.machine⟩

end Runs

/-! ## What is reached -/

/-- The synchronous run only adds to the log. -/
theorem Program.log_begins_sync (source : S → α) (program : Program A S α O β)
    (state : State A S α O) : state.log <+: (program.sync source state).2.log := by
  induction program generalizing state with
  | done value => exact List.prefix_refl _
  | read address next ih =>
      exact (List.prefix_append _ _).trans (ih _ (state.record (.read address _)))
  | write address value next ih =>
      exact (List.prefix_append _ _).trans (ih (state.afterWrite address value))
  | copy transfer next ih =>
      exact (List.prefix_append _ _).trans (ih (state.afterCopy source transfer))
  | wait next ih => exact (List.prefix_append _ _).trans (ih state.afterWait)
  | emit output next ih => exact (List.prefix_append _ _).trans (ih (state.record (.emit output)))

/-- The memory of a state and what is in flight are what its log says. -/
structure Recorded (source : S → α) (memory : A → α) (state : State A S α O) : Prop where
  memory : state.memory = replay (written source state.log) memory
  inFlight : state.inFlight = inFlight state.log
  distinct : state.inFlight.Nodup

namespace Recorded

variable {source : S → α} {memory : A → α} {state : State A S α O}

theorem read (recorded : Recorded source memory state) (address : A) (value : α) :
    Recorded source memory (state.record (.read address value)) where
  memory := by simpa [State.record, Event.written] using recorded.memory
  inFlight := by simpa [State.record, Event.inFlight] using recorded.inFlight
  distinct := recorded.distinct

theorem emit (recorded : Recorded source memory state) (output : O) :
    Recorded source memory (state.record (.emit output)) where
  memory := by simpa [State.record, Event.written] using recorded.memory
  inFlight := by simpa [State.record, Event.inFlight] using recorded.inFlight
  distinct := recorded.distinct

theorem write (recorded : Recorded source memory state) (address : A) (value : α) :
    Recorded source memory (state.afterWrite address value) where
  memory := by
    simp [State.afterWrite, Event.written, BufferProgram.replay_append, ← recorded.memory]
  inFlight := by simpa [State.afterWrite, Event.inFlight] using recorded.inFlight
  distinct := recorded.distinct

theorem copy (recorded : Recorded source memory state) {transfer : List (A × S)}
    (clear : (state.inFlight ++ transfer.map Prod.fst).Nodup) :
    Recorded source memory (state.afterCopy source transfer) where
  memory := by
    simp [State.afterCopy, Event.written, BufferProgram.replay_append, ← recorded.memory]
  inFlight := by simp [State.afterCopy, Event.inFlight, ← recorded.inFlight]
  distinct := clear

theorem wait (recorded : Recorded source memory state) :
    Recorded source memory state.afterWait where
  memory := by simpa [State.afterWait, Event.written] using recorded.memory
  inFlight := by simp [State.afterWait, Event.inFlight]
  distinct := List.nodup_nil

end Recorded

/-- The synchronous run goes through a state in which the configuration settles. -/
structure Reached (source : S → α) (program : Program A S α O β) (memory : A → α)
    (config : Configuration A S α O β) (state : State A S α O) : Prop where
  settles : Settles config.machine state
  separated : config.program.Separated source state
  sync : config.program.sync source state = program.sync source ⟨memory, [], []⟩
  recorded : Recorded source memory state

section Reached

variable {source : S → α} {program : Program A S α O β} {memory : A → α}
  {config after : Configuration A S α O β} {state : State A S α O}

theorem Reached.initial (separated : program.Separated source ⟨memory, [], []⟩) :
    Reached source program memory (.initial program memory) ⟨memory, [], []⟩ where
  settles := ⟨rfl, List.nodup_nil, fun _ waiting => (List.not_mem_nil waiting).elim, rfl⟩
  separated := separated
  sync := rfl
  recorded := ⟨rfl, rfl, List.nodup_nil⟩

/-- A step leads on along the synchronous run, or stays. -/
theorem Reached.step (reached : Reached source program memory config state)
    (step : Step source config after) :
    ∃ state, Reached source program memory after state := by
  obtain ⟨settles, separated, sync, recorded⟩ := reached
  cases step with
  | arrive _ _ position =>
      exact ⟨state, settles.deliverOne position, separated, sync, recorded⟩
  | read address next machine =>
      have same : machine.memory address = state.memory address := settles.memory_eq separated.1
      rw [same]
      exact ⟨_, settles.record _, separated.2, sync, recorded.read address _⟩
  | write address value next machine =>
      exact ⟨_, settles.write separated.1 value, separated.2, sync, recorded.write address value⟩
  | copy transfer next machine =>
      exact ⟨_, settles.copy source separated.1, separated.2, sync, recorded.copy separated.1⟩
  | wait next machine settled =>
      have waited := settles.wait
      dsimp only at waited
      rw [settled] at waited
      refine ⟨_, ?_, separated, sync, recorded.wait⟩
      rw [settled]
      exact waited
  | emit output next machine =>
      exact ⟨_, settles.record _, separated, sync, recorded.emit output⟩

/-- **Every sequence of steps follows the synchronous run** of a separated program. -/
theorem Steps.reached (separated : program.Separated source ⟨memory, [], []⟩)
    (steps : Steps source (.initial program memory) config) :
    ∃ state, Reached source program memory config state := by
  induction steps with
  | refl => exact ⟨_, .initial separated⟩
  | tail _ step ih =>
      obtain ⟨state, reached⟩ := ih
      exact reached.step step

/-- What has been done is the beginning of what the synchronous run does. -/
theorem Reached.begins (reached : Reached source program memory config state) :
    config.machine.log <+: (program.sync source ⟨memory, [], []⟩).2.log := by
  rw [reached.settles.log, ← reached.sync]
  exact config.program.log_begins_sync source state

/-- At the end everything has been done. -/
theorem Reached.finished (reached : Reached source program memory config state) {value : β}
    (done : config.program = .done value) :
    config.machine.log = (program.sync source ⟨memory, [], []⟩).2.log := by
  rw [reached.settles.log, ← reached.sync, done]
  rfl

/-- An element that has not arrived is in flight. -/
theorem Reached.pending (reached : Reached source program memory config state) {entry : A × α}
    (waiting : entry ∈ config.machine.pending) :
    entry.1 ∈ AsyncCopy.inFlight config.machine.log := by
  rw [reached.settles.log, ← reached.recorded.inFlight]
  exact reached.settles.recorded entry waiting

/-- No address is the destination of two copies in flight. -/
theorem Reached.nodup (reached : Reached source program memory config state) :
    (AsyncCopy.inFlight config.machine.log).Nodup := by
  rw [reached.settles.log, ← reached.recorded.inFlight]
  exact reached.recorded.distinct

/-- An address that has had one value only, and is not in flight, has this value. -/
theorem Reached.memory_eq (reached : Reached source program memory config state) {address : A}
    {value : α} (clear : address ∉ AsyncCopy.inFlight config.machine.log)
    (stored : (address, value) ∈ written source config.machine.log)
    (only : ∀ other, (address, other) ∈ written source config.machine.log → other = value) :
    config.machine.memory address = value := by
  rw [reached.settles.log] at clear stored only
  rw [← reached.recorded.inFlight] at clear
  rw [reached.settles.memory_eq clear, reached.recorded.memory]
  exact BufferProgram.replay_of_stored _ _ _ _ stored only

end Reached

end AsyncCopy
