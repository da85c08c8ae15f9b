import ErodeTest.Foundation.Access
import Mathlib.Data.List.Nodup

/-! # Programs with asynchronous copies

A program works on a local memory that is filled by copies from a source memory
that does not change. A copy is issued and runs on its own: between its issue and
the next wait each of its bytes may arrive at any moment and in any order. A
schedule fixes these moments (`AsyncCopy.Program.run`).

In the synchronous run every copy is complete when it is issued, and the addresses
still in flight are only recorded (`AsyncCopy.Program.sync`). A program whose
synchronous run never touches an address in flight is separated; all schedules of a
separated program do the same (`AsyncCopy.Program.run_eq_sync`).
-/

namespace AsyncCopy

open BufferProgram (replay)

variable {A S α O β γ : Type}

/-- A program over local addresses `A`, source addresses `S`, elements `α` and outputs `O`. -/
inductive Program (A S α O β : Type) : Type where
  | done (value : β)
  | read (address : A) (next : α → Program A S α O β)
  | write (address : A) (value : α) (next : Program A S α O β)
  | copy (transfer : List (A × S)) (next : Program A S α O β)
  | wait (next : Program A S α O β)
  | emit (output : O) (next : Program A S α O β)

/-- What a program does, in program order. -/
inductive Event (A S α O : Type) where
  | read (address : A) (value : α)
  | write (address : A) (value : α)
  | copy (transfer : List (A × S))
  | wait
  | emit (output : O)
  deriving DecidableEq

namespace Program

/-- Continue with the value of a program. -/
def bind (next : β → Program A S α O γ) : Program A S α O β → Program A S α O γ
  | done value => next value
  | read address rest => read address fun value => (rest value).bind next
  | write address value rest => write address value (rest.bind next)
  | copy transfer rest => copy transfer (rest.bind next)
  | wait rest => wait (rest.bind next)
  | emit output rest => emit output (rest.bind next)

instance : Monad (Program A S α O) where
  pure := done
  bind program next := program.bind next

/-! ## The primitives -/

def readAt (address : A) : Program A S α O α := read address done

def writeAt (address : A) (value : α) : Program A S α O Unit := write address value (done ())

/-- Issue a copy, given by its destination and source addresses. -/
def issue (transfer : List (A × S)) : Program A S α O Unit := copy transfer (done ())

/-- Wait for all copies issued. -/
def await : Program A S α O Unit := wait (done ())

def output (value : O) : Program A S α O Unit := emit value (done ())

end Program

/-! ## The synchronous run -/

/-- A local memory, the addresses in flight, and what happened so far. -/
structure State (A S α O : Type) where
  memory : A → α
  inFlight : List A
  log : List (Event A S α O)

namespace State

/-- Record an event. -/
def record (state : State A S α O) (event : Event A S α O) : State A S α O :=
  { state with log := state.log ++ [event] }

/-- Record events one after the other. -/
def performed (state : State A S α O) (events : List (Event A S α O)) : State A S α O :=
  { state with log := state.log ++ events }

section Performed

variable (state : State A S α O) (events later : List (Event A S α O)) (event : Event A S α O)

@[simp] theorem performed_memory : (state.performed events).memory = state.memory := rfl

@[simp] theorem performed_inFlight : (state.performed events).inFlight = state.inFlight := rfl

@[simp] theorem performed_log : (state.performed events).log = state.log ++ events := rfl

@[simp] theorem performed_performed :
    (state.performed events).performed later = state.performed (events ++ later) := by
  simp [performed]

@[simp] theorem performed_nil : state.performed [] = state := by
  simp [performed]

theorem record_eq_performed : state.record event = state.performed [event] := rfl

end Performed

end State

/-- What a copy stores. -/
def contents (source : S → α) (transfer : List (A × S)) : List (A × α) :=
  transfer.map fun entry => (entry.1, source entry.2)

@[simp] theorem contents_map_fst (source : S → α) (transfer : List (A × S)) :
    (contents source transfer).map Prod.fst = transfer.map Prod.fst := by
  simp [contents, Function.comp_def]

variable [DecidableEq A]

namespace State

def afterWrite (state : State A S α O) (address : A) (value : α) : State A S α O where
  memory := Function.update state.memory address value
  inFlight := state.inFlight
  log := state.log ++ [.write address value]

def afterCopy (source : S → α) (state : State A S α O) (transfer : List (A × S)) :
    State A S α O where
  memory := replay (contents source transfer) state.memory
  inFlight := state.inFlight ++ transfer.map Prod.fst
  log := state.log ++ [.copy transfer]

omit [DecidableEq A] in
def afterWait (state : State A S α O) : State A S α O where
  memory := state.memory
  inFlight := []
  log := state.log ++ [.wait]

end State

namespace Program

/-- The run in which every copy is complete when it is issued. -/
def sync (source : S → α) : Program A S α O β → State A S α O → β × State A S α O
  | done value, state => (value, state)
  | read address next, state =>
      (next (state.memory address)).sync source (state.record (.read address (state.memory address)))
  | write address value next, state => next.sync source (state.afterWrite address value)
  | copy transfer next, state => next.sync source (state.afterCopy source transfer)
  | wait next, state => next.sync source state.afterWait
  | emit output next, state => next.sync source (state.record (.emit output))

/-- The synchronous run touches no address in flight, and copies issued between two
waits have no destination in common. -/
def Separated (source : S → α) : Program A S α O β → State A S α O → Prop
  | done _, _ => True
  | read address next, state => address ∉ state.inFlight ∧
      (next (state.memory address)).Separated source
        (state.record (.read address (state.memory address)))
  | write address value next, state => address ∉ state.inFlight ∧
      next.Separated source (state.afterWrite address value)
  | copy transfer next, state => (state.inFlight ++ transfer.map Prod.fst).Nodup ∧
      next.Separated source (state.afterCopy source transfer)
  | wait next, state => next.Separated source state.afterWait
  | emit output next, state => next.Separated source (state.record (.emit output))

end Program

/-! ## The asynchronous run -/

/-- A local memory with the elements that have not arrived yet. -/
structure Pending (A S α O : Type) where
  memory : A → α
  pending : List (A × α)
  log : List (Event A S α O)

namespace Pending

/-- Deliver one pending element, if there is one at the position. -/
def deliverOne (machine : Pending A S α O) (position : ℕ) : Pending A S α O :=
  match machine.pending[position]? with
  | none => machine
  | some entry =>
      { machine with
        memory := Function.update machine.memory entry.1 entry.2
        pending := machine.pending.eraseIdx position }

/-- Deliver some pending elements, one after the other. -/
def deliver (machine : Pending A S α O) (positions : List ℕ) : Pending A S α O :=
  positions.foldl deliverOne machine

end Pending

/-- What arrives before each step: the positions of the elements among those pending. -/
abbrev Schedule : Type := ℕ → List ℕ

namespace Program

/-- The run in which copies arrive as the schedule says, and at the latest at the next wait. -/
def run (source : S → α) :
    Program A S α O β → Schedule → Pending A S α O → β × Pending A S α O
  | done value, _, machine => (value, machine)
  | read address next, schedule, machine =>
      let machine := machine.deliver (schedule 0)
      (next (machine.memory address)).run source (fun n => schedule (n + 1))
        { machine with log := machine.log ++ [.read address (machine.memory address)] }
  | write address value next, schedule, machine =>
      let machine := machine.deliver (schedule 0)
      next.run source (fun n => schedule (n + 1))
        { machine with
          memory := Function.update machine.memory address value
          log := machine.log ++ [.write address value] }
  | copy transfer next, schedule, machine =>
      let machine := machine.deliver (schedule 0)
      next.run source (fun n => schedule (n + 1))
        { machine with
          pending := machine.pending ++ contents source transfer
          log := machine.log ++ [.copy transfer] }
  | wait next, schedule, machine =>
      let machine := machine.deliver (schedule 0)
      next.run source (fun n => schedule (n + 1))
        { memory := replay machine.pending machine.memory
          pending := []
          log := machine.log ++ [.wait] }
  | emit output next, schedule, machine =>
      let machine := machine.deliver (schedule 0)
      next.run source (fun n => schedule (n + 1))
        { machine with log := machine.log ++ [.emit output] }

end Program

/-- The memory of a state is that of the machine once everything pending has arrived. -/
structure Settles (machine : Pending A S α O) (state : State A S α O) : Prop where
  memory : replay machine.pending machine.memory = state.memory
  distinct : (machine.pending.map Prod.fst).Nodup
  recorded : ∀ entry ∈ machine.pending, entry.1 ∈ state.inFlight
  log : machine.log = state.log

namespace Settles

variable {machine : Pending A S α O} {state : State A S α O}

/-- An element has one place among those pending. -/
theorem pending_functional (settles : Settles machine state) {address : A} {value other : α}
    (first : (address, value) ∈ machine.pending) (second : (address, other) ∈ machine.pending) :
    other = value := by
  have same := List.inj_on_of_nodup_map settles.distinct first second rfl
  exact (congrArg Prod.snd same).symm

/-- The arrival of an element changes neither what the memory will be nor what is recorded. -/
theorem deliverOne (settles : Settles machine state) (position : ℕ) :
    Settles (machine.deliverOne position) state := by
  unfold Pending.deliverOne
  split
  · exact settles
  · next entry found =>
      obtain ⟨bound, rfl⟩ := List.getElem?_eq_some_iff.mp found
      have rotated := List.getElem_cons_eraseIdx_perm bound
      refine ⟨?_, ?_, ?_, settles.log⟩
      · rw [← settles.memory, ← BufferProgram.replay_cons]
        refine (BufferProgram.replay_congr _ (fun entry => rotated.symm.mem_iff) ?_).symm
        exact fun address value other first second => settles.pending_functional first second
      · exact ((rotated.map Prod.fst).nodup_iff.mpr settles.distinct).of_cons
      · exact fun entry kept => settles.recorded entry (List.mem_of_mem_eraseIdx kept)

theorem deliver (settles : Settles machine state) (positions : List ℕ) :
    Settles (machine.deliver positions) state := by
  induction positions generalizing machine with
  | nil => exact settles
  | cons position positions ih => exact ih (settles.deliverOne position)

/-- An address not in flight holds what it will hold. -/
theorem memory_eq (settles : Settles machine state) {address : A}
    (clear : address ∉ state.inFlight) : machine.memory address = state.memory address := by
  rw [← settles.memory, BufferProgram.replay_of_not_stored]
  exact fun value waiting => clear (settles.recorded _ waiting)

theorem record (settles : Settles machine state) (event : Event A S α O) :
    Settles { machine with log := machine.log ++ [event] } (state.record event) where
  memory := settles.memory
  distinct := settles.distinct
  recorded := settles.recorded
  log := congrArg (· ++ [event]) settles.log

theorem write (settles : Settles machine state) {address : A} (clear : address ∉ state.inFlight)
    (value : α) :
    Settles { machine with
      memory := Function.update machine.memory address value
      log := machine.log ++ [.write address value] } (state.afterWrite address value) where
  memory := by
    rw [State.afterWrite, ← settles.memory, BufferProgram.replay_update]
    exact fun other waiting => clear (settles.recorded _ waiting)
  distinct := settles.distinct
  recorded := settles.recorded
  log := congrArg (· ++ [.write address value]) settles.log

theorem copy (settles : Settles machine state) (source : S → α) {transfer : List (A × S)}
    (clear : (state.inFlight ++ transfer.map Prod.fst).Nodup) :
    Settles { machine with
      pending := machine.pending ++ contents source transfer
      log := machine.log ++ [.copy transfer] } (state.afterCopy source transfer) where
  memory := by
    simp only [State.afterCopy, ← settles.memory, BufferProgram.replay_append]
  distinct := by
    obtain ⟨_, fresh, disjoint⟩ := List.nodup_append'.mp clear
    rw [List.map_append, contents_map_fst]
    refine List.nodup_append'.mpr ⟨settles.distinct, fresh, fun address waiting issued => ?_⟩
    obtain ⟨entry, member, rfl⟩ := List.mem_map.mp waiting
    exact disjoint (settles.recorded entry member) issued
  recorded := by
    intro entry waiting
    rcases List.mem_append.mp waiting with earlier | issued
    · exact List.mem_append_left _ (settles.recorded entry earlier)
    · refine List.mem_append_right _ ?_
      rw [← contents_map_fst source]
      exact List.mem_map_of_mem issued
  log := congrArg (· ++ [.copy transfer]) settles.log

theorem wait (settles : Settles machine state) :
    Settles ⟨replay machine.pending machine.memory, [], machine.log ++ [.wait]⟩
      state.afterWait where
  memory := settles.memory
  distinct := List.nodup_nil
  recorded := fun _ waiting => (List.not_mem_nil waiting).elim
  log := congrArg (· ++ [.wait]) settles.log

end Settles

/-- **The timing of the copies does not matter.** Under every schedule a separated
program has the value and the events of its synchronous run. -/
theorem Program.run_eq_sync (source : S → α) (program : Program A S α O β) {state : State A S α O}
    (separated : program.Separated source state) (schedule : Schedule) {machine : Pending A S α O}
    (settles : Settles machine state) :
    (program.run source schedule machine).1 = (program.sync source state).1 ∧
      Settles (program.run source schedule machine).2 (program.sync source state).2 := by
  induction program generalizing state schedule machine with
  | done value => exact ⟨rfl, settles⟩
  | read address next ih =>
      obtain ⟨clear, rest⟩ := separated
      have arrived := settles.deliver (schedule 0)
      simp only [run, sync, arrived.memory_eq clear]
      exact ih _ rest _ (arrived.record _)
  | write address value next ih =>
      obtain ⟨clear, rest⟩ := separated
      exact ih rest _ ((settles.deliver (schedule 0)).write clear value)
  | copy transfer next ih =>
      obtain ⟨clear, rest⟩ := separated
      exact ih rest _ ((settles.deliver (schedule 0)).copy source clear)
  | wait next ih => exact ih separated _ (settles.deliver (schedule 0)).wait
  | emit output next ih => exact ih separated _ ((settles.deliver (schedule 0)).record _)

end AsyncCopy
