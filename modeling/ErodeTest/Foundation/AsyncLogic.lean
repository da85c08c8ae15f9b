import ErodeTest.Foundation.AsyncCopy
import ErodeTest.Foundation.Program

/-! # Reasoning about programs with asynchronous copies

The weakest precondition of a program demands that it is separated and that its
synchronous run ends in a state with the postcondition. One rule for each primitive,
for sequencing and for counted loops reduces it to conditions on states; by
`AsyncCopy.wp_sound` what it promises holds under every schedule.
-/

namespace AsyncCopy

open BufferProgram (forLoop forLoop_unfold trips final lt_trips_iff)

variable {A S α O β γ σ : Type} [DecidableEq A]

/-- The program is separated from the state on and ends with the postcondition. -/
def wp (source : S → α) (program : Program A S α O β) (post : β → State A S α O → Prop)
    (state : State A S α O) : Prop :=
  program.Separated source state ∧
    post (program.sync source state).1 (program.sync source state).2

variable {source : S → α} {post : β → State A S α O → Prop} {state : State A S α O}

/-- What the weakest precondition promises holds under every schedule. -/
theorem wp_sound {program : Program A S α O β} (holds : wp source program post state)
    (schedule : Schedule) :
    ∃ final : State A S α O,
      (program.run source schedule ⟨state.memory, [], state.log⟩).2.log = final.log ∧
        post (program.run source schedule ⟨state.memory, [], state.log⟩).1 final := by
  have settles : Settles ⟨state.memory, [], state.log⟩ state :=
    ⟨rfl, List.nodup_nil, fun _ waiting => (List.not_mem_nil waiting).elim, rfl⟩
  obtain ⟨value, same⟩ := program.run_eq_sync source holds.1 schedule settles
  exact ⟨_, same.log, value ▸ holds.2⟩

theorem wp_mono {program : Program A S α O β} {weaker : β → State A S α O → Prop}
    (holds : wp source program post state)
    (implies : ∀ value state, post value state → weaker value state) :
    wp source program weaker state :=
  ⟨holds.1, implies _ _ holds.2⟩

@[simp] theorem wp_pure (value : β) :
    wp source (pure value : Program A S α O β) post state ↔ post value state :=
  and_iff_right trivial

/-- A sequence is run one program after the other. -/
theorem wp_bind (program : Program A S α O γ) (next : γ → Program A S α O β) :
    wp source (program >>= next) post state ↔
      wp source program (fun value => wp source (next value) post) state := by
  change wp source (program.bind next) post state ↔ _
  induction program generalizing state with
  | done value => exact (and_iff_right trivial).symm
  | read address rest ih =>
      simp only [wp, Program.bind, Program.Separated, Program.sync] at ih ⊢
      rw [and_assoc, ih, and_assoc]
  | write address value rest ih =>
      simp only [wp, Program.bind, Program.Separated, Program.sync] at ih ⊢
      rw [and_assoc, ih, and_assoc]
  | copy transfer rest ih =>
      simp only [wp, Program.bind, Program.Separated, Program.sync] at ih ⊢
      rw [and_assoc, ih, and_assoc]
  | wait rest ih => exact ih
  | emit output rest ih => exact ih

section Primitives

variable {post : α → State A S α O → Prop} {unit : Unit → State A S α O → Prop}

theorem wp_readAt (address : A) :
    wp source (Program.readAt address) post state ↔
      address ∉ state.inFlight ∧
        post (state.memory address) (state.record (.read address (state.memory address))) := by
  simp only [wp, Program.readAt, Program.Separated, Program.sync, and_true]

theorem wp_writeAt (address : A) (value : α) :
    wp source (Program.writeAt address value) unit state ↔
      address ∉ state.inFlight ∧ unit () (state.afterWrite address value) := by
  simp only [wp, Program.writeAt, Program.Separated, Program.sync, and_true]

theorem wp_issue (transfer : List (A × S)) :
    wp source (Program.issue transfer) unit state ↔
      (state.inFlight ++ transfer.map Prod.fst).Nodup ∧
        unit () (state.afterCopy source transfer) := by
  simp only [wp, Program.issue, Program.Separated, Program.sync, and_true]

theorem wp_await :
    wp source Program.await unit state ↔ unit () state.afterWait :=
  and_iff_right trivial

theorem wp_output (output : O) :
    wp source (Program.output output) unit state ↔ unit () (state.record (.emit output)) :=
  and_iff_right trivial

end Primitives

/-- **Counted loops.** What holds at the start and is kept by every round holds at the end;
it may refer to the number of rounds. -/
theorem wp_forLoop (start stop : ℤ) {step : ℤ} (positive : 0 < step)
    (body : ℤ → σ → Program A S α O σ) (invariant : ℕ → σ → State A S α O → Prop)
    {init : σ} (initially : invariant 0 init state)
    (preserved : ∀ (n : ℕ) carried state, start + n * step < stop → invariant n carried state →
      wp source (body (start + n * step) carried) (invariant (n + 1)) state) :
    wp source (forLoop start stop step init body)
      (fun result state => result.1 = final start stop step ∧
        invariant (trips start stop step) result.2 state) state := by
  suffices rounds : ∀ (count n : ℕ) (carried : σ) (state : State A S α O),
      trips start stop step = n + count → invariant n carried state →
      wp source (forLoop (start + n * step) stop step carried body)
        (fun result state => result.1 = final start stop step ∧
          invariant (trips start stop step) result.2 state) state by
    simpa using rounds _ 0 init state (Nat.zero_add _).symm initially
  intro count
  induction count with
  | zero =>
      intro n carried state counted holds
      have finished := (lt_trips_iff start stop positive n).not.mp (by omega)
      rw [forLoop_unfold _ _ _ positive, if_neg finished, wp_pure, final, counted]
      exact ⟨rfl, holds⟩
  | succ count ih =>
      intro n carried state counted holds
      have below := (lt_trips_iff start stop positive n).mp (by omega)
      rw [forLoop_unfold _ _ _ positive, if_pos below, wp_bind]
      refine wp_mono (preserved n carried state below holds) fun carried state holds => ?_
      have next : start + n * step + step = start + (n + 1 : ℕ) * step := by
        push_cast
        ring
      rw [next]
      exact ih (n + 1) carried state (by omega) holds

end AsyncCopy
