import ErodeTest.Foundation.Access
import ErodeTest.Foundation.Interleaving

/-! # Interleavings over a shared memory

The parties of an interleaving store to one memory. What a party has stored so far is read
off its state; a step stores what the step adds. At any moment the memory has seen what the
parties have stored, in some order (`Interleaving.SharedSteps.exists_history`), so an
address that every party would give the same value holds this value once one of them has
stored it (`Interleaving.SharedSteps.memory_eq`).
-/

namespace Interleaving

open BufferProgram (replay)

variable {ι σ κ α : Type} [DecidableEq ι] [DecidableEq κ]

/-- One party takes a step and stores what the step adds to what it has stored. -/
def SharedStep (step : (ι → σ) → ι → σ → Prop) (stored : σ → List (κ × α))
    (before after : (ι → σ) × (κ → α)) : Prop :=
  ∃ id state added, step before.1 id state ∧ stored state = stored (before.1 id) ++ added ∧
    after = (Function.update before.1 id state, replay added before.2)

/-- Any number of steps. -/
abbrev SharedSteps (step : (ι → σ) → ι → σ → Prop) (stored : σ → List (κ × α)) :
    (ι → σ) × (κ → α) → (ι → σ) × (κ → α) → Prop :=
  Relation.ReflTransGen (SharedStep step stored)

variable {step : (ι → σ) → ι → σ → Prop} {stored : σ → List (κ × α)}
  {first parties : ι → σ} {content memory : κ → α}

/-- The steps without the memory. -/
theorem SharedSteps.steps {before after : (ι → σ) × (κ → α)}
    (steps : SharedSteps step stored before after) : Steps step before.1 after.1 := by
  induction steps with
  | refl => exact .refl
  | tail _ last ih =>
      obtain ⟨id, state, added, moves, _, rfl⟩ := last
      exact ih.tail ⟨id, state, moves, rfl⟩

/-- Steps that only add to what is stored happen over every memory. -/
theorem exists_sharedSteps
    (adds : ∀ parties id state, step parties id state → stored (parties id) <+: stored state)
    (steps : Steps step first parties) (content : κ → α) :
    ∃ memory, SharedSteps step stored (first, content) (parties, memory) := by
  induction steps with
  | refl => exact ⟨content, .refl⟩
  | tail _ last ih =>
      obtain ⟨memory, earlier⟩ := ih
      obtain ⟨id, state, moves, rfl⟩ := last
      obtain ⟨added, grown⟩ := adds _ id state moves
      exact ⟨replay added memory, earlier.tail ⟨id, state, added, moves, grown.symm, rfl⟩⟩

/-- **What the memory has seen.** It is the first one after all stores of the parties, in
some order. -/
theorem SharedSteps.exists_history (silent : ∀ id, stored (first id) = [])
    (steps : SharedSteps step stored (first, content) (parties, memory)) :
    ∃ history, memory = replay history content ∧
      ∀ entry, entry ∈ history ↔ ∃ id, entry ∈ stored (parties id) := by
  obtain ⟨final, reached⟩ : ∃ final, final = (parties, memory) := ⟨_, rfl⟩
  rw [← reached] at steps
  induction steps generalizing parties memory with
  | refl =>
      obtain ⟨rfl, rfl⟩ := Prod.mk.inj reached
      exact ⟨[], rfl, fun entry => by simp [silent]⟩
  | @tail middle _ _ last ih =>
      obtain ⟨history, same, listed⟩ := @ih middle.1 middle.2 rfl
      obtain ⟨id, state, added, _, grown, after⟩ := last
      obtain ⟨rfl, rfl⟩ := Prod.mk.inj (reached.symm.trans after)
      refine ⟨history ++ added, by rw [same, BufferProgram.replay_append], fun entry => ?_⟩
      rw [List.mem_append, listed]
      constructor
      · rintro (⟨other, earlier⟩ | new)
        · refine ⟨other, ?_⟩
          by_cases moved : other = id
          · rw [moved, Function.update_self, grown]
            exact List.mem_append_left _ (moved ▸ earlier)
          · rwa [Function.update_of_ne moved]
        · refine ⟨id, ?_⟩
          rw [Function.update_self, grown]
          exact List.mem_append_right _ new
      · rintro ⟨other, present⟩
        by_cases moved : other = id
        · rw [moved, Function.update_self, grown, List.mem_append] at present
          exact present.imp_left fun earlier => ⟨id, earlier⟩
        · rw [Function.update_of_ne moved] at present
          exact Or.inl ⟨other, present⟩

/-- An address to which only one value is ever stored holds it once a party has stored it. -/
theorem SharedSteps.memory_eq (silent : ∀ id, stored (first id) = [])
    (steps : SharedSteps step stored (first, content) (parties, memory)) {address : κ} {value : α}
    (only : ∀ id other, (address, other) ∈ stored (parties id) → other = value) :
    ((∃ id, (address, value) ∈ stored (parties id)) → memory address = value) ∧
      ((∀ id, (address, value) ∉ stored (parties id)) → memory address = content address) := by
  obtain ⟨history, rfl, listed⟩ := steps.exists_history silent
  constructor
  · intro present
    refine BufferProgram.replay_of_stored _ _ _ _ ((listed _).mpr present) fun other earlier => ?_
    obtain ⟨id, own⟩ := (listed _).mp earlier
    exact only id other own
  · intro absent
    refine BufferProgram.replay_of_not_stored _ _ _ fun other earlier => ?_
    obtain ⟨id, own⟩ := (listed _).mp earlier
    exact absent id (only id other own ▸ own)

end Interleaving
