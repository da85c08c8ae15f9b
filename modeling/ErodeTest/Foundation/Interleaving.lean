import Mathlib.Data.List.Nodup
import Mathlib.Logic.Function.Basic
import Mathlib.Logic.Relation

/-! # Interleavings

Several parties take steps in any order. What a party can do may depend on the states of
all, as when they draw on one resource; a step changes the state of one party.
-/

namespace Interleaving

variable {ι σ : Type} [DecidableEq ι]

/-- One party takes a step. -/
def Interleaves (step : (ι → σ) → ι → σ → Prop) (before after : ι → σ) : Prop :=
  ∃ id state, step before id state ∧ after = Function.update before id state

/-- Any number of steps. -/
abbrev Steps (step : (ι → σ) → ι → σ → Prop) : (ι → σ) → (ι → σ) → Prop :=
  Relation.ReflTransGen (Interleaves step)

variable {step : (ι → σ) → ι → σ → Prop} {first parties : ι → σ}

/-- **Invariants.** What holds of every party at the start, and of a party after its own
steps as long as it holds of all, holds of every party. -/
theorem Steps.invariant {holds : ι → σ → Prop} (steps : Steps step first parties)
    (initially : ∀ id, holds id (first id))
    (kept : ∀ parties id state, (∀ other, holds other (parties other)) →
      step parties id state → holds id state) (id : ι) : holds id (parties id) := by
  induction steps generalizing id with
  | refl => exact initially id
  | tail _ last ih =>
      obtain ⟨mover, state, moves, rfl⟩ := last
      by_cases moved : id = mover
      · rw [moved, Function.update_self]
        exact kept _ mover state ih moves
      · rw [Function.update_of_ne moved]
        exact ih id

/-- The steps of one party alone. -/
theorem steps_of_party {own : σ → σ → Prop} {id : ι}
    (enabled : ∀ parties state, own (parties id) state → step parties id state) {state : σ}
    (moves : Relation.ReflTransGen own (parties id) state) :
    Steps step parties (Function.update parties id state) := by
  induction moves with
  | refl => rw [Function.update_eq_self]
  | @tail middle final _ last ih =>
      refine ih.tail ⟨id, final, enabled _ _ ?_, ?_⟩
      · rw [Function.update_self]
        exact last
      · rw [Function.update_idem]

/-- The parties can run one after the other. -/
theorem exists_steps {finished : ι → σ → Prop} {idle : σ} {ids : List ι} (nodup : ids.Nodup)
    (runs : ∀ parties id, id ∈ ids → parties id = idle →
      ∃ state, finished id state ∧ Steps step parties (Function.update parties id state)) :
    ∃ parties, Steps step (fun _ => idle) parties ∧ (∀ id ∈ ids, finished id (parties id)) ∧
      ∀ id, id ∉ ids → parties id = idle := by
  induction ids with
  | nil => exact ⟨_, .refl, fun id listed => absurd listed List.not_mem_nil, fun _ _ => rfl⟩
  | cons id ids ih =>
      obtain ⟨fresh, others⟩ := List.nodup_cons.mp nodup
      obtain ⟨parties, steps, done, waiting⟩ := ih others fun parties other listed =>
        runs parties other (List.mem_cons_of_mem _ listed)
      obtain ⟨state, ended, own⟩ := runs parties id List.mem_cons_self (waiting id fresh)
      refine ⟨_, steps.trans own, fun other listed => ?_, fun other unlisted => ?_⟩
      · by_cases same : other = id
        · rw [same, Function.update_self]
          exact ended
        · rw [Function.update_of_ne same]
          exact done other ((List.mem_cons.mp listed).resolve_left same)
      · rw [List.mem_cons, not_or] at unlisted
        rw [Function.update_of_ne unlisted.1]
        exact waiting other unlisted.2

end Interleaving
