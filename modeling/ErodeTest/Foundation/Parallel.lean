import ErodeTest.Foundation.Raster
import ErodeTest.Foundation.SharedMemory

/-! # Programs in parallel

Parties perform the accesses of their programs one at a time, in any interleaving. They read
a buffer nobody stores to and store to another, so the accesses of a party do not depend on
the others. If the parties paint with the same values, a pixel holds at any moment what it
held at first or its value (`Parallel.Runs.memory_inside`), and when all are finished the
memory is that of the programs one after the other (`Parallel.Runs.memory_eq_replay`).
-/

namespace BufferProgram.Parallel

open Interleaving

variable {ι α : Type} [DecidableEq ι]

/-- A party performs the next of its accesses. -/
def Performs (accesses : ι → List (Access α)) (parties : ι → List (Access α)) (id : ι)
    (performed : List (Access α)) : Prop :=
  performed <+: accesses id ∧ ∃ access, performed = parties id ++ [access]

/-- Any number of accesses of the parties, over the memory they store to. -/
abbrev Runs (accesses : ι → List (Access α)) :
    (ι → List (Access α)) × (ℤ → α) → (ι → List (Access α)) × (ℤ → α) → Prop :=
  SharedSteps (Performs accesses) (List.filterMap Access.store?)

variable {accesses parties : ι → List (Access α)} {content memory : ℤ → α}

theorem Runs.performed_prefix (runs : Runs accesses (fun _ => [], content) (parties, memory))
    (id : ι) : parties id <+: accesses id := by
  have initially (id : ι) : [] <+: accesses id := List.nil_prefix
  exact @Steps.invariant _ _ _ _ _ _ (fun id performed => performed <+: accesses id)
    (SharedSteps.steps runs) initially (fun _ _ _ _ performs => performs.1) id

/-! ## Finishing -/

/-- A party can perform the rest of its accesses. -/
theorem exists_runs_party (accesses parties : ι → List (Access α)) (id : ι)
    (begun : parties id <+: accesses id) (memory : ℤ → α) :
    ∃ after, Runs accesses (parties, memory)
      (Function.update parties id (accesses id), after) := by
  obtain ⟨rest, whole⟩ := begun
  induction rest generalizing parties memory with
  | nil =>
      rw [List.append_nil] at whole
      rw [← whole, Function.update_eq_self]
      exact ⟨memory, .refl⟩
  | cons access rest ih =>
      have next : parties id ++ [access] ++ rest = accesses id := by
        rw [List.append_assoc, List.singleton_append, whole]
      have first : SharedStep (Performs accesses) (List.filterMap Access.store?) (parties, memory)
          (Function.update parties id (parties id ++ [access]),
            replay (List.filterMap Access.store? [access]) memory) :=
        ⟨id, _, _, ⟨⟨rest, next⟩, access, rfl⟩, List.filterMap_append, rfl⟩
      obtain ⟨after, others⟩ :=
        ih (Function.update parties id (parties id ++ [access]))
          (replay (List.filterMap Access.store? [access]) memory)
          (by rw [Function.update_self, next])
      rw [Function.update_idem] at others
      exact ⟨after, (Relation.ReflTransGen.single first).trans others⟩

/-- **No deadlock.** Whatever the parties have performed so far, all can finish. -/
theorem Runs.exists_finished (runs : Runs accesses (fun _ => [], content) (parties, memory))
    {ids : List ι} (silent : ∀ id, id ∉ ids → accesses id = []) :
    ∃ after, Runs accesses (parties, memory) (accesses, after) := by
  have some_finished (ids : List ι) :
      ∃ after, Runs accesses (parties, memory)
        (fun id => if id ∈ ids then accesses id else parties id, after) := by
    induction ids with
    | nil =>
        simp only [List.not_mem_nil, if_false]
        exact ⟨memory, .refl⟩
    | cons id ids ih =>
        obtain ⟨middle, earlier⟩ := ih
        obtain ⟨after, last⟩ :=
          exists_runs_party accesses (fun id => if id ∈ ids then accesses id else parties id) id
            (Runs.performed_prefix (runs.trans earlier) id) middle
        refine ⟨after, earlier.trans ?_⟩
        convert last using 2
        funext other
        by_cases same : other = id
        · rw [same, Function.update_self, if_pos List.mem_cons_self]
        · rw [Function.update_of_ne same]
          simp only [List.mem_cons, same, false_or]
  obtain ⟨after, finished⟩ := some_finished ids
  refine ⟨after, ?_⟩
  convert finished using 2
  funext id
  split
  · rfl
  · next unlisted =>
      have begun := runs.performed_prefix id
      rw [silent id unlisted] at begun ⊢
      exact (List.prefix_nil.mp begun).symm

/-! ## Painting -/

section Painting

variable {w : ℤ} {regions : ι → Set (ℤ × ℤ)} {value : ℤ × ℤ → α}
  (paints : ∀ id, Paints ((accesses id).filterMap Access.store?) w (regions id) value)
  (runs : Runs accesses (fun _ => [], content) (parties, memory))

include paints runs

/-- What a party has stored so far is among what it paints. -/
theorem Runs.exists_pixel {id : ι} {k : ℤ} {v : α}
    (stored : (k, v) ∈ (parties id).filterMap Access.store?) :
    ∃ pixel ∈ regions id, k = address w pixel ∧ v = value pixel := by
  apply (paints id k v).mp
  exact (runs.performed_prefix id).sublist.filterMap _ |>.subset stored

/-- No other byte changes. -/
theorem Runs.memory_outside {k : ℤ} (outside : ∀ id, ∀ pixel ∈ regions id, k ≠ address w pixel) :
    memory k = content k := by
  have silent (id : ι) (v : α) : (k, v) ∉ (parties id).filterMap Access.store? := by
    intro stored
    obtain ⟨pixel, inside, same, _⟩ := runs.exists_pixel paints stored
    exact outside id pixel inside same
  have never (id : ι) (v : α) (stored : (k, v) ∈ (parties id).filterMap Access.store?) :
      v = content k := absurd stored (silent id v)
  exact (SharedSteps.memory_eq (fun _ => rfl) runs never).2 fun id => silent id _

variable (columns : ∀ id, ∀ pixel ∈ regions id, 0 ≤ pixel.1 ∧ pixel.1 < w)

include columns

/-- A pixel is untouched or painted; when its party has finished it is painted. -/
theorem Runs.memory_inside {id : ι} {pixel : ℤ × ℤ} (inside : pixel ∈ regions id) :
    (memory (address w pixel) = content (address w pixel) ∨
        memory (address w pixel) = value pixel) ∧
      (parties id = accesses id → memory (address w pixel) = value pixel) := by
  have only (other : ι) (v : α)
      (stored : (address w pixel, v) ∈ (parties other).filterMap Access.store?) :
      v = value pixel := by
    obtain ⟨found, foundInside, same, rfl⟩ := runs.exists_pixel paints stored
    rw [address_injective (columns id pixel inside).1 (columns id pixel inside).2
      (columns other found foundInside).1 (columns other found foundInside).2 same]
  have settled := SharedSteps.memory_eq (fun _ => rfl) runs only
  constructor
  · by_cases stored : ∃ other, (address w pixel, value pixel) ∈
        (parties other).filterMap Access.store?
    · exact Or.inr (settled.1 stored)
    · exact Or.inl (settled.2 (not_exists.mp stored))
  · intro finished
    refine settled.1 ⟨id, ?_⟩
    rw [finished]
    exact (paints id _ _).mpr ⟨pixel, inside, rfl, rfl⟩

/-- **Finished programs leave what they leave one after the other**, in any order. -/
theorem Runs.memory_eq_replay (finished : parties = accesses) {stores : List (ℤ × α)}
    (sequential : Paints stores w {pixel | ∃ id, pixel ∈ regions id} value) :
    memory = replay stores content := by
  funext k
  by_cases painted : ∃ id, ∃ pixel ∈ regions id, k = address w pixel
  · obtain ⟨id, pixel, inside, rfl⟩ := painted
    rw [(runs.memory_inside paints columns inside).2 (congrFun finished id)]
    symm
    apply sequential.replay_inside
    · rintro other ⟨party, member⟩
      exact columns party other member
    · exact ⟨id, inside⟩
  · push Not at painted
    rw [runs.memory_outside paints painted]
    symm
    apply sequential.replay_outside
    rintro pixel ⟨id, inside⟩
    exact painted id pixel inside

/-- **Interrupted programs leave some of the stores** they make one after the other. -/
theorem Runs.exists_made {stores : List (ℤ × α)}
    (sequential : Paints stores w {pixel | ∃ id, pixel ∈ regions id} value) :
    ∃ made : ℤ → Bool, memory = replay (stores.filter fun entry => made entry.1) content := by
  classical
  obtain ⟨made, chosen⟩ : ∃ made : ℤ → Bool, ∀ k, made k = true ↔ memory k ≠ content k :=
    ⟨fun k => decide (memory k ≠ content k), fun k => decide_eq_true_iff⟩
  refine ⟨made, funext fun k => ?_⟩
  by_cases kept : memory k = content k
  · rw [kept]
    refine (replay_of_not_stored _ _ _ fun v listed => ?_).symm
    exact (chosen k).mp (List.mem_filter.mp listed).2 kept
  · obtain ⟨id, pixel, inside, rfl⟩ : ∃ id, ∃ pixel ∈ regions id, k = address w pixel := by
      by_contra outside
      push Not at outside
      exact kept (runs.memory_outside paints outside)
    rw [replay_eq_lastStored, lastStored_filter ((chosen _).mpr kept), ← replay_eq_lastStored,
      sequential.replay_inside (fun other ⟨party, member⟩ => columns party other member) content
        ⟨id, inside⟩]
    exact (runs.memory_inside paints columns inside).1.resolve_left kept

end Painting

end BufferProgram.Parallel
