import ErodeTest.Foundation.Program

/-! # Properties of all accesses

What holds of every access of a run is read off the program's text: a sequence has
the property when its parts have it, a loop when its rounds do.
-/

namespace BufferProgram.Program

variable {α β γ : Type}

/-- Every access of the run has the property. -/
def Every (property : Access α → Prop) (program : Program α β) (input : ℤ → α) : Prop :=
  ∀ access ∈ program.trace input, property access

section Every

variable (property : Access α → Prop) (input : ℤ → α)

theorem every_iff_collect (program : Program α β) :
    program.Every property input ↔ ∀ access ∈ program.collect some input, property access := by
  rw [collect, List.filterMap_some, Every]

@[simp] theorem every_pure (value : β) :
    (pure value : Program α β).Every property input := by
  simp [Every]

theorem every_bind_of {program : Program α β} {value : β}
    (present : program.result input = some value) (next : β → Program α γ) :
    (program >>= next).Every property input ↔
      program.Every property input ∧ (next value).Every property input := by
  simp only [every_iff_collect, collect_bind_of some present, List.forall_mem_append]

@[simp] theorem every_map (f : β → γ) (program : Program α β) :
    (f <$> program).Every property input ↔ program.Every property input := by
  simp [Every]

@[simp] theorem every_index (terms : List ℤ) :
    (index terms).Every property input ↔ ∀ n ∈ partialSums 0 terms, property (.index n) := by
  simp [Every]

@[simp] theorem every_loadAt (base : ℤ) (terms : List ℤ) :
    (loadAt base terms).Every property input ↔
      (∀ n ∈ partialSums 0 terms, property (.index n)) ∧ property (.load (base + terms.sum)) := by
  rw [loadAt, every_bind_of property input (result_index terms input), every_index]
  simp [Every]

@[simp] theorem every_storeAt (base : ℤ) (terms : List ℤ) (value : α) :
    (storeAt base terms value).Every property input ↔
      (∀ n ∈ partialSums 0 terms, property (.index n)) ∧
        property (.store (base + terms.sum) value) := by
  rw [storeAt, every_bind_of property input (result_index terms input), every_index]
  simp [Every]

@[simp] theorem every_index_bind (terms : List ℤ) (next : ℤ → Program α γ) :
    (index terms >>= next).Every property input ↔
      (index terms : Program α ℤ).Every property input ∧
        (next terms.sum).Every property input :=
  every_bind_of property input (result_index terms input) next

@[simp] theorem every_loadAt_bind (base : ℤ) (terms : List ℤ) (next : α → Program α γ) :
    (loadAt base terms >>= next).Every property input ↔
      (loadAt base terms : Program α α).Every property input ∧
        (next (input (base + terms.sum))).Every property input :=
  every_bind_of property input (result_loadAt input base terms) next

@[simp] theorem every_storeAt_bind (base : ℤ) (terms : List ℤ) (value : α)
    (next : Unit → Program α γ) :
    (storeAt base terms value >>= next).Every property input ↔
      (storeAt base terms value).Every property input ∧ (next ()).Every property input :=
  every_bind_of property input (result_storeAt input base terms value) next

/-- A loop has the property when its rounds and what follows it do. -/
@[simp] theorem every_forRange_bind (start stop : ℤ) {step : ℤ} (positive : 0 < step)
    (body : ℤ → Program α Unit) (runs : ∀ i, (body i).result input = some ())
    (next : ℤ → Program α γ) :
    (forRange start stop step body >>= next).Every property input ↔
      (∀ i ∈ counters start stop step, (body i).Every property input) ∧
        (next (final start stop step)).Every property input := by
  simp only [every_iff_collect, collect_forRange_bind start stop positive body input runs some next,
    List.forall_mem_append, List.forall_mem_flatMap]

theorem Every.loads {program : Program α β} (every : program.Every property input) {k : ℤ}
    (member : k ∈ program.loads input) : property (.load k) := by
  obtain ⟨access, traced, found⟩ := List.mem_filterMap.mp member
  cases access <;> simp_all [Access.load?, Every]

theorem Every.stores {program : Program α β} (every : program.Every property input) {k : ℤ}
    {value : α} (member : (k, value) ∈ program.stores input) : property (.store k value) := by
  obtain ⟨access, traced, found⟩ := List.mem_filterMap.mp member
  cases access <;> simp_all [Access.store?, Every]

theorem Every.indices {program : Program α β} (every : program.Every property input) {n : ℤ}
    (member : n ∈ program.indices input) : property (.index n) := by
  obtain ⟨access, traced, found⟩ := List.mem_filterMap.mp member
  cases access <;> simp_all [Access.index?, Every]

end Every

end BufferProgram.Program
