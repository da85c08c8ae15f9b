import ErodeTest.Foundation.Access
import Mathlib.Tactic.Ring
import Mathlib.Tactic.Linarith
import Mathlib.Algebra.BigOperators.Group.List.Basic
import Mathlib.Data.List.Nodup

/-! # Buffer programs

A buffer program computes from a read-only input buffer a result and the trace
of its accesses in program order; a failed assertion ends it without a result.
Loops are counted `for` loops whose counter survives the loop, as in C.

The accesses of a kind are collected from the trace (`BufferProgram.Program.collect`);
collecting distributes over sequencing and over loops, so the loads and the stores
of a program are read off its text.
-/

namespace BufferProgram

variable {α β γ δ σ : Type}

/-- A computation over a read-only input buffer, with its trace. -/
def Program (α β : Type) : Type := (ℤ → α) → Option β × List (Access α)

namespace Program

/-- The result of a run, absent after a failed assertion. -/
def result (program : Program α β) (input : ℤ → α) : Option β := (program input).1

/-- The accesses of a run in program order. -/
def trace (program : Program α β) (input : ℤ → α) : List (Access α) := (program input).2

instance : Monad (Program α) where
  pure value := fun _ => (some value, [])
  bind program next := fun input =>
    match program input with
    | (none, trace) => (none, trace)
    | (some value, trace) => ((next value input).1, trace ++ (next value input).2)

@[ext] theorem ext {first second : Program α β}
    (results : ∀ input, first.result input = second.result input)
    (traces : ∀ input, first.trace input = second.trace input) : first = second :=
  funext fun input => Prod.ext (results input) (traces input)

@[simp] theorem result_pure (value : β) (input : ℤ → α) :
    (pure value : Program α β).result input = some value := rfl

@[simp] theorem trace_pure (value : β) (input : ℤ → α) :
    (pure value : Program α β).trace input = [] := rfl

theorem result_bind (program : Program α β) (next : β → Program α γ) (input : ℤ → α) :
    (program >>= next).result input =
      (program.result input).bind fun value => (next value).result input := by
  change (match program input with
    | (none, trace) => (none, trace)
    | (some value, trace) => ((next value input).1, trace ++ (next value input).2)).1 = _
  rcases run : program input with ⟨_ | value, trace⟩ <;> simp [result, run]

theorem trace_bind (program : Program α β) (next : β → Program α γ) (input : ℤ → α) :
    (program >>= next).trace input =
      program.trace input ++
        (program.result input).elim [] fun value => (next value).trace input := by
  change (match program input with
    | (none, trace) => (none, trace)
    | (some value, trace) => ((next value input).1, trace ++ (next value input).2)).2 = _
  rcases run : program input with ⟨_ | value, trace⟩ <;> simp [result, Program.trace, run]

/-- A program with a known result hands it on. -/
theorem result_bind_of {program : Program α β} {input : ℤ → α} {value : β}
    (present : program.result input = some value) (next : β → Program α γ) :
    (program >>= next).result input = (next value).result input := by
  rw [result_bind, present, Option.bind_some]

instance : LawfulMonad (Program α) :=
  LawfulMonad.mk' (Program α)
    (fun program => by
      ext input : 1
      · change (program >>= pure).result input = _
        simp [result_bind]
      · change (program >>= pure).trace input = _
        rcases present : program.result input <;> simp [trace_bind, present])
    (fun value next => by ext input <;> simp [result_bind, trace_bind])
    (fun program next last => by
      ext input : 1
      · simp [result_bind, Option.bind_assoc]
      · rcases first : program.result input with _ | value
        · simp [trace_bind, result_bind, first]
        · rcases second : (next value).result input <;>
            simp [trace_bind, result_bind, first, second])

@[simp] theorem result_map (f : β → γ) (program : Program α β) (input : ℤ → α) :
    (f <$> program).result input = (program.result input).map f := by
  rw [← bind_pure_comp, result_bind]
  cases program.result input <;> rfl

@[simp] theorem trace_map (f : β → γ) (program : Program α β) (input : ℤ → α) :
    (f <$> program).trace input = program.trace input := by
  rw [← bind_pure_comp, trace_bind]
  cases program.result input <;> simp

/-- Read one element of the input buffer. -/
def load (address : ℤ) : Program α α := fun input => (some (input address), [.load address])

/-- Write one element of the output buffer. -/
def store (address : ℤ) (value : α) : Program α Unit :=
  fun _ => (some (), [.store address value])

/-- End the run unless the condition holds. -/
def assert (condition : Prop) [Decidable condition] : Program α Unit :=
  fun _ => (if condition then some () else none, [])

/-- The partial sums of a sum evaluated from left to right. -/
def partialSums : ℤ → List ℤ → List ℤ
  | _, [] => []
  | total, term :: terms => (total + term) :: partialSums (total + term) terms

/-- Evaluate a sum of integers from left to right, recording every partial sum. -/
def index (terms : List ℤ) : Program α ℤ :=
  fun _ => (some terms.sum, (partialSums 0 terms).map .index)

/-- Read at an address given by a base and an evaluated index. -/
def loadAt (base : ℤ) (terms : List ℤ) : Program α α := do
  let k ← index terms
  load (base + k)

/-- Write at an address given by a base and an evaluated index. -/
def storeAt (base : ℤ) (terms : List ℤ) (value : α) : Program α Unit := do
  let k ← index terms
  store (base + k) value

@[simp] theorem result_load (address : ℤ) (input : ℤ → α) :
    (load address).result input = some (input address) := rfl

@[simp] theorem trace_load (address : ℤ) (input : ℤ → α) :
    (load address).trace input = [.load address] := rfl

@[simp] theorem result_store (address : ℤ) (value : α) (input : ℤ → α) :
    (store address value).result input = some () := rfl

@[simp] theorem trace_store (address : ℤ) (value : α) (input : ℤ → α) :
    (store address value).trace input = [.store address value] := rfl

theorem result_assert (condition : Prop) [Decidable condition] (input : ℤ → α)
    (met : condition) : (assert condition).result input = some () := if_pos met

@[simp] theorem result_index (terms : List ℤ) (input : ℤ → α) :
    (index terms).result input = some terms.sum := rfl

@[simp] theorem trace_index (terms : List ℤ) (input : ℤ → α) :
    (index terms).trace input = (partialSums 0 terms).map .index := rfl

/-! ## Collecting the accesses of one kind -/

/-- What a selection finds in the trace, in program order. -/
def collect (select : Access α → Option δ) (program : Program α β) (input : ℤ → α) : List δ :=
  (program.trace input).filterMap select

/-- The addresses read. -/
abbrev loads (program : Program α β) (input : ℤ → α) : List ℤ :=
  program.collect Access.load? input

/-- The addresses written, with the values. -/
abbrev stores (program : Program α β) (input : ℤ → α) : List (ℤ × α) :=
  program.collect Access.store? input

/-- The values of the index expressions. -/
abbrev indices (program : Program α β) (input : ℤ → α) : List ℤ :=
  program.collect Access.index? input

section Collect

variable (select : Access α → Option δ) (input : ℤ → α)

@[simp] theorem collect_pure (value : β) :
    (pure value : Program α β).collect select input = [] := rfl

theorem collect_bind (program : Program α β) (next : β → Program α γ) :
    (program >>= next).collect select input =
      program.collect select input ++
        (program.result input).elim [] fun value => (next value).collect select input := by
  rcases present : program.result input <;> simp [collect, trace_bind, present]

variable {input} in
theorem collect_bind_of {program : Program α β} {value : β}
    (present : program.result input = some value) (next : β → Program α γ) :
    (program >>= next).collect select input =
      program.collect select input ++ (next value).collect select input := by
  rw [collect_bind, present, Option.elim_some]

@[simp] theorem collect_map (f : β → γ) (program : Program α β) :
    (f <$> program).collect select input = program.collect select input := by
  simp [collect]

@[simp] theorem collect_assert (condition : Prop) [Decidable condition] :
    (assert condition).collect select input = [] := rfl

@[simp] theorem stores_load (address : ℤ) : (load address).stores input = [] := rfl

@[simp] theorem loads_store (address : ℤ) (value : α) :
    (store address value).loads input = [] := rfl

@[simp] theorem stores_store (address : ℤ) (value : α) :
    (store address value).stores input = [(address, value)] := rfl

@[simp] theorem loads_index (terms : List ℤ) : (index terms).loads input = [] := by
  simp [collect, List.filterMap_map, Function.comp_def, Access.load?]

@[simp] theorem stores_index (terms : List ℤ) : (index terms).stores input = [] := by
  simp [collect, List.filterMap_map, Function.comp_def, Access.store?]

@[simp] theorem result_loadAt (base : ℤ) (terms : List ℤ) :
    (loadAt base terms).result input = some (input (base + terms.sum)) := rfl

@[simp] theorem stores_loadAt (base : ℤ) (terms : List ℤ) :
    (loadAt base terms).stores input = [] := by
  simp [loadAt, collect_bind]

@[simp] theorem result_storeAt (base : ℤ) (terms : List ℤ) (value : α) :
    (storeAt base terms value).result input = some () := rfl

@[simp] theorem stores_storeAt (base : ℤ) (terms : List ℤ) (value : α) :
    (storeAt base terms value).stores input = [(base + terms.sum, value)] := by
  simp [storeAt, collect_bind]

end Collect

/-! ## Stepping over one primitive

These rules rewrite the front of a sequence only, so that simplification walks
a program once. -/

section Step

variable (select : Access α → Option δ) (input : ℤ → α)

@[simp] theorem collect_load_bind (address : ℤ) (next : α → Program α γ) :
    (load address >>= next).collect select input =
      (load address : Program α α).collect select input ++
        (next (input address)).collect select input :=
  collect_bind_of select (result_load address input) next

@[simp] theorem result_index_bind (terms : List ℤ) (next : ℤ → Program α γ) :
    (index terms >>= next).result input = (next terms.sum).result input :=
  result_bind_of (result_index terms input) next

@[simp] theorem collect_index_bind (terms : List ℤ) (next : ℤ → Program α γ) :
    (index terms >>= next).collect select input =
      (index terms).collect select input ++ (next terms.sum).collect select input :=
  collect_bind_of select (result_index terms input) next

@[simp] theorem result_loadAt_bind (base : ℤ) (terms : List ℤ) (next : α → Program α γ) :
    (loadAt base terms >>= next).result input = (next (input (base + terms.sum))).result input :=
  result_bind_of (result_loadAt input base terms) next

@[simp] theorem collect_loadAt_bind (base : ℤ) (terms : List ℤ) (next : α → Program α γ) :
    (loadAt base terms >>= next).collect select input =
      (loadAt base terms : Program α α).collect select input ++
        (next (input (base + terms.sum))).collect select input :=
  collect_bind_of select (result_loadAt input base terms) next

@[simp] theorem result_storeAt_bind (base : ℤ) (terms : List ℤ) (value : α)
    (next : Unit → Program α γ) :
    (storeAt base terms value >>= next).result input = (next ()).result input :=
  result_bind_of (result_storeAt input base terms value) next

@[simp] theorem collect_storeAt_bind (base : ℤ) (terms : List ℤ) (value : α)
    (next : Unit → Program α γ) :
    (storeAt base terms value >>= next).collect select input =
      (storeAt base terms value).collect select input ++ (next ()).collect select input :=
  collect_bind_of select (result_storeAt input base terms value) next

theorem result_assert_bind {condition : Prop} [Decidable condition] (met : condition)
    (next : Unit → Program α γ) :
    (assert condition >>= next).result input = (next ()).result input :=
  result_bind_of (result_assert condition input met) next

theorem collect_assert_bind {condition : Prop} [Decidable condition] (met : condition)
    (next : Unit → Program α γ) :
    (assert condition >>= next).collect select input = (next ()).collect select input := by
  rw [collect_bind_of select (result_assert condition input met), collect_assert,
    List.nil_append]

end Step

/-! ## Running a list of programs -/

section ForM

variable {ι : Type} (items : List ι) (body : ι → Program α Unit) {input : ℤ → α}
  (runs : ∀ i, (body i).result input = some ())

include runs

theorem result_forM : (forM items body).result input = some () := by
  induction items with
  | nil => rfl
  | cons item items ih => rw [List.forM_cons, result_bind_of (runs item), ih]

theorem collect_forM (select : Access α → Option δ) :
    (forM items body).collect select input =
      items.flatMap fun i => (body i).collect select input := by
  induction items with
  | nil => rfl
  | cons item items ih =>
      rw [List.forM_cons, collect_bind_of select (runs item), ih, List.flatMap_cons]

end ForM

section MapM

variable {ι : Type} (items : List ι) (body : ι → Program α β) {input : ℤ → α} {value : ι → β}
  (runs : ∀ i, (body i).result input = some (value i))

include runs

theorem result_mapM : (items.mapM body).result input = some (items.map value) := by
  induction items with
  | nil => rfl
  | cons item items ih =>
      rw [List.mapM_cons, result_bind_of (runs item), result_bind_of ih, result_pure,
        List.map_cons]

theorem collect_mapM (select : Access α → Option δ) :
    (items.mapM body).collect select input =
      items.flatMap fun i => (body i).collect select input := by
  induction items with
  | nil => rfl
  | cons item items ih =>
      rw [List.mapM_cons, collect_bind_of select (runs item),
        collect_bind_of select (result_mapM items body runs), ih, collect_pure, List.append_nil,
        List.flatMap_cons]

end MapM

end Program

/-! ## Counted loops -/

/-- `for (i = start; i < stop; i += step)` with a loop-carried state, in any
monad. The final counter is returned with the final state. -/
def forLoop {m : Type → Type} [Monad m] (start stop step : ℤ) (init : σ)
    (body : ℤ → σ → m σ) : m (ℤ × σ) :=
  go (stop - start).toNat start init
where
  /-- The loop from one counter on, for at most a number of rounds. -/
  go : ℕ → ℤ → σ → m (ℤ × σ)
    | 0, i, state => pure (i, state)
    | fuel + 1, i, state =>
        if i < stop then do
          let state ← body i state
          go fuel (i + step) state
        else pure (i, state)

section ForLoop

variable {m : Type → Type} [Monad m] (stop step : ℤ) (body : ℤ → σ → m σ)

/-- Rounds beyond the distance to the bound are never used. -/
private theorem forLoop_go_stable (positive : 0 < step) :
    ∀ (fuel more : ℕ) (i : ℤ) (state : σ), stop - i ≤ fuel → fuel ≤ more →
      forLoop.go stop step body more i state = forLoop.go stop step body fuel i state := by
  intro fuel
  induction fuel with
  | zero =>
      intro more i state enough _
      cases more with
      | zero => rfl
      | succ more => simp only [forLoop.go, show ¬ i < stop by omega, if_false]
  | succ fuel ih =>
      intro more i state enough below
      cases more with
      | zero => omega
      | succ more =>
          simp only [forLoop.go]
          split
          · congr 1
            funext state
            exact ih more (i + step) state (by omega) (by omega)
          · rfl

/-- The loop runs its body while the counter is below the bound: the rounds
never run out. -/
theorem forLoop_unfold (positive : 0 < step) (start : ℤ) (init : σ) :
    forLoop start stop step init body =
      if start < stop then body start init >>= fun state =>
        forLoop (start + step) stop step state body
      else pure (start, init) := by
  by_cases below : start < stop
  · rw [if_pos below]
    have rounds : (stop - start).toNat = (stop - start - 1).toNat + 1 := by omega
    simp only [forLoop, rounds, forLoop.go, below, if_true]
    congr 1
    funext state
    exact forLoop_go_stable stop step body positive _ _ _ state (by omega) (by omega)
  · rw [if_neg below]
    have rounds : (stop - start).toNat = 0 := by omega
    simp only [forLoop, rounds, forLoop.go]

end ForLoop

/-- The number of rounds of a counted loop. -/
def trips (start stop step : ℤ) : ℕ := ((stop - start + step - 1) / step).toNat

theorem lt_trips_iff (start stop : ℤ) {step : ℤ} (positive : 0 < step) (n : ℕ) :
    n < trips start stop step ↔ start + n * step < stop := by
  have divided := Int.le_ediv_iff_mul_le (a := (n : ℤ) + 1) (b := stop - start + step - 1) positive
  have expanded : ((n : ℤ) + 1) * step = n * step + step := by ring
  rw [expanded] at divided
  unfold trips
  constructor
  · intro below
    have := divided.mp (by omega)
    linarith
  · intro below
    have := divided.mpr (by linarith)
    omega

@[simp] theorem trips_one (start stop : ℤ) : trips start stop 1 = (stop - start).toNat := by
  simp [trips]

theorem trips_of_le {start stop step : ℤ} (positive : 0 < step) (done : stop ≤ start) :
    trips start stop step = 0 := by
  by_contra nonzero
  have := (lt_trips_iff start stop positive 0).mp (Nat.pos_of_ne_zero nonzero)
  simp only [Nat.cast_zero, zero_mul, add_zero] at this
  omega

theorem trips_of_lt {start stop step : ℤ} (positive : 0 < step) (below : start < stop) :
    trips start stop step = trips (start + step) stop step + 1 := by
  have moved : stop - start + step - 1 = (stop - (start + step) + step - 1) + 1 * step := by ring
  have split : (stop - start + step - 1) / step =
      (stop - (start + step) + step - 1) / step + 1 := by
    rw [moved, Int.add_mul_ediv_right _ _ positive.ne']
  have nonneg : 0 ≤ (stop - (start + step) + step - 1) / step :=
    Int.ediv_nonneg (by omega) positive.le
  unfold trips
  omega

/-- The values of the counter for which a loop runs its body. -/
def counters (start stop step : ℤ) : List ℤ :=
  (List.range (trips start stop step)).map fun n : ℕ => start + n * step

/-- The value of the counter after the loop. -/
def final (start stop step : ℤ) : ℤ := start + trips start stop step * step

section Counters

variable {start stop step : ℤ} (positive : 0 < step)

include positive

theorem counters_of_le (done : stop ≤ start) : counters start stop step = [] := by
  rw [counters, trips_of_le positive done, List.range_zero, List.map_nil]

theorem counters_of_lt (below : start < stop) :
    counters start stop step = start :: counters (start + step) stop step := by
  rw [counters, trips_of_lt positive below, List.range_succ_eq_map, List.map_cons, List.map_map]
  simp only [Nat.cast_zero, zero_mul, add_zero, counters, List.cons.injEq, true_and]
  apply List.map_congr_left
  intro n _
  simp only [Function.comp_apply, Nat.succ_eq_add_one, Nat.cast_add, Nat.cast_one]
  ring

theorem final_of_le (done : stop ≤ start) : final start stop step = start := by
  simp [final, trips_of_le positive done]

theorem final_of_lt (below : start < stop) :
    final start stop step = final (start + step) stop step := by
  simp only [final, trips_of_lt positive below, Nat.cast_add, Nat.cast_one]
  ring

theorem mem_counters {i : ℤ} :
    i ∈ counters start stop step ↔ ∃ n : ℕ, i = start + n * step ∧ i < stop := by
  simp only [counters, List.mem_map, List.mem_range, lt_trips_iff start stop positive]
  constructor
  · rintro ⟨n, below, rfl⟩
    exact ⟨n, rfl, below⟩
  · rintro ⟨n, rfl, below⟩
    exact ⟨n, below, rfl⟩

theorem counters_nodup : (counters start stop step).Nodup := by
  refine List.Nodup.map (fun n m same => ?_) List.nodup_range
  have scaled : (n : ℤ) * step = m * step := by linarith
  exact Int.ofNat_injective (mul_right_cancel₀ positive.ne' scaled)

/-- The first counter value that is not below the bound ends the loop. -/
theorem final_bounds (ordered : start ≤ stop) :
    stop ≤ final start stop step ∧ final start stop step < stop + step := by
  have past := (lt_trips_iff start stop positive (trips start stop step)).not.mp (lt_irrefl _)
  refine ⟨not_lt.mp past, ?_⟩
  rcases none : trips start stop step with _ | n
  · simp only [final, none, Nat.cast_zero, zero_mul, add_zero]
    omega
  · have before := (lt_trips_iff start stop positive n).mp (by omega)
    simp only [final, none, Nat.cast_add, Nat.cast_one]
    linarith

end Counters

@[simp] theorem mem_counters_one {start stop i : ℤ} :
    i ∈ counters start stop 1 ↔ start ≤ i ∧ i < stop := by
  rw [mem_counters one_pos]
  constructor
  · rintro ⟨n, rfl, below⟩
    omega
  · rintro ⟨above, below⟩
    exact ⟨(i - start).toNat, by omega, below⟩

/-- The last round of a loop with step one. -/
theorem counters_one_snoc {start stop : ℤ} (ordered : start ≤ stop) :
    counters start (stop + 1) 1 = counters start stop 1 ++ [stop] := by
  have rounds : (stop + 1 - start).toNat = (stop - start).toNat + 1 := by omega
  have last : start + ((stop - start).toNat : ℤ) * 1 = stop := by omega
  rw [counters, counters, trips_one, trips_one, rounds, List.range_succ, List.map_append,
    List.map_singleton, last]

theorem counters_shift (start count : ℤ) :
    counters start (start + count) 1 = (counters 0 count 1).map (start + ·) := by
  simp [counters, Function.comp_def]

/-- Two adjacent loops with step one count like one loop. -/
theorem counters_one_append {start middle stop : ℤ} (first : start ≤ middle)
    (second : middle ≤ stop) :
    counters start middle 1 ++ counters middle stop 1 = counters start stop 1 := by
  induction stop, second using Int.leInduction with
  | base => simp [counters_of_le one_pos le_rfl]
  | succ stop ordered ih =>
      rw [counters_one_snoc ordered, ← List.append_assoc, ih, counters_one_snoc (by omega)]

/-- Counting the columns row by row counts the addresses. -/
theorem counters_rows {w first stop : ℤ} (positive : 0 ≤ w) (ordered : first ≤ stop) :
    ((counters first stop 1).flatMap fun y => counters (y * w) (y * w + w) 1) =
      counters (first * w) (stop * w) 1 := by
  induction stop, ordered using Int.leInduction with
  | base => simp [counters_of_le one_pos le_rfl]
  | succ stop ordered ih =>
      have next : (stop + 1) * w = stop * w + w := by ring
      rw [counters_one_snoc ordered, List.flatMap_append, ih, next]
      simp only [List.flatMap_cons, List.flatMap_nil, List.append_nil]
      exact counters_one_append (mul_le_mul_of_nonneg_right ordered positive) (by omega)

/-- The rows of an image: the first, those between, the last. -/
theorem counters_ends {n : ℤ} (several : 2 ≤ n) :
    counters 0 n 1 = 0 :: (counters 1 (n - 1) 1 ++ [n - 1]) := by
  rw [counters_of_lt one_pos (by omega), zero_add, ← counters_one_snoc (by omega), sub_add_cancel]

theorem final_one {start stop : ℤ} (ordered : start ≤ stop) : final start stop 1 = stop := by
  have := final_bounds one_pos ordered
  omega

namespace Program

section ForLoop

variable (start stop : ℤ) {step : ℤ} (positive : 0 < step) (body : ℤ → σ → Program α σ)
  (input : ℤ → α) (state : ℤ → σ)
  (runs : ∀ i ∈ counters start stop step,
    (body i (state i)).result input = some (state (i + step)))

include positive runs

/-- A loop whose rounds all succeed, the carried state being a known function
of the counter, ends with that function's value at the final counter. -/
theorem result_forLoop :
    (forLoop start stop step (state start) body).result input =
      some (final start stop step, state (final start stop step)) := by
  obtain ⟨count, counted⟩ : ∃ count, trips start stop step = count := ⟨_, rfl⟩
  induction count generalizing start with
  | zero =>
      have done : stop ≤ start := by
        by_contra below
        rw [trips_of_lt positive (by omega)] at counted
        omega
      rw [forLoop_unfold _ _ _ positive, if_neg (by omega), final_of_le positive done, result_pure]
  | succ count ih =>
      have below : start < stop := by
        by_contra done
        rw [trips_of_le positive (by omega)] at counted
        omega
      rw [counters_of_lt positive below] at runs
      rw [forLoop_unfold _ _ _ positive, if_pos below, result_bind,
        runs start List.mem_cons_self, Option.bind_some, final_of_lt positive below]
      exact ih (start + step) (fun i member => runs i (List.mem_cons_of_mem _ member))
        (by rw [trips_of_lt positive below] at counted; omega)

/-- The accesses of a loop are those of its rounds one after the other. -/
theorem collect_forLoop (select : Access α → Option δ) :
    (forLoop start stop step (state start) body).collect select input =
      (counters start stop step).flatMap fun i => (body i (state i)).collect select input := by
  obtain ⟨count, counted⟩ : ∃ count, trips start stop step = count := ⟨_, rfl⟩
  induction count generalizing start with
  | zero =>
      have done : stop ≤ start := by
        by_contra below
        rw [trips_of_lt positive (by omega)] at counted
        omega
      rw [forLoop_unfold _ _ _ positive, if_neg (by omega), counters_of_le positive done]
      rfl
  | succ count ih =>
      have below : start < stop := by
        by_contra done
        rw [trips_of_le positive (by omega)] at counted
        omega
      rw [counters_of_lt positive below] at runs ⊢
      rw [forLoop_unfold _ _ _ positive, if_pos below, collect_bind,
        runs start List.mem_cons_self, Option.elim_some, List.flatMap_cons,
        ih (start + step) (fun i member => runs i (List.mem_cons_of_mem _ member))
          (by rw [trips_of_lt positive below] at counted; omega)]

end ForLoop

end Program

/-- A counted loop that carries nothing but its counter. -/
def forRange {m : Type → Type} [Monad m] (start stop step : ℤ) (body : ℤ → m Unit) : m ℤ := do
  let (i, _) ← forLoop start stop step () fun i _ => body i
  pure i

namespace Program

section ForRange

variable (start stop : ℤ) {step : ℤ} (positive : 0 < step) (body : ℤ → Program α Unit)
  (input : ℤ → α) (runs : ∀ i, (body i).result input = some ())

include positive runs

theorem result_forRange :
    (forRange start stop step body).result input = some (final start stop step) := by
  have loop := result_forLoop start stop positive
    (fun i (_ : Unit) => body i) input (fun _ => ()) fun i _ => runs i
  simp only [forRange, result_bind, loop, Option.bind_some, result_pure]

theorem collect_forRange (select : Access α → Option δ) :
    (forRange start stop step body).collect select input =
      (counters start stop step).flatMap fun i => (body i).collect select input := by
  have result := result_forLoop start stop positive
    (fun i (_ : Unit) => body i) input (fun _ => ()) fun i _ => runs i
  have loop := collect_forLoop start stop positive
    (fun i (_ : Unit) => body i) input (fun _ => ()) (fun i _ => runs i) select
  simp only [forRange, collect_bind, loop, result, Option.elim_some, collect_pure,
    List.append_nil]

@[simp] theorem result_forRange_bind (next : ℤ → Program α γ) :
    (forRange start stop step body >>= next).result input =
      (next (final start stop step)).result input :=
  result_bind_of (result_forRange start stop positive body input runs) next

@[simp] theorem collect_forRange_bind (select : Access α → Option δ) (next : ℤ → Program α γ) :
    (forRange start stop step body >>= next).collect select input =
      ((counters start stop step).flatMap fun i => (body i).collect select input) ++
        (next (final start stop step)).collect select input := by
  rw [collect_bind_of select (result_forRange start stop positive body input runs),
    collect_forRange start stop positive body input runs]

end ForRange

end Program

end BufferProgram
