import Mathlib.Data.List.Basic

/-! # Programs that may throw

A program changes a state and ends with a value or throws an error; the state it has
reached by then stays. A precondition is found from a condition on the value and the state
at a normal end and one on the error and the state at a throw (`Fallible.wp`), by one rule
for each primitive and for sequencing.
-/

/-- A program over states `σ` that may throw an error `ε`. -/
def Fallible (σ ε α : Type) : Type := σ → Except ε α × σ

namespace Fallible

variable {σ ε α β : Type}

/-- Go on with the value; a throw ends the sequence. -/
def bind (program : Fallible σ ε α) (next : α → Fallible σ ε β) : Fallible σ ε β := fun state =>
  match program state with
  | (.ok value, after) => next value after
  | (.error error, after) => (.error error, after)

instance : Monad (Fallible σ ε) where
  pure value := fun state => (.ok value, state)
  bind := bind

/-! ## The primitives -/

def get : Fallible σ ε σ := fun state => (.ok state, state)

def modify (change : σ → σ) : Fallible σ ε Unit := fun state => (.ok (), change state)

def throw (error : ε) : Fallible σ ε α := fun state => (.error error, state)

/-- Throw if there is an error. -/
def attempt : Option ε → Fallible σ ε Unit
  | none => pure ()
  | some error => throw error

/-- Throw an error unless a condition holds. -/
def ensure (condition : Prop) [Decidable condition] (error : ε) : Fallible σ ε Unit :=
  if condition then pure () else throw error

/-- The value of an option, or an error. -/
def ofOption (error : ε) : Option α → Fallible σ ε α
  | none => throw error
  | some value => pure value

/-- Run one program for each entry of a list. -/
def each (action : α → Fallible σ ε Unit) : List α → Fallible σ ε Unit
  | [] => pure ()
  | entry :: entries => do
    action entry
    each action entries

/-- Run a program and then clean up, also when it throws. -/
def cleaning (program : Fallible σ ε α) (cleanup : σ → σ) : Fallible σ ε α := fun state =>
  ((program state).1, cleanup (program state).2)

/-- Run a program and handle its error. -/
def catching (program : Fallible σ ε α) (handler : ε → Fallible σ ε α) : Fallible σ ε α :=
  fun state =>
    match program state with
    | (.ok value, after) => (.ok value, after)
    | (.error error, after) => handler error after

/-! ## Preconditions -/

/-- From the state the program ends normally with the one condition or throws with the
other. -/
def wp (program : Fallible σ ε α) (post : α → σ → Prop) (thrown : ε → σ → Prop) (state : σ) :
    Prop :=
  match program state with
  | (.ok value, after) => post value after
  | (.error error, after) => thrown error after

section Rules

variable {post : α → σ → Prop} {thrown : ε → σ → Prop} {state after : σ}

theorem wp_ok {program : Fallible σ ε α} (holds : wp program post thrown state) {value : α}
    (ended : program state = (.ok value, after)) : post value after := by
  rw [wp, ended] at holds
  exact holds

theorem wp_error {program : Fallible σ ε α} (holds : wp program post thrown state) {error : ε}
    (ended : program state = (.error error, after)) : thrown error after := by
  rw [wp, ended] at holds
  exact holds

/-- A program that throws nowhere ends normally. -/
theorem wp_total {program : Fallible σ ε α} (holds : wp program post (fun _ _ => False) state) :
    ∃ value, (program state).1 = .ok value ∧ post value (program state).2 := by
  unfold wp at holds
  split at holds
  · next value after ended => exact ⟨value, by rw [ended], by rw [ended]; exact holds⟩
  · exact holds.elim

/-- What is left, whether the program ends normally or not. -/
theorem wp_left {program : Fallible σ ε α} {left : σ → Prop}
    (holds : wp program (fun _ => left) (fun _ => left) state) : left (program state).2 := by
  unfold wp at holds
  split at holds
  · next value after ended => rw [ended]; exact holds
  · next error after ended => rw [ended]; exact holds

theorem wp_mono {program : Fallible σ ε α} (holds : wp program post thrown state)
    {post' : α → σ → Prop} {thrown' : ε → σ → Prop}
    (weaker : ∀ value after, post value after → post' value after)
    (weakerThrown : ∀ error after, thrown error after → thrown' error after) :
    wp program post' thrown' state := by
  unfold wp at holds ⊢
  split at holds
  · exact weaker _ _ holds
  · exact weakerThrown _ _ holds

theorem wp_and {program : Fallible σ ε α} {post' : α → σ → Prop} {thrown' : ε → σ → Prop}
    (holds : wp program post thrown state) (also : wp program post' thrown' state) :
    wp program (fun value after => post value after ∧ post' value after)
      (fun error after => thrown error after ∧ thrown' error after) state := by
  unfold wp at holds also ⊢
  split at holds
  · next ended => rw [ended] at also; exact ⟨holds, also⟩
  · next ended => rw [ended] at also; exact ⟨holds, also⟩

@[simp] theorem wp_pure (value : α) :
    wp (pure value : Fallible σ ε α) post thrown state ↔ post value state := Iff.rfl

@[simp] theorem wp_bind (program : Fallible σ ε β) (next : β → Fallible σ ε α) :
    wp (program >>= next) post thrown state ↔
      wp program (fun value middle => wp (next value) post thrown middle) thrown state := by
  change wp (program.bind next) post thrown state ↔ _
  unfold wp bind
  rcases program state with ⟨error | value, after⟩
  · rfl
  · rfl

@[simp] theorem wp_get {post : σ → σ → Prop} :
    wp (get : Fallible σ ε σ) post thrown state ↔ post state state := Iff.rfl

@[simp] theorem wp_modify {post : Unit → σ → Prop} (change : σ → σ) :
    wp (modify change : Fallible σ ε Unit) post thrown state ↔ post () (change state) := Iff.rfl

@[simp] theorem wp_throw (error : ε) :
    wp (throw error : Fallible σ ε α) post thrown state ↔ thrown error state := Iff.rfl

theorem wp_attempt {post : Unit → σ → Prop} (outage : Option ε) (goes : post () state)
    (stops : ∀ error, thrown error state) : wp (attempt outage) post thrown state := by
  cases outage with
  | none => exact goes
  | some error => exact stops error

theorem wp_ensure {post : Unit → σ → Prop} (condition : Prop) [Decidable condition] (error : ε)
    (goes : condition → post () state) (stops : thrown error state) :
    wp (ensure condition error) post thrown state := by
  unfold ensure
  split
  · next holds => exact goes holds
  · exact stops

theorem wp_ensure_of {post : Unit → σ → Prop} {condition : Prop} [Decidable condition]
    (holds : condition) (error : ε) (goes : post () state) :
    wp (ensure condition error) post thrown state := by
  rw [ensure, if_pos holds]
  exact goes

@[simp] theorem wp_ofOption_some (error : ε) (value : α) :
    wp (ofOption error (some value)) post thrown state ↔ post value state := Iff.rfl

theorem wp_ofOption (error : ε) (option : Option α)
    (goes : ∀ value, option = some value → post value state) (stops : thrown error state) :
    wp (ofOption error option) post thrown state := by
  cases option with
  | none => exact stops
  | some value => exact goes value rfl

@[simp] theorem wp_cleaning (program : Fallible σ ε α) (cleanup : σ → σ) :
    wp (cleaning program cleanup) post thrown state ↔
      wp program (fun value after => post value (cleanup after))
        (fun error after => thrown error (cleanup after)) state := by
  unfold wp cleaning
  rcases program state with ⟨error | value, after⟩
  · rfl
  · rfl

@[simp] theorem wp_catching (program : Fallible σ ε α) (handler : ε → Fallible σ ε α) :
    wp (catching program handler) post thrown state ↔
      wp program post (fun error after => wp (handler error) post thrown after) state := by
  unfold wp catching
  rcases program state with ⟨error | value, after⟩
  · rfl
  · rfl

/-- An invariant of the single programs holds after all of them. -/
theorem wp_each {action : β → Fallible σ ε Unit} {invariant : σ → Prop} (entries : List β)
    (holds : invariant state)
    (kept : ∀ entry ∈ entries, ∀ state, invariant state →
      wp (action entry) (fun _ => invariant) thrown state) :
    wp (each action entries) (fun _ => invariant) thrown state := by
  induction entries generalizing state with
  | nil => exact holds
  | cons entry entries ih =>
      rw [each, wp_bind]
      apply wp_mono (kept entry List.mem_cons_self state holds)
      · exact fun _ after middle =>
          ih middle fun other listed => kept other (List.mem_cons_of_mem _ listed)
      · exact fun _ _ stopped => stopped

end Rules

end Fallible
