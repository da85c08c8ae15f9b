import Mathlib.Data.Int.Basic
import Mathlib.Data.List.Perm.Basic
import Mathlib.Data.List.Lex
import Mathlib.Logic.Function.Basic
import Mathlib.Tactic.Common

/-! # Accesses of a buffer program

A buffer program reads one input buffer and writes one output buffer, both
addressed by integers counted from the first element of the buffer. Its run
leaves a trace of accesses; replaying the stores of a trace on an initial
content gives the final content of the output buffer.

Replaying does not depend on the order of the stores where all stores to one
address agree (`BufferProgram.replay_of_stored`), which is what lets
overlapping tiles and reordered work-items be treated alike.
-/

namespace BufferProgram

variable {α : Type}

/-- One access of a buffer program. An `index` records the value of an integer
expression the program evaluated on the way to an address or a loop bound. -/
inductive Access (α : Type) where
  | load (address : ℤ)
  | store (address : ℤ) (value : α)
  | index (value : ℤ)
  deriving DecidableEq, Repr

namespace Access

/-- The address of a load. -/
def load? : Access α → Option ℤ
  | .load address => some address
  | _ => none

/-- The address and the value of a store. -/
def store? : Access α → Option (ℤ × α)
  | .store address value => some (address, value)
  | _ => none

/-- The value of an index expression. -/
def index? : Access α → Option ℤ
  | .index value => some value
  | _ => none

end Access

section Replay

variable {κ : Type} [DecidableEq κ]

/-- The content of a buffer after a sequence of stores. -/
def replay (stores : List (κ × α)) (content : κ → α) : κ → α :=
  stores.foldl (fun content entry => Function.update content entry.1 entry.2) content

@[simp] theorem replay_nil (content : κ → α) : replay [] content = content := rfl

@[simp] theorem replay_cons (entry : κ × α) (stores : List (κ × α)) (content : κ → α) :
    replay (entry :: stores) content =
      replay stores (Function.update content entry.1 entry.2) := rfl

theorem replay_append (first second : List (κ × α)) (content : κ → α) :
    replay (first ++ second) content = replay second (replay first content) :=
  List.foldl_append

/-- An address no store names keeps its content. -/
theorem replay_of_not_stored (stores : List (κ × α)) (content : κ → α) (address : κ)
    (untouched : ∀ value, (address, value) ∉ stores) :
    replay stores content address = content address := by
  induction stores generalizing content with
  | nil => rfl
  | cons entry stores ih =>
      have different : address ≠ entry.1 := by
        intro same
        exact untouched entry.2 (by simp [same])
      rw [replay_cons, ih _ fun value member => untouched value (List.mem_cons_of_mem _ member),
        Function.update_of_ne different]

/-- A store to an address no later store names may come last. -/
theorem replay_update (stores : List (κ × α)) (content : κ → α) (address : κ) (value : α)
    (untouched : ∀ other, (address, other) ∉ stores) :
    replay stores (Function.update content address value) =
      Function.update (replay stores content) address value := by
  induction stores generalizing content with
  | nil => rfl
  | cons entry stores ih =>
      have different : entry.1 ≠ address := by
        intro same
        exact untouched entry.2 (by simp [← same])
      rw [replay_cons, replay_cons, Function.update_comm different.symm,
        ih _ fun other member => untouched other (List.mem_cons_of_mem _ member)]

/-- Where every store to an address carries the same value, one store suffices
to leave that value, in whatever order the stores come. -/
theorem replay_of_stored (stores : List (κ × α)) (content : κ → α) (address : κ) (value : α)
    (stored : (address, value) ∈ stores)
    (agree : ∀ other, (address, other) ∈ stores → other = value) :
    replay stores content address = value := by
  induction stores generalizing content with
  | nil => cases stored
  | cons entry stores ih =>
      rw [replay_cons]
      by_cases later : ∃ other, (address, other) ∈ stores
      · obtain ⟨other, member⟩ := later
        have same := agree other (List.mem_cons_of_mem _ member)
        subst same
        exact ih _ member fun another found => agree another (List.mem_cons_of_mem _ found)
      · rw [replay_of_not_stored _ _ _ fun other member => later ⟨other, member⟩]
        rcases List.mem_cons.mp stored with here | there
        · rw [← here, Function.update_self]
        · exact (later ⟨value, there⟩).elim

/-- The value the last store to an address leaves there. -/
def lastStored : List (κ × α) → κ → Option α
  | [], _ => none
  | entry :: stores, address =>
      (lastStored stores address).or (if entry.1 = address then some entry.2 else none)

/-- Nothing was stored last where nothing was stored. -/
theorem lastStored_eq_none_iff {stores : List (κ × α)} {address : κ} :
    lastStored stores address = none ↔ ∀ value, (address, value) ∉ stores := by
  induction stores with
  | nil => simp [lastStored]
  | cons entry stores ih =>
      obtain ⟨key, value⟩ := entry
      by_cases here : key = address
      · refine iff_of_false (by simp [lastStored, here]) fun untouched => ?_
        exact untouched value (here ▸ List.mem_cons_self)
      · simp [lastStored, here, ih, Ne.symm here]

/-- What a buffer holds is the last value stored, or what it held before. -/
theorem replay_eq_lastStored (stores : List (κ × α)) (content : κ → α) (address : κ) :
    replay stores content address = (lastStored stores address).getD (content address) := by
  induction stores generalizing content with
  | nil => rfl
  | cons entry stores ih =>
      rw [replay_cons, ih, lastStored]
      cases lastStored stores address with
      | some value => rfl
      | none =>
          by_cases here : entry.1 = address
          · subst here
            simp
          · simp [here, Function.update_of_ne (Ne.symm here)]

/-- Where every store to an address carries the same value, that value was stored last. -/
theorem lastStored_of_stored {stores : List (κ × α)} {address : κ} {value : α}
    (stored : (address, value) ∈ stores)
    (agree : ∀ other, (address, other) ∈ stores → other = value) :
    lastStored stores address = some value := by
  induction stores with
  | nil => cases stored
  | cons entry stores ih =>
      rw [lastStored]
      by_cases later : (address, value) ∈ stores
      · rw [ih later fun other found => agree other (List.mem_cons_of_mem _ found), Option.some_or]
      · obtain rfl := (List.mem_cons.mp stored).resolve_right later
        rw [lastStored_eq_none_iff.mpr, Option.none_or, if_pos rfl]
        intro other found
        exact later (agree other (List.mem_cons_of_mem _ found) ▸ found)

/-- Stores elsewhere do not matter for what is stored last. -/
theorem lastStored_filter {stores : List (κ × α)} {kept : κ → Bool} {address : κ}
    (keeps : kept address = true) :
    lastStored (stores.filter fun entry => kept entry.1) address = lastStored stores address := by
  induction stores with
  | nil => rfl
  | cons entry stores ih =>
      obtain ⟨key, value⟩ := entry
      by_cases among : kept key = true
      · simp [among, lastStored, ih]
      · have elsewhere : key ≠ address := fun same => among (same ▸ keeps)
        simp [among, lastStored, ih, elsewhere]

/-- Two store sequences that hold the same stores, at most one value for each
address, leave the same content. -/
theorem replay_congr {first second : List (κ × α)} (content : κ → α)
    (same : ∀ entry, entry ∈ first ↔ entry ∈ second)
    (functional : ∀ address value other, (address, value) ∈ first →
      (address, other) ∈ first → other = value) :
    replay first content = replay second content := by
  funext address
  by_cases touched : ∃ value, (address, value) ∈ first
  · obtain ⟨value, member⟩ := touched
    have agree := fun other found => functional address value other member found
    rw [replay_of_stored first content address value member agree,
      replay_of_stored second content address value ((same _).mp member)
        fun other found => agree other ((same _).mpr found)]
  · rw [replay_of_not_stored first content address fun value member => touched ⟨value, member⟩,
      replay_of_not_stored second content address fun value member =>
        touched ⟨value, (same _).mpr member⟩]

end Replay

end BufferProgram
