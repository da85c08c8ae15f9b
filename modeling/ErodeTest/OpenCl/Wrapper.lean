import ErodeTest.Foundation.Fallible
import ErodeTest.Foundation.References

/-! # Handles to platform objects

`detail::Wrapper` of `cl.hpp` holds an object of the platform, retains it when the wrapper is
copied and releases it when the wrapper is destroyed or assigned to. An object is alive as
long as its reference count is positive; what happens to a call on one that is not is left
open, and the object is recorded (`Objects.misused`).

The platform may refuse to retain or to release, which leaves the count as it is. An
assignment then throws. A destructor does not look at the answer, and the reference stays
counted for good (`Objects.lost`).

The count of an object is the number of wrappers that hold it and of the references lost,
before and after every operation (`Counted`). The one exception is an assignment that copies
and is refused the reference: the wrapper then holds an object it has not retained.
-/

namespace ErodeTest.OpenCl.Lifetimes

open Fallible References

/-- The wrappers of `erode_cl.cc`: static variables, local variables and the temporary on the
right of an assignment. -/
inductive Var where
  | kernel
  | queue
  | d_a
  | d_b
  | context
  | program_
  | event
  | temporary
  deriving DecidableEq, Repr

def Var.all : Finset Var :=
  {.kernel, .queue, .d_a, .d_b, .context, .program_, .event, .temporary}

theorem Var.mem_all (v : Var) : v ∈ Var.all := by cases v <;> decide

instance : Fintype Var := ⟨Var.all, Var.mem_all⟩

/-- What the platform answers to its calls that retain or release an object, one after the
other. -/
structure Refusals where
  retain : ℕ → Option Int32
  release : ℕ → Option Int32

/-- The objects created so far, which name the next one, with the references the program has
counted on each, the wrappers, the arguments set on the kernel object and the mode of
`erode3x3_cl_init`; the number of calls that retained or released so far, and what
destructors could not release. -/
structure Objects where
  created : ℕ
  count : ℕ → ℕ
  held : Var → Option ℕ
  args : ℕ → Option ℕ
  useHostPtr : Bool
  misused : List ℕ
  refusals : Refusals
  references : ℕ
  lost : List ℕ

/-- Programs of the host, which throw error codes. -/
abbrev Code : Type → Type := Fallible Objects Int32

namespace Objects

/-- A call on an object. -/
def use (object : ℕ) (objects : Objects) : Objects where
  __ := objects
  misused := if 0 < objects.count object then objects.misused else objects.misused ++ [object]

/-- A call that is to retain or release an object, and is refused. -/
def asked (object : ℕ) (objects : Objects) : Objects where
  __ := objects.use object
  references := objects.references + 1

def retained (object : ℕ) (objects : Objects) : Objects where
  __ := objects.asked object
  count := Function.update objects.count object (objects.count object + 1)

def released (object : ℕ) (objects : Objects) : Objects where
  __ := objects.asked object
  count := Function.update objects.count object (objects.count object - 1)

/-- A new object, with one reference. -/
def create (objects : Objects) : Objects where
  __ := objects
  created := objects.created + 1
  count := Function.update objects.count objects.created 1

def hold (v : Var) (object : Option ℕ) (objects : Objects) : Objects where
  __ := objects
  held := Function.update objects.held v object

def lose (object : ℕ) (objects : Objects) : Objects where
  __ := objects
  lost := object :: objects.lost

end Objects

/-! ## The class -/

def retain (object : ℕ) : Code Unit := do
  let objects ← get
  modify (Objects.asked object)
  attempt (objects.refusals.retain objects.references)
  modify fun asked => { asked with
    count := Function.update asked.count object (asked.count object + 1) }

def release (object : ℕ) : Code Unit := do
  let objects ← get
  modify (Objects.asked object)
  attempt (objects.refusals.release objects.references)
  modify fun asked => { asked with
    count := Function.update asked.count object (asked.count object - 1) }

def retainHeld (v : Var) : Code Unit := do
  match (← get).held v with
  | none => pure ()
  | some object => retain object

def releaseHeld (v : Var) : Code Unit := do
  match (← get).held v with
  | none => pure ()
  | some object => release object

/-- `operator = (const Wrapper<cl_type>& rhs)`. -/
def copyAssign (v rhs : Var) : Code Unit :=
  if v = rhs then pure ()
  else do
    releaseHeld v
    modify fun objects => objects.hold v (objects.held rhs)
    retainHeld v

/-- `operator = (Wrapper<cl_type>&& rhs)`. -/
def moveAssign (v rhs : Var) : Code Unit :=
  if v = rhs then pure ()
  else do
    releaseHeld v
    modify fun objects => (objects.hold v (objects.held rhs)).hold rhs none

/-- `operator = (const cl_type &rhs)`. -/
def assign (v : Var) (object : ℕ) : Code Unit := do
  releaseHeld v
  modify fun objects => objects.hold v (some object)

/-- `~Wrapper()`. -/
def destroy (v : Var) (objects : Objects) : Objects :=
  match objects.held v with
  | none => objects
  | some object =>
      match release object objects with
      | (.ok _, after) => after.hold v none
      | (.error _, after) => (after.lose object).hold v none

/-! ## What the calls do -/

section Rules

variable {objects : Objects} {post : Unit → Objects → Prop} {thrown : Int32 → Objects → Prop}

theorem wp_retain {object : ℕ} (granted : ∀ n, objects.refusals.retain n = none)
    (goes : post () (objects.retained object)) : wp (retain object) post thrown objects := by
  simp only [retain, wp_bind, wp_get, wp_modify, granted]
  exact goes

/-- A release that is refused throws. -/
theorem release_eq (object : ℕ) (objects : Objects) :
    release object objects =
      match objects.refusals.release objects.references with
      | none => (.ok (), objects.released object)
      | some error => (.error error, objects.asked object) := by
  change Fallible.bind (attempt (objects.refusals.release objects.references)) _
    (objects.asked object) = _
  cases objects.refusals.release objects.references <;> rfl

theorem wp_release {object : ℕ} (goes : post () (objects.released object))
    (stops : ∀ error, thrown error (objects.asked object)) :
    wp (release object) post thrown objects := by
  rw [wp, release_eq]
  cases objects.refusals.release objects.references with
  | none => exact goes
  | some error => exact stops error

theorem wp_retainHeld {v : Var} (granted : ∀ n, objects.refusals.retain n = none)
    (empty : objects.held v = none → post () objects)
    (goes : ∀ object, objects.held v = some object → post () (objects.retained object)) :
    wp (retainHeld v) post thrown objects := by
  rw [retainHeld, wp_bind, wp_get]
  split
  · next vacant => exact empty vacant
  · next object holds => exact wp_retain granted (goes object holds)

theorem wp_releaseHeld {v : Var} (empty : objects.held v = none → post () objects)
    (goes : ∀ object, objects.held v = some object → post () (objects.released object))
    (stops : ∀ object error, objects.held v = some object → thrown error (objects.asked object)) :
    wp (releaseHeld v) post thrown objects := by
  rw [releaseHeld, wp_bind, wp_get]
  split
  · next vacant => exact empty vacant
  · next object holds => exact wp_release (goes object holds) fun error => stops object error holds

/-- What a destructor leaves. -/
theorem destroy_cases (v : Var) (objects : Objects) :
    (objects.held v = none ∧ destroy v objects = objects) ∨
      ∃ object, objects.held v = some object ∧
        (destroy v objects = (objects.released object).hold v none ∨
          (objects.refusals.release objects.references).isSome ∧
            destroy v objects = ((objects.asked object).lose object).hold v none) := by
  cases holds : objects.held v with
  | none => exact Or.inl ⟨rfl, by rw [destroy, holds]⟩
  | some object =>
      refine Or.inr ⟨object, rfl, ?_⟩
      simp only [destroy, holds, release_eq]
      cases objects.refusals.release objects.references with
      | none => exact Or.inl rfl
      | some error => exact Or.inr ⟨rfl, rfl⟩

end Rules

namespace Objects

section Fields

variable (v rhs : Var) (object other : Option ℕ) (objects : Objects)

@[simp] theorem held_hold :
    (objects.hold v object).held = Function.update objects.held v object := rfl

@[simp] theorem held_retained (object : ℕ) : (objects.retained object).held = objects.held := rfl

@[simp] theorem held_released (object : ℕ) : (objects.released object).held = objects.held := rfl

variable {v object objects} in
theorem hold_of_held (same : objects.held v = object) : objects.hold v object = objects := by
  rw [hold, ← same, Function.update_eq_self]

theorem hold_hold : (objects.hold v object).hold v other = objects.hold v other := by
  simp only [hold, Function.update_idem]

theorem hold_comm (different : v ≠ rhs) :
    (objects.hold v object).hold rhs other = (objects.hold rhs other).hold v object := by
  simp only [hold, Function.update_comm different]

theorem retained_hold (object : ℕ) :
    (objects.hold v other).retained object = (objects.retained object).hold v other := rfl

theorem held_destroy : (destroy v objects).held = Function.update objects.held v none := by
  rcases destroy_cases v objects with ⟨vacant, same⟩ | ⟨object, _, same | ⟨_, same⟩⟩
  · rw [same, ← vacant, Function.update_eq_self]
  · rw [same]
    rfl
  · rw [same]
    rfl

theorem refusals_destroy : (destroy v objects).refusals = objects.refusals := by
  rcases destroy_cases v objects with ⟨_, same⟩ | ⟨_, _, same | ⟨_, same⟩⟩ <;> rw [same] <;> rfl

end Fields

end Objects

/-! ## Counts -/

/-- The count of each object is the number of wrappers that hold it and of the references lost
on it, and one more for the object of a handle that is in no wrapper. Nothing is lost unless
the platform refuses to release. -/
structure Counted (objects : Objects) (loose : Option ℕ) : Prop where
  counted : ∀ object, objects.count object = holders objects.held object +
    (if loose = some object then 1 else 0) + objects.lost.count object
  created : ∀ object, objects.created ≤ object → objects.count object = 0
  misused : objects.misused = []
  lost : (∀ n, objects.refusals.release n = none) → objects.lost = []

namespace Counted

variable {objects : Objects} {loose : Option ℕ} {v rhs : Var} {object : ℕ}

theorem alive (counted : Counted objects loose) (holds : objects.held v = some object) :
    0 < objects.count object := by
  have := holders_pos_iff.mpr ⟨v, holds⟩
  rw [counted.counted]
  omega

theorem alive_loose (counted : Counted objects (some object)) : 0 < objects.count object := by
  rw [counted.counted, if_pos rfl]
  omega

theorem misused_use (counted : Counted objects loose) (alive : 0 < objects.count object) :
    (objects.use object).misused = [] := by
  rw [Objects.use, if_pos alive, counted.misused]

theorem use (counted : Counted objects loose) (alive : 0 < objects.count object) :
    Counted (objects.use object) loose :=
  ⟨counted.counted, counted.created, counted.misused_use alive, counted.lost⟩

theorem asked (counted : Counted objects loose) (alive : 0 < objects.count object) :
    Counted (objects.asked object) loose :=
  ⟨counted.counted, counted.created, counted.misused_use alive, counted.lost⟩

theorem create (counted : Counted objects none) :
    Counted objects.create (some objects.created) where
  counted object := by
    have before := counted.counted object
    have unused := counted.created objects.created le_rfl
    change Function.update objects.count objects.created 1 object =
      holders objects.held object + _ + objects.lost.count object
    by_cases same : object = objects.created
    · subst same
      rw [Function.update_self, if_pos rfl]
      rw [unused, if_neg nofun] at before
      omega
    · rw [Function.update_of_ne same, if_neg fun other => same (Option.some.inj other).symm]
      rw [if_neg nofun] at before
      exact before
  created object later := by
    have after : objects.created < object := later
    have unused : objects.create.count object = objects.count object :=
      Function.update_of_ne after.ne' _ _
    rw [unused, counted.created object after.le]
  misused := counted.misused
  lost := counted.lost

/-- A wrapper takes over a handle. -/
theorem hold (counted : Counted objects (some object)) (empty : objects.held v = none) :
    Counted (objects.hold v (some object)) none where
  counted other := by
    have before := counted.counted other
    have moved := holders_update objects.held v (some object) other
    rw [empty, if_neg nofun] at moved
    change objects.count other = holders (Function.update objects.held v (some object)) other +
      _ + objects.lost.count other
    rw [if_neg nofun]
    omega
  created := counted.created
  misused := counted.misused
  lost := counted.lost

/-- A wrapper gives its handle away. -/
theorem letGo (counted : Counted objects none) (holds : objects.held v = some object) :
    Counted (objects.hold v none) (some object) where
  counted other := by
    have before := counted.counted other
    have moved := holders_update objects.held v none other
    rw [holds, if_neg (nofun : ¬ none = some other)] at moved
    rw [if_neg nofun] at before
    change objects.count other = holders (Function.update objects.held v none) other + _ +
      objects.lost.count other
    omega
  created := counted.created
  misused := counted.misused
  lost := counted.lost

/-- A handle is released. -/
theorem released (counted : Counted objects (some object)) :
    Counted (objects.released object) none where
  counted other := by
    have before := counted.counted other
    change Function.update objects.count object _ other = holders objects.held other + _ +
      objects.lost.count other
    rw [if_neg nofun]
    by_cases same : other = object
    · subst same
      rw [if_pos rfl] at before
      rw [Function.update_self]
      omega
    · rw [if_neg fun other => same (Option.some.inj other).symm] at before
      rw [Function.update_of_ne same]
      exact before
  created other later := by
    have unused := counted.created other later
    have different : other ≠ object := by
      rintro rfl
      exact absurd unused counted.alive_loose.ne'
    exact (Function.update_of_ne different _ _).trans unused
  misused := counted.misused_use counted.alive_loose
  lost := counted.lost

/-- A handle is lost. -/
theorem lose (counted : Counted objects (some object))
    (refused : ¬ ∀ n, objects.refusals.release n = none) :
    Counted ((objects.asked object).lose object) none where
  counted other := by
    have before := counted.counted other
    change objects.count other = holders objects.held other + _ +
      (object :: objects.lost).count other
    rw [if_neg nofun, List.count_cons, before]
    by_cases same : object = other
    · rw [if_pos (congrArg some same), if_pos (beq_iff_eq.mpr same)]
      omega
    · rw [if_neg fun equal => same (Option.some.inj equal),
        if_neg fun equal => same (beq_iff_eq.mp equal)]
      omega
  created := counted.created
  misused := counted.misused_use counted.alive_loose
  lost never := absurd never refused

theorem retained (counted : Counted objects none) (holds : objects.held v = some object) :
    Counted (objects.retained object) (some object) where
  counted other := by
    have before := counted.counted other
    change Function.update objects.count object _ other = holders objects.held other + _ +
      objects.lost.count other
    rw [if_neg nofun] at before
    by_cases same : other = object
    · subst same
      rw [Function.update_self, if_pos rfl]
      omega
    · rw [Function.update_of_ne same, if_neg fun other => same (Option.some.inj other).symm]
      exact before
  created other later := by
    have living := counted.alive holds
    have unused := counted.created other later
    have different : other ≠ object := by
      rintro rfl
      omega
    exact (Function.update_of_ne different _ _).trans unused
  misused := counted.misused_use (counted.alive holds)
  lost := counted.lost

theorem destroy (counted : Counted objects none) (v : Var) :
    Counted (destroy v objects) none := by
  rcases destroy_cases v objects with ⟨_, same⟩ | ⟨object, holds, same | ⟨refused, same⟩⟩
  · rw [same]
    exact counted
  · rw [same]
    exact (counted.letGo holds).released
  · rw [same]
    refine (counted.letGo holds).lose fun never => ?_
    have granted := never objects.references
    rw [Objects.hold] at granted
    rw [granted] at refused
    cases refused

/-- An emptied wrapper takes over what another one holds. -/
theorem move (counted : Counted (objects.hold v none) none) (different : v ≠ rhs) :
    Counted ((objects.hold v (objects.held rhs)).hold rhs none) none := by
  have kept : (objects.hold v none).held rhs = objects.held rhs := by
    rw [Objects.held_hold, Function.update_of_ne (Ne.symm different)]
  cases holds : objects.held rhs with
  | none =>
      rw [Objects.hold_of_held (kept.trans holds)]
      exact counted
  | some object =>
      have given := counted.letGo (kept.trans holds)
      have vacant : ((objects.hold v none).hold rhs none).held v = none := by
        rw [Objects.held_hold, Function.update_of_ne different, Objects.held_hold,
          Function.update_self]
      have same : (objects.hold v (some object)).hold rhs none =
          ((objects.hold v none).hold rhs none).hold v (some object) := by
        rw [← Objects.hold_comm _ _ _ _ _ different, Objects.hold_hold]
      rw [same]
      exact given.hold vacant

/-- An emptied wrapper retains what another one holds. -/
theorem copy (counted : Counted (objects.hold v none) none) (different : v ≠ rhs)
    (holds : objects.held rhs = some object) :
    Counted ((objects.hold v (some object)).retained object) none := by
  have kept : (objects.hold v none).held rhs = some object := by
    rw [Objects.held_hold, Function.update_of_ne (Ne.symm different), holds]
  have retained := counted.retained kept
  have vacant : ((objects.hold v none).retained object).held v = none := by
    rw [Objects.held_retained, Objects.held_hold, Function.update_self]
  have same : (objects.hold v (some object)).retained object =
      ((objects.hold v none).retained object).hold v (some object) := by
    rw [Objects.retained_hold, Objects.retained_hold, Objects.hold_hold]
  rw [same]
  exact retained.hold vacant

end Counted

end ErodeTest.OpenCl.Lifetimes
