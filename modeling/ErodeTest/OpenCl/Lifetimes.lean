import ErodeTest.OpenCl.Session
import ErodeTest.OpenCl.Wrapper

/-! # Lifetimes of platform objects

What `erode3x3_cl_init` and `erode3x3_cl` do to the objects of the platform, with the
temporaries and local variables that are destroyed when a block ends or throws.
`erode3x3_cl_destroy` does nothing, and with host pointers every call of `erode3x3_cl`
creates two buffers; all the same, whatever calls are made and wherever they fail, only what
the five static variables hold is alive between calls, with what the platform refused to
release for a destructor, and no call uses an object that is not (`Reached.alive_iff`).
-/

namespace ErodeTest.OpenCl.Lifetimes

open Fallible References
open ErodeTest.OpenCl.Calls (InitCall ErodeCall CL_INVALID_CONTEXT CL_INVALID_COMMAND_QUEUE
  CL_INVALID_MEM_OBJECT CL_INVALID_KERNEL CL_INVALID_KERNEL_ARGS)

/-- The name of the program object a failed call throws for. -/
def CL_INVALID_PROGRAM : Int32 := -44

def CL_INVALID_EVENT : Int32 := -58

/-- Pass the object of a wrapper to the platform, which throws the error if there is none. -/
def use (error : Int32) (v : Var) : Code Unit := do
  let object ← ofOption error ((← get).held v)
  modify (Objects.use object)

/-- Construct a wrapper with a new object. -/
def construct (outage : Option Int32) (v : Var) : Code Unit := do
  attempt outage
  modify fun objects => objects.create.hold v (some objects.created)

/-- A variable with a new object, which is destroyed when its block ends or throws. -/
def withNew (outage : Option Int32) (v : Var) (block : Code Unit) : Code Unit := do
  construct outage v
  cleaning block (destroy v)

/-- Assign a temporary with a new object. From C++11 on the assignment moves. -/
def assignNew (moves : Bool) (outage : Option Int32) (v : Var) : Code Unit :=
  withNew outage .temporary
    (if moves then moveAssign v .temporary else copyAssign v .temporary)

/-! ## The functions of the source -/

/-- Build the program and create the kernel object, which has no arguments yet. -/
def createKernel (moves : Bool) (outage : InitCall → Option Int32) : Code Unit := do
  use CL_INVALID_PROGRAM .program_
  attempt (outage .build)
  use CL_INVALID_PROGRAM .program_
  assignNew moves (outage .kernel) .kernel
  modify fun objects => { objects with args := fun _ => none }

/-- The buffers of a session that has its own. -/
def createBuffers (moves : Bool) (outage : InitCall → Option Int32) (use_host_ptr : Bool) :
    Code Unit :=
  if use_host_ptr then pure ()
  else do
    use CL_INVALID_CONTEXT .context
    assignNew moves (outage .d_a) .d_a
    use CL_INVALID_CONTEXT .context
    assignNew moves (outage .d_b) .d_b

/-- The block of `erode3x3_cl_init` that may throw. -/
def initBlock (moves : Bool) (outage : InitCall → Option Int32) (platforms : ℕ)
    (use_host_ptr : Bool) : Code Int32 := do
  attempt (outage .platforms)
  if platforms = 0 then pure (-1)
  else do
    assignNew moves (outage .context) .context
    use CL_INVALID_CONTEXT .context
    attempt (outage .devices)
    each (fun property => attempt (outage (.info property))) (List.range 15)
    use CL_INVALID_CONTEXT .context
    assignNew moves (outage .queue) .queue
    createBuffers moves outage use_host_ptr
    use CL_INVALID_CONTEXT .context
    withNew (outage .program) .program_ (createKernel moves outage)
    pure 0

def erode3x3_cl_init (moves : Bool) (outage : InitCall → Option Int32) (platforms : ℕ)
    (use_host_ptr : Bool) (objects : Objects) : Objects :=
  (initBlock moves outage platforms use_host_ptr { objects with useHostPtr := use_host_ptr }).2

/-- Set an argument of the kernel object; a kernel does not retain its arguments. -/
def setArg (outage : Option Int32) (index : ℕ) (v : Var) : Code Unit := do
  use CL_INVALID_KERNEL .kernel
  attempt outage
  modify fun objects =>
    { objects with args := Function.update objects.args index (objects.held v) }

/-- The platform uses the object an argument was set to. -/
def useArg (index : ℕ) : Code Unit := do
  let object ← ofOption CL_INVALID_KERNEL_ARGS ((← get).args index)
  modify (Objects.use object)

/-- The two ways to bind the buffers. -/
def bindBuffers (moves : Bool) (outage : ErodeCall → Option Int32) : Code Unit := do
  if (← get).useHostPtr then
    use CL_INVALID_CONTEXT .context
    assignNew moves (outage .d_a) .d_a
    use CL_INVALID_CONTEXT .context
    assignNew moves (outage .d_b) .d_b
  else
    use CL_INVALID_COMMAND_QUEUE .queue
    use CL_INVALID_MEM_OBJECT .d_a
    attempt (outage .write)

def bindArgs (outage : ErodeCall → Option Int32) : Code Unit := do
  setArg (outage (.setArg 0)) 0 .d_a
  setArg (outage (.setArg 1)) 1 .d_b
  use CL_INVALID_KERNEL .kernel
  attempt (outage (.setArg 2))

/-- The event gets a new object. -/
def enqueueNDRangeKernel (outage : ErodeCall → Option Int32) : Code Unit := do
  use CL_INVALID_COMMAND_QUEUE .queue
  use CL_INVALID_KERNEL .kernel
  useArg 0
  useArg 1
  attempt (outage .enqueue)
  let objects ← get
  modify Objects.create
  assign .event objects.created

/-- What is left of the block of `erode3x3_cl` once the kernel is enqueued. -/
def complete (outage : ErodeCall → Option Int32) : Code Unit := do
  use CL_INVALID_EVENT .event
  attempt (outage .wait)
  each (fun time => do
    use CL_INVALID_EVENT .event
    attempt (outage (.profile time))) (List.range 4)
  use CL_INVALID_COMMAND_QUEUE .queue
  use CL_INVALID_MEM_OBJECT .d_b
  attempt (outage .read)

/-- The block of `erode3x3_cl` that may throw. -/
def erodeBlock (moves : Bool) (outage : ErodeCall → Option Int32) : Code Unit := do
  bindBuffers moves outage
  bindArgs outage
  cleaning (do
    enqueueNDRangeKernel outage
    complete outage) (destroy .event)

def erode3x3_cl (moves : Bool) (outage : ErodeCall → Option Int32) (objects : Objects) :
    Objects :=
  (erodeBlock moves outage objects).2

def erode3x3_cl_destroy (objects : Objects) : Objects := objects

/-- The destructors of the static variables run in the opposite order of their definitions. -/
def exit (objects : Objects) : Objects :=
  destroy .kernel (destroy .queue (destroy .d_a (destroy .d_b (destroy .context objects))))

/-! ## Between two statements -/

/-- The static variables of `erode_cl.cc`. -/
def statics : Finset Var := {.kernel, .queue, .d_a, .d_b, .context}

/-- The counts are right, only variables in scope hold objects, and the platform answers as it
was to. -/
structure Settled (refusals : Refusals) (scope : Finset Var) (objects : Objects) : Prop where
  counted : Counted objects none
  closed : ∀ v ∉ scope, objects.held v = none
  answers : objects.refusals = refusals

section Settled

variable {refusals : Refusals} {scope : Finset Var} {objects : Objects} {v rhs : Var} {object : ℕ}

theorem Settled.widen (settled : Settled refusals scope objects) (v : Var) :
    Settled refusals (insert v scope) objects where
  counted := settled.counted
  closed other outside :=
    settled.closed other fun inside => outside (Finset.mem_insert_of_mem inside)
  answers := settled.answers

theorem Settled.use (settled : Settled refusals scope objects)
    (holds : objects.held v = some object) : Settled refusals scope (objects.use object) where
  counted := settled.counted.use (settled.counted.alive holds)
  closed := settled.closed
  answers := settled.answers

theorem Settled.setArgs (settled : Settled refusals scope objects) (args : ℕ → Option ℕ) :
    Settled refusals scope { objects with args := args } where
  counted := ⟨settled.counted.counted, settled.counted.created, settled.counted.misused,
    settled.counted.lost⟩
  closed := settled.closed
  answers := settled.answers

theorem Settled.construct (settled : Settled refusals scope objects) (outside : v ∉ scope) :
    Settled refusals (insert v scope) (objects.create.hold v (some objects.created)) where
  counted := settled.counted.create.hold (settled.closed v outside)
  closed other others := by
    rw [Finset.mem_insert, not_or] at others
    exact (Function.update_of_ne others.1 _ _).trans (settled.closed other others.2)
  answers := settled.answers

theorem Settled.destroy (settled : Settled refusals scope objects) (v : Var) :
    Settled refusals (scope.erase v) (destroy v objects) where
  counted := settled.counted.destroy v
  closed other others := by
    rw [Objects.held_destroy]
    by_cases same : other = v
    · rw [same, Function.update_self]
    · rw [Function.update_of_ne same]
      exact settled.closed other fun inside => others (Finset.mem_erase.mpr ⟨same, inside⟩)
  answers := (Objects.refusals_destroy v objects).trans settled.answers

/-- An emptied variable moves what another one holds to itself. -/
theorem Settled.move (settled : Settled refusals scope (objects.hold v none)) (inside : v ∈ scope)
    (different : v ≠ rhs) :
    Settled refusals scope ((objects.hold v (objects.held rhs)).hold rhs none) where
  counted := settled.counted.move different
  closed other outside := by
    have apart : other ≠ v := fun same => outside (same ▸ inside)
    have vacant := settled.closed other outside
    rw [Objects.held_hold, Function.update_of_ne apart] at vacant
    rw [Objects.held_hold, Objects.held_hold]
    by_cases same : other = rhs
    · rw [same, Function.update_self]
    · rw [Function.update_of_ne same, Function.update_of_ne apart, vacant]
  answers := settled.answers

/-- An emptied variable retains what another one holds. -/
theorem Settled.copy (settled : Settled refusals scope (objects.hold v none)) (inside : v ∈ scope)
    (different : v ≠ rhs) (holds : objects.held rhs = some object) :
    Settled refusals scope ((objects.hold v (some object)).retained object) where
  counted := settled.counted.copy different holds
  closed other outside := by
    have apart : other ≠ v := fun same => outside (same ▸ inside)
    have vacant := settled.closed other outside
    rw [Objects.held_hold, Function.update_of_ne apart] at vacant
    rw [Objects.held_retained, Objects.held_hold, Function.update_of_ne apart, vacant]
  answers := settled.answers

/-- Where a release is refused nothing has happened, else the variable can be emptied. -/
theorem Settled.wp_releaseHeld (settled : Settled refusals scope objects)
    {post : Unit → Objects → Prop} {thrown : Int32 → Objects → Prop}
    (goes : ∀ after, Settled refusals scope (after.hold v none) → after.held = objects.held →
      post () after)
    (stops : ∀ error after, Settled refusals scope after → thrown error after) :
    wp (releaseHeld v) post thrown objects := by
  refine Lifetimes.wp_releaseHeld (fun vacant => ?_) (fun object holds => ?_)
    fun object error holds => ?_
  · refine goes objects ?_ rfl
    rw [Objects.hold_of_held vacant]
    exact settled
  · refine goes _ ⟨(settled.counted.letGo holds).released, fun other outside => ?_,
      settled.answers⟩ rfl
    rw [Objects.held_hold, Objects.held_released]
    by_cases same : other = v
    · rw [same, Function.update_self]
    · rw [Function.update_of_ne same, settled.closed other outside]
  · exact stops error _ ⟨settled.counted.asked (settled.counted.alive holds), settled.closed,
      settled.answers⟩

end Settled

/-! ## Statements -/

/-- A program that ends settled when it starts settled, also where it throws. -/
def Keeps {α : Type} (refusals : Refusals) (scope : Finset Var) (program : Code α) : Prop :=
  ∀ objects, Settled refusals scope objects →
    wp program (fun _ => Settled refusals scope) (fun _ => Settled refusals scope) objects

section Statements

variable {α β : Type} {refusals : Refusals} {scope : Finset Var} {v rhs : Var}

theorem keeps_pure (value : α) : Keeps refusals scope (pure value) := fun _ settled => settled

theorem keeps_bind {program : Code α} {next : α → Code β} (first : Keeps refusals scope program)
    (others : ∀ value, Keeps refusals scope (next value)) :
    Keeps refusals scope (program >>= next) := by
  intro objects settled
  rw [wp_bind]
  exact wp_mono (first objects settled) (fun value after middle => others value after middle)
    fun _ _ left => left

theorem keeps_attempt (outage : Option Int32) : Keeps refusals scope (attempt outage) :=
  fun _ settled => wp_attempt outage settled fun _ => settled

theorem keeps_each {action : β → Code Unit} (entries : List β)
    (kept : ∀ entry, Keeps refusals scope (action entry)) :
    Keeps refusals scope (each action entries) :=
  fun _ settled => wp_each entries settled fun entry _ => kept entry

theorem keeps_use (error : Int32) (v : Var) : Keeps refusals scope (use error v) := by
  intro objects settled
  rw [use, wp_bind, wp_get, wp_bind]
  exact wp_ofOption _ _ (fun object holds => settled.use holds) settled

theorem keeps_moveAssign (inside : v ∈ scope) (different : v ≠ rhs) :
    Keeps refusals scope (moveAssign v rhs) := by
  intro objects settled
  rw [moveAssign, if_neg different, wp_bind]
  exact settled.wp_releaseHeld (fun after emptied _ => emptied.move inside different)
    fun _ _ left => left

/-- An assignment that copies has to be granted its reference. -/
theorem keeps_copyAssign (granted : ∀ n, refusals.retain n = none) (inside : v ∈ scope)
    (different : v ≠ rhs) : Keeps refusals scope (copyAssign v rhs) := by
  intro objects settled
  simp only [copyAssign, if_neg different, wp_bind, wp_modify]
  refine settled.wp_releaseHeld (fun after emptied same => ?_) fun _ _ left => left
  have answers : ∀ n, after.refusals.retain n = none := fun n =>
    (congrArg (Refusals.retain · n) emptied.answers).trans (granted n)
  refine wp_retainHeld answers (fun vacant => ?_) fun object holds => ?_
  · rw [Objects.held_hold, Function.update_self] at vacant
    rw [vacant]
    exact emptied
  · rw [Objects.held_hold, Function.update_self] at holds
    rw [holds]
    exact emptied.copy inside different holds

theorem wp_cleaning_destroy {block : Code Unit} {objects : Objects} (outside : v ∉ scope)
    (kept : wp block (fun _ => Settled refusals (insert v scope))
      (fun _ => Settled refusals (insert v scope)) objects) :
    wp (cleaning block (destroy v)) (fun _ => Settled refusals scope)
      (fun _ => Settled refusals scope) objects := by
  rw [wp_cleaning]
  have left (after : Objects) (middle : Settled refusals (insert v scope) after) :
      Settled refusals scope (destroy v after) := by
    have destroyed := middle.destroy v
    rwa [Finset.erase_insert outside] at destroyed
  exact wp_mono kept (fun _ => left) fun _ => left

theorem keeps_withNew (outage : Option Int32) {block : Code Unit} (outside : v ∉ scope)
    (kept : Keeps refusals (insert v scope) block) :
    Keeps refusals scope (withNew outage v block) := by
  intro objects settled
  simp only [withNew, construct, wp_bind, wp_modify]
  refine wp_attempt outage ?_ fun _ => settled
  exact wp_cleaning_destroy outside (kept _ (settled.construct outside))

theorem keeps_assignNew {moves : Bool} (granted : moves = true ∨ ∀ n, refusals.retain n = none)
    (outage : Option Int32) (inside : v ∈ scope) (outside : Var.temporary ∉ scope) :
    Keeps refusals scope (assignNew moves outage v) := by
  have still : v ∈ insert Var.temporary scope := Finset.mem_insert_of_mem inside
  have different : v ≠ .temporary := fun same => outside (same ▸ inside)
  refine keeps_withNew outage outside ?_
  cases moves with
  | true => exact keeps_moveAssign still different
  | false => exact keeps_copyAssign (granted.resolve_left Bool.false_ne_true) still different

end Statements

/-! ## The functions -/

section Functions

variable {moves : Bool} {refusals : Refusals}
  (granted : moves = true ∨ ∀ n, refusals.retain n = none) (initOutage : InitCall → Option Int32)
  (outage : ErodeCall → Option Int32)

section Init

include granted

theorem keeps_createKernel :
    Keeps refusals (insert .program_ statics) (createKernel moves initOutage) := by
  refine keeps_bind (keeps_use _ _) fun _ => ?_
  refine keeps_bind (keeps_attempt _) fun _ => ?_
  refine keeps_bind (keeps_use _ _) fun _ => ?_
  refine keeps_bind (keeps_assignNew granted _ (by decide) (by decide)) fun _ => ?_
  exact fun _ settled => settled.setArgs _

theorem keeps_createBuffers (use_host_ptr : Bool) :
    Keeps refusals statics (createBuffers moves initOutage use_host_ptr) := by
  unfold createBuffers
  split
  · exact keeps_pure ()
  · refine keeps_bind (keeps_use _ _) fun _ => ?_
    refine keeps_bind (keeps_assignNew granted _ (by decide) (by decide)) fun _ => ?_
    refine keeps_bind (keeps_use _ _) fun _ => ?_
    exact keeps_assignNew granted _ (by decide) (by decide)

theorem keeps_initBlock (platforms : ℕ) (use_host_ptr : Bool) :
    Keeps refusals statics (initBlock moves initOutage platforms use_host_ptr) := by
  refine keeps_bind (keeps_attempt _) fun _ => ?_
  split
  · exact keeps_pure (-1)
  · refine keeps_bind (keeps_assignNew granted _ (by decide) (by decide)) fun _ => ?_
    refine keeps_bind (keeps_use _ _) fun _ => ?_
    refine keeps_bind (keeps_attempt _) fun _ => ?_
    refine keeps_bind (keeps_each _ fun _ => keeps_attempt _) fun _ => ?_
    refine keeps_bind (keeps_use _ _) fun _ => ?_
    refine keeps_bind (keeps_assignNew granted _ (by decide) (by decide)) fun _ => ?_
    refine keeps_bind (keeps_createBuffers granted _ _) fun _ => ?_
    refine keeps_bind (keeps_use _ _) fun _ => ?_
    refine keeps_bind (keeps_withNew _ (by decide) (keeps_createKernel granted _)) fun _ => ?_
    exact keeps_pure 0

theorem keeps_bindBuffers : Keeps refusals statics (bindBuffers moves outage) := by
  intro objects settled
  rw [bindBuffers, wp_bind, wp_get]
  split
  · refine keeps_bind (keeps_use _ _) (fun _ => ?_) objects settled
    refine keeps_bind (keeps_assignNew granted _ (by decide) (by decide)) fun _ => ?_
    refine keeps_bind (keeps_use _ _) fun _ => ?_
    exact keeps_assignNew granted _ (by decide) (by decide)
  · refine keeps_bind (keeps_use _ _) (fun _ => ?_) objects settled
    exact keeps_bind (keeps_use _ _) fun _ => keeps_attempt _

end Init

/-- The arguments of the kernel are the buffers. -/
def Bound (objects : Objects) : Prop :=
  objects.args 0 = objects.held .d_a ∧ objects.args 1 = objects.held .d_b

section Arguments

variable {scope : Finset Var} {objects : Objects} {v : Var} {index : ℕ} {call : Option Int32}
  {post : Unit → Objects → Prop} {thrown : Int32 → Objects → Prop}

theorem wp_setArg (settled : Settled refusals scope objects)
    (goes : ∀ after, Settled refusals scope after → after.held = objects.held →
      after.args = Function.update objects.args index (objects.held v) → post () after)
    (stops : ∀ error after, Settled refusals scope after → thrown error after) :
    wp (setArg call index v) post thrown objects := by
  simp only [setArg, use, wp_bind, wp_get, wp_modify]
  refine wp_ofOption _ _ (fun kernel holds => ?_) (stops _ _ settled)
  have used := settled.use holds
  exact wp_attempt _ (goes _ (used.setArgs _) rfl rfl) fun _ => stops _ _ used

theorem wp_useArg (settled : Settled refusals scope objects)
    (bound : objects.args index = objects.held v)
    (goes : ∀ object, Settled refusals scope (objects.use object) → post () (objects.use object))
    (stops : ∀ error, thrown error objects) : wp (useArg index) post thrown objects := by
  simp only [useArg, wp_bind, wp_get, wp_modify]
  exact wp_ofOption _ _ (fun object set => goes object (settled.use (bound ▸ set))) (stops _)

theorem wp_use (settled : Settled refusals scope objects)
    (goes : ∀ object, Settled refusals scope (objects.use object) → post () (objects.use object))
    (stops : ∀ error, thrown error objects) {error : Int32} :
    wp (use error v) post thrown objects := by
  simp only [use, wp_bind, wp_get, wp_modify]
  exact wp_ofOption _ _ (fun object holds => goes object (settled.use holds)) (stops _)

theorem wp_bindArgs (settled : Settled refusals scope objects) :
    wp (bindArgs outage) (fun _ after => Settled refusals scope after ∧ Bound after)
      (fun _ => Settled refusals scope) objects := by
  simp only [bindArgs, wp_bind]
  refine wp_setArg settled (fun first settled₁ held₁ args₁ => ?_) fun _ _ left => left
  refine wp_setArg settled₁ (fun second settled₂ held₂ args₂ => ?_) fun _ _ left => left
  have bound : Bound second := by
    rw [Bound, args₂, held₂, args₁, held₁]
    exact ⟨rfl, rfl⟩
  refine wp_use settled₂ (fun kernel settled₃ => ?_) fun _ => settled₂
  exact wp_attempt _ ⟨settled₃, bound⟩ fun _ => settled₃

/-- The kernel reads and writes living buffers, whatever its arguments were before. -/
theorem wp_enqueueNDRangeKernel (settled : Settled refusals scope objects) (bound : Bound objects)
    (outside : Var.event ∉ scope) :
    wp (enqueueNDRangeKernel outage) (fun _ => Settled refusals (insert .event scope))
      (fun _ => Settled refusals scope) objects := by
  simp only [enqueueNDRangeKernel, assign, wp_bind, wp_get, wp_modify]
  refine wp_use settled (fun queue settled₁ => ?_) fun _ => settled
  refine wp_use settled₁ (fun kernel settled₂ => ?_) fun _ => settled₁
  refine wp_useArg settled₂ bound.1 (fun d_a settled₃ => ?_) fun _ => settled₂
  refine wp_useArg settled₃ bound.2 (fun d_b settled₄ => ?_) fun _ => settled₃
  refine wp_attempt _ ?_ fun _ => settled₄
  -- the event holds nothing that is to be released
  have vacant := settled₄.closed _ outside
  refine wp_releaseHeld (fun _ => settled₄.construct outside) (fun _ holds => ?_)
    fun _ _ holds => ?_
  · exact absurd (vacant.symm.trans holds) (Option.some_ne_none _).symm
  · exact absurd (vacant.symm.trans holds) (Option.some_ne_none _).symm

end Arguments

theorem keeps_complete (scope : Finset Var) : Keeps refusals scope (complete outage) := by
  refine keeps_bind (keeps_use _ _) fun _ => ?_
  refine keeps_bind (keeps_attempt _) fun _ => ?_
  refine keeps_bind (keeps_each _ fun _ => ?_) fun _ => ?_
  · exact keeps_bind (keeps_use _ _) fun _ => keeps_attempt _
  · refine keeps_bind (keeps_use _ _) fun _ => ?_
    exact keeps_bind (keeps_use _ _) fun _ => keeps_attempt _

include granted in
theorem keeps_erodeBlock : Keeps refusals statics (erodeBlock moves outage) := by
  refine keeps_bind (keeps_bindBuffers granted _) fun _ objects settled => ?_
  rw [wp_bind]
  refine wp_mono (wp_bindArgs _ settled) ?_ fun _ _ left => left
  rintro _ middle ⟨bound_settled, bound⟩
  refine wp_cleaning_destroy (by decide) ?_
  rw [wp_bind]
  refine wp_mono (wp_enqueueNDRangeKernel _ bound_settled bound (by decide)) ?_
    fun _ _ left => left.widen .event
  exact fun _ => keeps_complete outage _

end Functions

theorem Settled.init {moves : Bool} {refusals : Refusals} {objects : Objects}
    (settled : Settled refusals statics objects)
    (granted : moves = true ∨ ∀ n, refusals.retain n = none) (outage : InitCall → Option Int32)
    (platforms : ℕ) (use_host_ptr : Bool) :
    Settled refusals statics (erode3x3_cl_init moves outage platforms use_host_ptr objects) := by
  have entered : Settled refusals statics { objects with useHostPtr := use_host_ptr } :=
    ⟨⟨settled.counted.counted, settled.counted.created, settled.counted.misused,
      settled.counted.lost⟩, settled.closed, settled.answers⟩
  exact wp_left (keeps_initBlock granted outage platforms use_host_ptr _ entered)

theorem Settled.erode {moves : Bool} {refusals : Refusals} {objects : Objects}
    (settled : Settled refusals statics objects)
    (granted : moves = true ∨ ∀ n, refusals.retain n = none) (outage : ErodeCall → Option Int32) :
    Settled refusals statics (erode3x3_cl moves outage objects) :=
  wp_left (keeps_erodeBlock granted outage objects settled)

/-- After the destructors of the static variables no variable holds anything. -/
theorem Settled.exit {refusals : Refusals} {objects : Objects}
    (settled : Settled refusals statics objects) : Settled refusals ∅ (exit objects) := by
  have destroyed :=
    ((((settled.destroy .context).destroy .d_b).destroy .d_a).destroy .queue).destroy .kernel
  have empty :
      ((((statics.erase .context).erase .d_b).erase .d_a).erase .queue).erase .kernel = ∅ := by
    decide
  rwa [empty] at destroyed

/-! ## Runs -/

/-- When the program starts. -/
def booted (refusals : Refusals) : Objects where
  created := 0
  count := fun _ => 0
  held := fun _ => none
  args := fun _ => none
  useHostPtr := false
  misused := []
  refusals := refusals
  references := 0
  lost := []

theorem settled_booted (refusals : Refusals) : Settled refusals statics (booted refusals) where
  counted := ⟨fun _ => rfl, fun _ _ => rfl, rfl, fun _ => rfl⟩
  closed _ _ := rfl
  answers := rfl

/-- What calls of the interface lead to, wherever they fail. -/
inductive Reached (moves : Bool) (refusals : Refusals) : Objects → Prop
  | booted : Reached moves refusals (booted refusals)
  | init {objects : Objects} (reached : Reached moves refusals objects)
      (outage : InitCall → Option Int32) (platforms : ℕ) (use_host_ptr : Bool) :
      Reached moves refusals (erode3x3_cl_init moves outage platforms use_host_ptr objects)
  | erode {objects : Objects} (reached : Reached moves refusals objects)
      (outage : ErodeCall → Option Int32) :
      Reached moves refusals (erode3x3_cl moves outage objects)
  | destroy {objects : Objects} (reached : Reached moves refusals objects) :
      Reached moves refusals (erode3x3_cl_destroy objects)

variable {moves : Bool} {refusals : Refusals} {objects : Objects}

theorem Reached.settled (reached : Reached moves refusals objects)
    (granted : moves = true ∨ ∀ n, refusals.retain n = none) :
    Settled refusals statics objects := by
  induction reached with
  | booted => exact settled_booted refusals
  | init _ outage platforms use_host_ptr before =>
      exact before.init granted outage platforms use_host_ptr
  | erode _ outage before => exact before.erode granted outage
  | destroy _ before => exact before

theorem Settled.count_eq {scope : Finset Var} (settled : Settled refusals scope objects)
    (object : ℕ) :
    objects.count object = holders objects.held object + objects.lost.count object := by
  rw [settled.counted.counted, if_neg (Option.some_ne_none object).symm, Nat.add_zero]

theorem Settled.alive_iff_held {scope : Finset Var} (settled : Settled refusals scope objects)
    (object : ℕ) : 0 < objects.count object ↔
      (∃ v ∈ scope, objects.held v = some object) ∨ object ∈ objects.lost := by
  rw [settled.count_eq, add_pos_iff, holders_pos_iff, List.count_pos_iff]
  refine or_congr_left ⟨fun ⟨v, holds⟩ => ⟨v, ?_, holds⟩, fun ⟨v, _, holds⟩ => ⟨v, holds⟩⟩
  by_contra outside
  have vacant := settled.closed v outside
  rw [holds] at vacant
  cases vacant

/-- **Nothing is used after its release, and nothing is kept.** In a program whose assignments
move, or are granted every reference they copy: the count of an object is the number of
wrappers that hold it and of the references destructors could not release; between calls at
most five objects are alive besides the latter, and at the end none. -/
theorem Reached.alive_iff (reached : Reached moves refusals objects)
    (granted : moves = true ∨ ∀ n, refusals.retain n = none) :
    objects.misused = [] ∧
      (∀ object,
        objects.count object = holders objects.held object + objects.lost.count object) ∧
        (∀ object, 0 < objects.count object ↔
          (∃ v ∈ statics, objects.held v = some object) ∨ object ∈ objects.lost) ∧
          (∀ alive : Finset ℕ, (∀ object ∈ alive, 0 < objects.count object) →
            alive.card ≤ 5 + objects.lost.length) ∧
            ((exit objects).misused = [] ∧
              ∀ object, (exit objects).count object = (exit objects).lost.count object) ∧
              ((∀ n, refusals.release n = none) →
                objects.lost = [] ∧ (exit objects).lost = []) := by
  have settled := reached.settled granted
  have exited := settled.exit
  refine ⟨settled.counted.misused, settled.count_eq, settled.alive_iff_held,
    fun alive living => ?_, ⟨exited.counted.misused, fun object => ?_⟩, fun never => ?_⟩
  · have held := card_le_of_held (alive.filter (· ∉ objects.lost)) statics fun object among => by
      obtain ⟨inside, kept⟩ := Finset.mem_filter.mp among
      exact ((settled.alive_iff_held object).mp (living object inside)).resolve_right kept
    have covered : alive ⊆ alive.filter (· ∉ objects.lost) ∪ objects.lost.toFinset := by
      intro object inside
      rw [Finset.mem_union, Finset.mem_filter, List.mem_toFinset]
      by_cases lost : object ∈ objects.lost
      · exact Or.inr lost
      · exact Or.inl ⟨inside, lost⟩
    calc alive.card ≤ _ := Finset.card_le_card covered
      _ ≤ _ := Finset.card_union_le _ _
      _ ≤ 5 + objects.lost.length := add_le_add held objects.lost.toFinset_card_le
  · have vacant : holders (exit objects).held object = 0 := by
      by_contra holds
      obtain ⟨v, held⟩ := holders_pos_iff.mp (Nat.pos_of_ne_zero holds)
      rw [exited.closed v (Finset.notMem_empty v)] at held
      cases held
    rw [exited.count_eq, vacant, Nat.zero_add]
  · exact ⟨settled.counted.lost (settled.answers ▸ never),
      exited.counted.lost (exited.answers ▸ never)⟩

/-- A platform that refuses the second release it is asked for. -/
def refusing : Refusals where
  retain := fun _ => none
  release := fun n => if n = 1 then some (-5) else none

/-- A session with host pointers and two calls. -/
def twoCalls (refusals : Refusals) : Objects :=
  erode3x3_cl true (fun _ => none) (erode3x3_cl true (fun _ => none)
    (erode3x3_cl_init true (fun _ => none) 1 true (booted refusals)))

/-- The buffers of the first call are gone, and at the end everything but the event of that
call, which the platform refused to release. -/
theorem Reached.alive_iff_two_calls :
    ((twoCalls refusing).created = 10 ∧ (twoCalls refusing).count 4 = 0 ∧
        (twoCalls refusing).count 7 = 1 ∧ (exit (twoCalls refusing)).lost = [6]) ∧
      ∀ object, (exit (twoCalls refusing)).count object =
        (exit (twoCalls refusing)).lost.count object :=
  ⟨by decide, (((Reached.booted.init _ 1 true).erode _).erode _).alive_iff (Or.inl rfl)
    |>.2.2.2.2.1.2⟩

/-- Where assignments copy, one that is refused its reference leaves a variable whose object
goes with the temporary. -/
example : (exit (erode3x3_cl_init false (fun _ => none) 1 true
    (booted ⟨fun n => if n = 0 then some (-5) else none, fun _ => none⟩))).misused = [0] := by
  decide

end ErodeTest.OpenCl.Lifetimes
