import ErodeTest.OpenCl.Session
import Mathlib.Logic.Relation

/-! # Histories of the OpenCL implementation

After an initialization that returned zero, whatever came before it, any number of calls may
follow, each of which may fail anywhere, and the memory may change in between. A call that
then reports nothing has eroded its own input, and no earlier call shows in the inner pixels
(`ErodeTest.OpenCl.Calls.erode3x3_cl_completed`). A call that reports an error may have done
a part of its work, but no byte of its output is then another than it was or than the call
computes (`ErodeTest.OpenCl.Calls.erode3x3_cl_failed`). Until an initialization has returned
zero every call reports an error (`ErodeTest.OpenCl.Calls.erode3x3_cl_reports`).
-/

namespace ErodeTest.OpenCl.Calls

open BufferProgram BufferProgram.Program Fallible Morphology

/-! ## Initialization -/

/-- A session with buffers of its own has two of them on the device. -/
def Separate (world : World) : Prop :=
  world.useHostPtr = false → ∃ d_a d_b a b, world.d_a = some d_a ∧ world.d_b = some d_b ∧
    d_a.memory = .device a ∧ d_b.memory = .device b ∧ a ≠ b

section Initialization

variable {outage : InitCall → Option Int32} {platforms : ℕ} {w h : ℤ} {use_host_ptr : Bool}
  {world after : World}

/-- An initialization creates the kernel last. -/
theorem wp_initBlock :
    wp (initBlock outage platforms w h use_host_ptr)
      (fun value after => if value = 0 then after.useHostPtr = use_host_ptr ∧ Separate after
        else after.kernel = world.kernel)
      (fun _ after => after.kernel = world.kernel)
      { world with useHostPtr := use_host_ptr } := by
  simp only [initBlock, wp_bind]
  refine wp_attempt _ ?_ fun _ => rfl
  split
  · exact rfl
  simp only [fresh, wp_bind, wp_get, wp_modify, wp_pure]
  refine wp_attempt _ ?_ fun _ => rfl
  refine wp_attempt _ ?_ fun _ => rfl
  have queried (state : World) :
      wp (each (fun property => attempt (outage (.info property))) (List.range 15))
        (fun _ => (· = state)) (fun _ => (· = state)) state :=
    wp_each _ rfl fun property _ _ same =>
      wp_attempt (outage (.info property)) same fun _ => same
  refine wp_mono (queried _) (fun _ middle same => ?_) fun _ after same => ?_
  · subst same
    refine wp_attempt _ ?_ fun _ => rfl
    cases use_host_ptr with
    | true =>
        simp only [if_true, wp_bind, wp_modify, wp_pure]
        refine wp_attempt _ ?_ fun _ => rfl
        refine wp_attempt _ ?_ fun _ => rfl
        refine wp_attempt _ ?_ fun _ => rfl
        exact ⟨rfl, fun device => absurd device (by simp)⟩
    | false =>
        simp only [Bool.false_eq_true, if_false, wp_bind, wp_get, wp_modify, wp_pure]
        refine wp_createBuffer (fun d_a input => ?_) fun _ => rfl
        refine wp_createBuffer (fun d_b output => ?_) fun _ => rfl
        refine wp_attempt _ ?_ fun _ => rfl
        refine wp_attempt _ ?_ fun _ => rfl
        refine wp_attempt _ ?_ fun _ => rfl
        rw [if_pos trivial]
        exact ⟨rfl, fun _ => ⟨d_a, d_b, _, _, rfl, rfl, input, output, by simp⟩⟩
  · subst same
    rfl

/-- A successful initialization decides the mode and, unless it has host pointers, creates
the buffers. -/
theorem separate_init
    (initialized : erode3x3_cl_init outage platforms w h use_host_ptr world = (0, after)) :
    after.useHostPtr = use_host_ptr ∧ Separate after := by
  unfold erode3x3_cl_init at initialized
  split at initialized
  · next value left ended =>
      obtain ⟨rfl, rfl⟩ := Prod.mk.inj initialized
      exact wp_ok wp_initBlock ended
  · have code : (-1 : Int32) = 0 := congrArg Prod.fst initialized
    exact absurd code (by decide)

/-- An initialization that fails creates no kernel. -/
theorem kernel_init (failed : (erode3x3_cl_init outage platforms w h use_host_ptr world).1 ≠ 0) :
    (erode3x3_cl_init outage platforms w h use_host_ptr world).2.kernel = world.kernel := by
  unfold erode3x3_cl_init at failed ⊢
  split at failed
  · next value left ended =>
      have created := wp_ok wp_initBlock ended
      rw [if_neg failed] at created
      exact created
  · next error left ended =>
      have kept := wp_error wp_initBlock ended
      exact kept

end Initialization

/-! ## Calls -/

section Call

variable {outage : ErodeCall → Option Int32} {made : ErodeCall → ℤ → Bool}
  {order : List (ℤ × ℤ)} {in_data out_data : ℕ} {w h : ℤ} {world after : World}

theorem Keeps.trans {first second third : World} (keeps : Keeps first second)
    (again : Keeps second third) : Keeps first third := by
  refine ⟨again.1.trans keeps.1, fun device => ?_⟩
  obtain ⟨input, output⟩ := keeps.2 device
  obtain ⟨input', output'⟩ := again.2 (keeps.1.trans device)
  exact ⟨input'.trans input, output'.trans output⟩

theorem Separate.of_keeps (separate : Separate world) (keeps : Keeps world after) :
    Separate after := by
  intro device
  have mode := keeps.1.symm.trans device
  rw [(keeps.2 mode).1, (keeps.2 mode).2]
  exact separate mode

theorem keeps_call : Keeps world (erode3x3_cl outage made order in_data out_data w h world).2 := by
  unfold erode3x3_cl
  split
  · next ended => exact (wp_ok wp_erodeBlock ended).1
  · next ended => exact (wp_error wp_erodeBlock ended).1

/-- What a call depends on besides its arrays. -/
def World.setting (world : World) (ordered : order.Perm (erodeRange w h).workItems)
    (input output : Memory) : Setting w h where
  use_host_ptr := world.useHostPtr
  freshA := world.memory input
  freshB := world.memory output
  order := order
  ordered := ordered

/-- Where the calls of a session with buffers of its own read and write. -/
theorem Separate.devices (separate : Separate world) (device : world.useHostPtr = false) :
    ∃ a b, a ≠ b ∧
      (∀ in_data input, Reads world in_data input → input = .device a) ∧
        ∀ out_data output, Writes world out_data output → output = .device b := by
  obtain ⟨d_a, d_b, a, b, first, second, input, output, apart⟩ := separate device
  refine ⟨a, b, apart, fun _ found reads => ?_, fun _ found writes => ?_⟩
  · rw [Reads, if_neg (by simp [device])] at reads
    obtain ⟨_, present, rfl⟩ := reads
    obtain rfl := Option.some.inj (first.symm.trans present)
    exact input
  · rw [Writes, if_neg (by simp [device])] at writes
    obtain ⟨_, present, rfl⟩ := writes
    obtain rfl := Option.some.inj (second.symm.trans present)
    exact output

/-- The memories of a call are different ones. -/
theorem Separate.apart (separate : Separate world) (different : in_data ≠ out_data)
    {input output : Memory} (reads : Reads world in_data input)
    (writes : Writes world out_data output) : input ≠ output := by
  cases mode : world.useHostPtr with
  | true =>
      rw [reads.host mode, writes.host mode]
      exact fun same => different (Memory.host.inj same)
  | false =>
      obtain ⟨a, b, apart, input', output'⟩ := separate.devices mode
      rw [input' _ _ reads, output' _ _ writes]
      exact fun same => apart (Memory.device.inj same)

/-- What a completed call leaves in the caller's output array is what the model without
errors says. -/
theorem completed_output (separate : Separate world) (different : in_data ≠ out_data)
    (ordered : order.Perm (erodeRange w h).workItems) {input output : Memory}
    (reads : Reads world in_data input) (writes : Writes world out_data output) :
    copied (w * h) output (.host out_data) (fun _ => true)
        (launched order ⟨input, output, w⟩ (fun _ => true)
          (uploaded world in_data (w * h) input fun _ => true)) (.host out_data) =
      (world.setting ordered input output).output (world.memory (.host in_data))
        (world.memory (.host out_data)) := by
  have apart := separate.apart different reads writes
  cases mode : world.useHostPtr with
  | true =>
      obtain rfl := reads.host mode
      obtain rfl := writes.host mode
      simp [copied, launched, uploaded, mode, Setting.output, OpenCl.erode3x3_cl,
        OpenCl.erode3x3_cl_init, World.setting]
  | false =>
      obtain ⟨a, b, _, input', output'⟩ := separate.devices mode
      obtain rfl := input' _ _ reads
      obtain rfl := output' _ _ writes
      have other : Memory.device b ≠ .device a := apart.symm
      simp [copied, launched, uploaded, mode, Setting.output, OpenCl.erode3x3_cl,
        OpenCl.erode3x3_cl_init, World.setting, Function.update_of_ne other]

/-- What the output of the kernel starts with. -/
theorem setting_start {ordered : order.Perm (erodeRange w h).workItems} {input output : Memory}
    (writes : Writes world out_data output) :
    (world.setting ordered input output).start (world.memory (.host out_data)) =
      world.memory output := by
  unfold Setting.start World.setting
  cases mode : world.useHostPtr with
  | true => rw [writes.host mode, if_pos rfl]
  | false => rw [if_neg (by simp)]

/-- What a call that reports nothing leaves. -/
theorem completed_memory
    (completed : erode3x3_cl outage made order in_data out_data w h world = (none, after)) :
    Keeps world after ∧ ∃ input output, Reads world in_data input ∧
      Writes world out_data output ∧
        (0 < (erodeRange w h).globalSize.1 ∧ 0 < (erodeRange w h).globalSize.2) ∧
          after.memory = copied (w * h) output (.host out_data) (fun _ => true)
            (launched order ⟨input, output, w⟩ (fun _ => true)
              (uploaded world in_data (w * h) input fun _ => true)) := by
  unfold erode3x3_cl at completed
  split at completed
  · next value left ended =>
      obtain ⟨_, rfl⟩ := Prod.mk.inj completed
      exact wp_ok wp_erodeBlock ended
  · cases (Prod.mk.inj completed).1

/-- What a call that reports an error leaves. -/
theorem failed_memory {error : Int32}
    (failed : erode3x3_cl outage made order in_data out_data w h world = (some error, after)) :
    Interrupted order in_data out_data w h world after.memory := by
  unfold erode3x3_cl at failed
  split at failed
  · cases (Prod.mk.inj failed).1
  · next thrown left ended =>
      obtain ⟨_, rfl⟩ := Prod.mk.inj failed
      exact (wp_error wp_erodeBlock ended).2

/-- Before the kernel runs a call has changed no array of the caller. -/
theorem uploaded_host (separate : Separate world) {input : Memory}
    (reads : Reads world in_data input) (bytes : ℤ) (made : ℤ → Bool) (array : ℕ) :
    uploaded world in_data bytes input made (.host array) = world.memory (.host array) := by
  cases mode : world.useHostPtr with
  | true => simp [uploaded, mode]
  | false =>
      obtain ⟨a, _, _, input', _⟩ := separate.devices mode
      simp [uploaded, copied, mode, input' _ _ reads]

/-- Nor has it changed the output buffer. -/
theorem uploaded_output (separate : Separate world) (different : in_data ≠ out_data)
    {input output : Memory} (reads : Reads world in_data input)
    (writes : Writes world out_data output) (bytes : ℤ) (made : ℤ → Bool) :
    uploaded world in_data bytes input made output = world.memory output := by
  have apart := separate.apart different reads writes
  unfold uploaded
  split
  · rfl
  · rw [copied, Function.update_of_ne apart.symm]

/-- The input buffer holds the image. -/
theorem uploaded_input {input : Memory} (reads : Reads world in_data input) {bytes k : ℤ}
    (inside : 0 ≤ k ∧ k < bytes) :
    uploaded world in_data bytes input (fun _ => true) input k =
      world.memory (.host in_data) k := by
  cases mode : world.useHostPtr with
  | true => simp [uploaded, mode, reads.host mode]
  | false => simp [uploaded, copied, copyBytes, mode, inside]

/-- The kernel changes no array of the caller but, with host pointers, its output. -/
theorem launched_host (separate : Separate world) {input output : Memory}
    (reads : Reads world in_data input) (writes : Writes world out_data output) (bytes : ℤ)
    (stored : ℤ → Bool) {array : ℕ} (apart : world.useHostPtr = true → array ≠ out_data) :
    launched order ⟨input, output, w⟩ stored (uploaded world in_data bytes input fun _ => true)
        (.host array) = world.memory (.host array) := by
  rw [launched, Function.update_of_ne, uploaded_host separate reads]
  cases mode : world.useHostPtr with
  | true => simp [writes.host mode, apart mode]
  | false =>
      obtain ⟨_, b, _, _, output'⟩ := separate.devices mode
      simp [output' _ _ writes]

end Call

/-- A range of work-items that is not empty belongs to an image with inner pixels. -/
theorem large_of_sizes {w h : ℤ}
    (sizes : 0 < (erodeRange w h).globalSize.1 ∧ 0 < (erodeRange w h).globalSize.2) :
    10 ≤ w ∧ 3 ≤ h := by
  obtain ⟨columns, rows⟩ := sizes
  dsimp only [erodeRange] at columns rows
  refine ⟨?_, by omega⟩
  by_contra narrow
  rcases le_or_gt 2 w with wide | thin
  · rw [tdiv_width wide] at columns
    omega
  · have negated : Int.tdiv (w - 2) 8 = -Int.tdiv (2 - w) 8 := by
      rw [← Int.neg_tdiv, neg_sub]
    have := Int.tdiv_nonneg (by omega : 0 ≤ 2 - w) (by decide : (0 : ℤ) ≤ 8)
    omega

/-- The scalar code at an inner pixel. -/
theorem scalar_inner {w h : ℤ} (large : 10 ≤ w ∧ 3 ≤ h) {image : ℤ → UInt8} {pixel : ℤ × ℤ}
    (inside : pixel ∈ inner w h) (content : ℤ → UInt8) :
    replay ((Scalar.erode3x3 0 0 w h).stores image) content (address w pixel) =
      erosion (raster image w) w h pixel :=
  (Scalar.paints_erode3x3 (by omega) (by omega) image).replay_inside
    (fun _ member => ⟨member.1, member.2.1⟩) content (Setting.inner_frame inside)

/-- Where some of the stores of a kernel were made, each byte is what it was or what the scalar
code computes. -/
theorem launched_output {in_data out_data : ℕ} {w h : ℤ} {world : World} {order : List (ℤ × ℤ)}
    (separate : Separate world) (different : in_data ≠ out_data)
    (ordered : order.Perm (erodeRange w h).workItems) {input output : Memory}
    (reads : Reads world in_data input) (writes : Writes world out_data output)
    (large : 10 ≤ w ∧ 3 ≤ h) (stored : ℤ → Bool) (scalarContent : ℤ → UInt8) (k : ℤ) :
    (∃ pixel ∈ inner w h, k = address w pixel ∧
        launched order ⟨input, output, w⟩ stored
            (uploaded world in_data (w * h) input fun _ => true) output k =
          replay ((Scalar.erode3x3 0 0 w h).stores (world.memory (.host in_data))) scalarContent
            k) ∨
      (stored k = true → ∀ pixel ∈ inner w h, k ≠ address w pixel) ∧
        launched order ⟨input, output, w⟩ stored
            (uploaded world in_data (w * h) input fun _ => true) output k =
          world.memory output k := by
  have paints := paints_enqueueNDRangeKernel (by omega)
    (uploaded world in_data (w * h) input (fun _ => true) input) ordered
  have framed : ∀ pixel ∈ inner w h, 0 ≤ pixel.1 ∧ pixel.1 < w := fun pixel member =>
    ⟨(Setting.inner_frame member).1, (Setting.inner_frame member).2.1⟩
  rw [launched, Function.update_self, uploaded_output separate different reads writes]
  by_cases chosen : stored k = true ∧ ∃ pixel ∈ inner w h, k = address w pixel
  · obtain ⟨kept, pixel, inside, rfl⟩ := chosen
    left
    refine ⟨pixel, inside, rfl, ?_⟩
    rw [scalar_inner large inside, replay_eq_lastStored, lastStored_filter kept,
      ← replay_eq_lastStored, paints.replay_inside framed _ inside]
    exact erosion_raster_congr (fun _ lower upper => uploaded_input reads ⟨lower, upper⟩)
      (Setting.inner_frame inside)
  · right
    refine ⟨fun kept pixel inside same => chosen ⟨kept, pixel, inside, same⟩, ?_⟩
    apply replay_of_not_stored
    intro value listed
    obtain ⟨among, kept⟩ := List.mem_filter.mp listed
    obtain ⟨pixel, inside, same, _⟩ := (paints _ _).mp among
    exact chosen ⟨kept, pixel, inside, same⟩

section Outputs

variable {in_data out_data : ℕ} {w h : ℤ} {world : World} {order : List (ℤ × ℤ)}
  (separate : Separate world) (different : in_data ≠ out_data)
  (ordered : order.Perm (erodeRange w h).workItems) {input output : Memory}
  (reads : Reads world in_data input) (writes : Writes world out_data output)
  (large : 10 ≤ w ∧ 3 ≤ h) (stored : ℤ → Bool) (scalarContent : ℤ → UInt8) (k : ℤ)

include separate different ordered reads writes large

/-- The caller's output where a kernel has made some of its stores. -/
theorem interrupted_output :
    launched order ⟨input, output, w⟩ stored
        (uploaded world in_data (w * h) input fun _ => true) (.host out_data) k =
      world.memory (.host out_data) k ∨
    ∃ pixel ∈ inner w h, k = address w pixel ∧
      launched order ⟨input, output, w⟩ stored
          (uploaded world in_data (w * h) input fun _ => true) (.host out_data) k =
        replay ((Scalar.erode3x3 0 0 w h).stores (world.memory (.host in_data))) scalarContent
          k := by
  cases mode : world.useHostPtr with
  | false =>
      left
      rw [launched_host separate reads writes (w * h) stored fun shared => by
        simp [mode] at shared]
  | true =>
      obtain rfl := writes.host mode
      exact (launched_output separate different ordered reads writes large stored scalarContent
        k).symm.imp (fun kept => kept.2) id

/-- The caller's output where the kernel is done and some bytes were read back. -/
theorem readBack_output :
    let after := copied (w * h) output (.host out_data) stored
      (launched order ⟨input, output, w⟩ (fun _ => true)
        (uploaded world in_data (w * h) input fun _ => true)) (.host out_data) k
    after = world.memory (.host out_data) k ∨
      (∃ pixel ∈ inner w h, k = address w pixel ∧ after =
        replay ((Scalar.erode3x3 0 0 w h).stores (world.memory (.host in_data))) scalarContent
          k) ∨
      (world.useHostPtr = false ∧ (∃ pixel ∈ frame w h, pixel ∉ inner w h ∧ k = address w pixel) ∧
        after = world.memory output k) := by
  intro after
  by_cases read : stored k = true ∧ 0 ≤ k ∧ k < w * h
  · have same : after = launched order ⟨input, output, w⟩ (fun _ => true)
        (uploaded world in_data (w * h) input fun _ => true) output k := by
      simp only [after, copied, Function.update_self, if_pos read.1, copyBytes, if_pos read.2]
    rw [same]
    rcases launched_output separate different ordered reads writes large (fun _ => true)
      scalarContent k with computed | ⟨outside, kept⟩
    · exact Or.inr (Or.inl computed)
    · cases mode : world.useHostPtr with
      | true =>
          left
          rw [kept, writes.host mode]
      | false =>
          obtain ⟨pixel, framed, rfl⟩ := exists_pixel read.2.1 read.2.2 (by omega)
          exact Or.inr (Or.inr ⟨rfl, ⟨pixel, framed, fun inside =>
            outside rfl pixel inside rfl, rfl⟩, kept⟩)
  · have same : after = launched order ⟨input, output, w⟩ (fun _ => true)
        (uploaded world in_data (w * h) input fun _ => true) (.host out_data) k := by
      simp only [after, copied, Function.update_self, copyBytes]
      split
      · next chosen => rw [if_neg fun inside => read ⟨chosen, inside⟩]
      · rfl
    rw [same]
    exact (interrupted_output separate different ordered reads writes large (fun _ => true)
      scalarContent k).imp_right Or.inl

end Outputs

/-- What may happen between an initialization and a call: other calls, and changes of the
memory. The caller uses its arrays, and a kernel whose wait has failed may still store. -/
inductive Next : World → World → Prop
  | call (outage : ErodeCall → Option Int32) (made : ErodeCall → ℤ → Bool)
      (order : List (ℤ × ℤ)) (in_data out_data : ℕ) (w h : ℤ) (world : World) :
      Next world (erode3x3_cl outage made order in_data out_data w h world).2
  | store (memory : Memory → ℤ → UInt8) (world : World) :
      Next world { world with memory := memory }

theorem Next.keeps {world after : World} (next : Next world after) : Keeps world after := by
  cases next with
  | call => exact keeps_call
  | store => exact ⟨rfl, fun _ => ⟨rfl, rfl⟩⟩

/-- Any number of these. -/
abbrev History : World → World → Prop := Relation.ReflTransGen Next

theorem History.keeps {world after : World} (history : History world after) :
    Keeps world after := by
  induction history with
  | refl => exact ⟨rfl, fun _ => ⟨rfl, rfl⟩⟩
  | tail _ next ih => exact ih.trans next.keeps

section History

variable {initOutage : InitCall → Option Int32} {platforms : ℕ} {w₀ h₀ : ℤ}
  {use_host_ptr : Bool} {outage : ErodeCall → Option Int32} {made : ErodeCall → ℤ → Bool}
  {order : List (ℤ × ℤ)} {in_data out_data : ℕ} {w h : ℤ} {past first world after : World}
  (initialized : erode3x3_cl_init initOutage platforms w₀ h₀ use_host_ptr past = (0, first))
  (history : History first world) (different : in_data ≠ out_data)
  (ordered : order.Perm (erodeRange w h).workItems)

include initialized history

theorem separate_of_history : world.useHostPtr = use_host_ptr ∧ Separate world := by
  obtain ⟨mode, separate⟩ := separate_init initialized
  exact ⟨history.keeps.1.trans mode, separate.of_keeps history.keeps⟩

include different ordered

/-- **A call that reports nothing has eroded its own input.** Whatever was initialized before,
which calls failed since and what the caller did to its arrays: the inner pixels are those
of the scalar code. Around them are the bytes of the caller with host pointers, and those of
the output buffer of the session without; no other byte of the caller has changed. -/
theorem erode3x3_cl_completed
    (completed : erode3x3_cl outage made order in_data out_data w h world = (none, after))
    (scalarContent : ℤ → UInt8) :
    (10 ≤ w ∧ 3 ≤ h) ∧
    (∀ x y, 1 ≤ x → x ≤ (w - 2) / 8 * 8 → 1 ≤ y → y ≤ h - 2 →
      after.memory (.host out_data) (y * w + x) =
        replay ((Scalar.erode3x3 0 0 w h).stores (world.memory (.host in_data))) scalarContent
          (y * w + x)) ∧
    (∃ output, Writes world out_data output ∧ ∀ pixel ∈ frame w h, pixel ∉ inner w h →
      after.memory (.host out_data) (address w pixel) =
        world.memory output (address w pixel)) ∧
    (∀ k, ¬ (0 ≤ k ∧ k < w * h) →
      after.memory (.host out_data) k = world.memory (.host out_data) k) ∧
    ∀ array, array ≠ out_data →
      after.memory (.host array) = world.memory (.host array) := by
  obtain ⟨_, separate⟩ := separate_of_history initialized history
  obtain ⟨_, input, output, reads, writes, sizes, memory⟩ := completed_memory completed
  have large := large_of_sizes sizes
  have left := completed_output separate different ordered reads writes
  rw [← memory] at left
  refine ⟨large, fun x y first last top bottom => ?_,
    ⟨output, writes, fun pixel inside border => ?_⟩, fun k outside => ?_, fun array other => ?_⟩
  · have inside : (x, y) ∈ inner w h := ⟨⟨first, last⟩, top, bottom⟩
    have computed := (world.setting ordered input output).output_inner
      (world.memory (.host in_data)) (world.memory (.host out_data)) (by omega) inside
    rw [← left] at computed
    exact computed.trans (scalar_inner large inside scalarContent).symm
  · rw [left, (world.setting ordered input output).output_border _ _ (by omega) inside border,
      setting_start writes]
  · rw [left]
    exact (world.setting ordered input output).output_outside _ _ (by omega) outside
  · rw [memory, copied, Function.update_of_ne (by simp [other])]
    exact launched_host separate reads writes _ _ fun _ => other

/-- **What a call that reports an error may leave.** Wherever it has failed, and however far
the kernel or a transfer had come by then, no array but its output has changed, so not its
input. A byte of its output is the one it was, or at an inner pixel the one of the scalar
code, or, in a session with buffers of its own and on the border of the image, the one of the
output buffer. -/
theorem erode3x3_cl_failed {error : Int32}
    (failed : erode3x3_cl outage made order in_data out_data w h world = (some error, after))
    (scalarContent : ℤ → UInt8) :
    (∀ array, array ≠ out_data → after.memory (.host array) = world.memory (.host array)) ∧
    ∀ k, after.memory (.host out_data) k = world.memory (.host out_data) k ∨
      (∃ pixel ∈ inner w h, k = address w pixel ∧
        after.memory (.host out_data) k =
          replay ((Scalar.erode3x3 0 0 w h).stores (world.memory (.host in_data))) scalarContent
            k) ∨
      (use_host_ptr = false ∧ (∃ pixel ∈ frame w h, pixel ∉ inner w h ∧ k = address w pixel) ∧
        ∃ output, Writes world out_data output ∧
          after.memory (.host out_data) k = world.memory output k) := by
  obtain ⟨mode, separate⟩ := separate_of_history initialized history
  have left := failed_memory failed
  generalize after.memory = memory at left ⊢
  cases left with
  | untouched => exact ⟨fun _ _ => rfl, fun _ => Or.inl rfl⟩
  | @upload input reads stored =>
      have kept := uploaded_host separate reads (w * h) stored
      exact ⟨fun array _ => kept array, fun k => Or.inl (congrFun (kept out_data) k)⟩
  | @kernel input output reads writes sizes stored =>
      refine ⟨fun array other => ?_, fun k => ?_⟩
      · exact launched_host separate reads writes (w * h) stored fun _ => other
      · exact (interrupted_output separate different ordered reads writes (large_of_sizes sizes)
          stored scalarContent k).imp_right Or.inl
  | @readBack input output reads writes sizes stored =>
      refine ⟨fun array other => ?_, fun k => ?_⟩
      · rw [copied, Function.update_of_ne (by simp [other])]
        exact launched_host separate reads writes (w * h) _ fun _ => other
      · rcases readBack_output separate different ordered reads writes (large_of_sizes sizes)
          stored scalarContent k with old | computed | ⟨device, border, held⟩
        · exact Or.inl old
        · exact Or.inr (Or.inl computed)
        · exact Or.inr (Or.inr ⟨mode.symm.trans device, border, output, writes, held⟩)

end History

/-- The program at its start, with its arrays and the bytes the device will show. -/
def World.start (memory : Memory → ℤ → UInt8) : World where
  kernel := none
  queue := none
  d_a := none
  d_b := none
  context := none
  useHostPtr := false
  memory := memory
  objects := 0

/-- A session of ten by three pixels, and a call of it that fails after some others. -/
def World.tenByThree (use_host_ptr : Bool) : World :=
  (erode3x3_cl_init (fun _ => none) 1 10 3 use_host_ptr
    (.start fun _ k => k.toNat.toUInt8)).2

/-- A call after one that failed when it enqueued the kernel. -/
theorem erode3x3_cl_completed_ten_by_three :
    ∃ world after,
      world = (erode3x3_cl (fun call => if call matches .enqueue then some (-5) else none)
        (fun _ _ => false) [(1, 1)] 2 3 10 3 (.tenByThree false)).2 ∧
      erode3x3_cl (fun _ => none) (fun _ _ => false) [(1, 1)] 0 1 10 3 world = (none, after) ∧
        after.memory (.host 1) (1 * 10 + 3) =
          replay ((Scalar.erode3x3 0 0 10 3).stores (world.memory (.host 0))) (fun _ => 0)
            (1 * 10 + 3) := by
  have initialized : erode3x3_cl_init (fun _ => none) 1 10 3 false
      (.start fun _ k => k.toNat.toUInt8) = (0, .tenByThree false) := rfl
  obtain ⟨world, failed⟩ : ∃ world, world =
      (erode3x3_cl (fun call => if call matches .enqueue then some (-5) else none)
        (fun _ _ => false) [(1, 1)] 2 3 10 3 (.tenByThree false)).2 := ⟨_, rfl⟩
  obtain ⟨after, completed⟩ : ∃ after,
      erode3x3_cl (fun _ => none) (fun _ _ => false) [(1, 1)] 0 1 10 3 world = (none, after) := by
    rw [failed]
    exact ⟨_, rfl⟩
  have history : History (.tenByThree false) world := by
    rw [failed]
    exact .single (.call _ _ _ _ _ _ _ _)
  exact ⟨world, after, failed, completed, (erode3x3_cl_completed initialized history (by decide)
    (by decide) completed fun _ => 0).2.1 3 1 (by decide) (by decide) (by decide) (by decide)⟩

/-- A kernel that has stored two of its eight bytes when the wait for it fails. -/
theorem erode3x3_cl_failed_ten_by_three :
    ∃ after,
      erode3x3_cl (fun call => if call matches .wait then some (-14) else none)
        (fun _ k => k < 13) [(1, 1)] 0 1 10 3 (.tenByThree true) = (some (-14), after) ∧
      (after.memory (.host 1) 12 = 1 ∧ after.memory (.host 1) 13 = 13) ∧
      after.memory (.host 0) = (World.tenByThree true).memory (.host 0) := by
  have initialized : erode3x3_cl_init (fun _ => none) 1 10 3 true
      (.start fun _ k => k.toNat.toUInt8) = (0, .tenByThree true) := rfl
  obtain ⟨after, failed⟩ : ∃ after,
      erode3x3_cl (fun call => if call matches .wait then some (-14) else none)
        (fun _ k => k < 13) [(1, 1)] 0 1 10 3 (.tenByThree true) = (some (-14), after) := ⟨_, rfl⟩
  refine ⟨after, failed, ?_, (erode3x3_cl_failed initialized .refl (by decide) (by decide) failed
    fun _ => 0).1 0 (by decide)⟩
  have left := congrArg Prod.snd failed
  dsimp only at left
  rw [← left]
  decide

/-! ## Before an initialization has returned zero -/

/-- What may happen before. -/
inductive Attempt : World → World → Prop
  | next {world after : World} (next : Next world after) : Attempt world after
  | init {outage : InitCall → Option Int32} {platforms : ℕ} {w h : ℤ} {use_host_ptr : Bool}
      {world : World}
      (failed : (erode3x3_cl_init outage platforms w h use_host_ptr world).1 ≠ 0) :
      Attempt world (erode3x3_cl_init outage platforms w h use_host_ptr world).2

section Unset

variable {outage : ErodeCall → Option Int32} {made : ErodeCall → ℤ → Bool}
  {order : List (ℤ × ℤ)} {in_data out_data : ℕ} {w h : ℤ} {first world : World}

theorem wp_erodeBlock_unset (unset : world.kernel = none) :
    wp (erodeBlock outage made order in_data out_data w h) (fun _ _ => False)
      (fun _ after => after.kernel = none) world := by
  have stops (after : World) (unset : after.kernel = none) :
      wp (runKernel outage made order out_data w h (w * h)) (fun _ _ => False)
        (fun _ after => after.kernel = none) after := by
    simp only [runKernel, wp_bind]
    exact wp_setArg (fun kernel set => absurd (unset.symm.trans set) (by simp)) fun _ => unset
  simp only [erodeBlock, bindBuffers, wp_bind, wp_get]
  split
  · simp only [wp_bind, wp_modify]
    refine wp_createBuffer (fun d_a _ => ?_) fun _ => unset
    exact wp_createBuffer (fun d_b _ => stops _ unset) fun _ => unset
  · simp only [enqueueWriteBuffer, wp_bind]
    refine wp_transferable (fun _ _ _ => ?_) fun _ => unset
    exact wp_perform (stops _ unset) fun _ => unset

theorem Next.kernel {after : World} (next : Next world after) (unset : world.kernel = none) :
    after.kernel = none := by
  cases next with
  | call outage made order in_data out_data w h =>
      unfold erode3x3_cl
      split
      · next ended => exact (wp_ok (wp_erodeBlock_unset unset) ended).elim
      · next ended => exact wp_error (wp_erodeBlock_unset unset) ended
  | store => exact unset

/-- **Until an initialization has returned zero every call reports an error**, however many
initializations have failed and wherever. -/
theorem erode3x3_cl_reports (unset : first.kernel = none)
    (attempts : Relation.ReflTransGen Attempt first world) :
    ∃ error, (erode3x3_cl outage made order in_data out_data w h world).1 = some error := by
  have still : world.kernel = none := by
    induction attempts with
    | refl => exact unset
    | tail _ attempt ih =>
        cases attempt with
        | next next => exact next.kernel ih
        | init failed => exact (kernel_init failed).trans ih
  unfold erode3x3_cl
  split
  · next ended => exact (wp_ok (wp_erodeBlock_unset still) ended).elim
  · next error _ _ => exact ⟨error, rfl⟩

end Unset

/-- No platform, and a call nevertheless. -/
theorem erode3x3_cl_reports_no_platform :
    ∃ error, (erode3x3_cl (fun _ => none) (fun _ _ => false) [] 0 1 10 3
      (erode3x3_cl_init (fun _ => none) 0 10 3 true (.start fun _ _ => 0)).2).1 = some error :=
  @erode3x3_cl_reports _ _ _ _ _ _ _ (.start fun _ _ => 0) _ rfl (.single (.init (by decide)))

end ErodeTest.OpenCl.Calls
