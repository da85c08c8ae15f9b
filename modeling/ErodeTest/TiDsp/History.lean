import ErodeTest.TiDsp.Session

/-! # Histories of the TI DSP implementation

In every history of initializations and frames, whatever calls to the platform fail, a frame
ends normally, by an exception of a call that maps or unmaps a buffer, which nothing
catches, or, if a work-item begins at the last row but one, by a launch that copies from
outside its buffer. It does nothing else the platform leaves undefined: no buffer is mapped
twice, or used by a launch while it is mapped, and no copy goes past the end of a mapping.
If a frame ends normally and has reported nothing, its image is the one of the scalar code
(`ErodeTest.TiDsp.Calls.Reached.frame_left`).
-/

namespace ErodeTest.TiDsp.Calls

open Fallible BufferProgram Morphology
open OpenCl (copyBytes)
open OpenCl.Calls (InitCall)

variable {capacity : ℤ} {world : World}

/-! ## What a call does -/

section Rules

variable {α : Type} {post : Unit → World → Prop} {thrown : Failure → World → Prop}

theorem wp_call (what : String) (outage : Option Int32) (goes : post () world)
    (stops : ∀ err, thrown (refusal what err) world) : wp (call what outage) post thrown world := by
  cases outage with
  | none => exact goes
  | some err => exact stops err

theorem wp_caught {post : α → World → Prop} (value : α) {block : Code α}
    (kept : wp block post (fun failure after =>
      match failure with
      | .exception error => post value { after with stderr := after.stderr ++ [error] }
      | other => thrown other after) world) :
    wp (caught value block) post thrown world := by
  rw [caught, wp_catching]
  refine wp_mono kept (fun _ _ ended => ended) fun failure after ended => ?_
  cases failure with
  | exception error => exact ended
  | assertion => exact ended
  | undefined => exact ended

theorem wp_usable {post : Buffer → World → Prop} {what : String} {queue : Option ℕ}
    {buffer : Option Buffer}
    (goes : ∀ found, buffer = some found → queue = some found.context → post found world)
    (stops : ∀ err, thrown (refusal what err) world) :
    wp (usable what queue buffer) post thrown world := by
  simp only [usable, wp_bind, wp_pure]
  refine wp_ofOption _ _ (fun context queued => ?_) (stops _)
  refine wp_ofOption _ _ (fun found present => ?_) (stops _)
  exact wp_ensure _ _ (fun same => goes found present (same ▸ queued)) (stops _)

theorem wp_enqueueMapBuffer {post : Memory → World → Prop} {outage : Option Int32}
    {buffer : Option Buffer} {writes : Bool} {bytes : ℤ}
    (unmapped : ∀ buffer, world.mappings buffer = none)
    (goes : ∀ found, buffer = some found → world.queue = some found.context →
      0 < bytes ∧ bytes ≤ found.bytes →
        post (.mapped found.name) (world.map found.name writes bytes))
    (stops : ∀ err, thrown (refusal "clEnqueueMapBuffer" err) world) :
    wp (enqueueMapBuffer outage buffer writes bytes) post thrown world := by
  simp only [enqueueMapBuffer, wp_bind, wp_get, wp_modify, wp_pure]
  refine wp_call _ _ (wp_usable (fun found present queued => ?_) stops) stops
  refine wp_ensure _ _ (fun fits => ?_) (stops _)
  exact wp_ensure_of (unmapped found.name) _ (goes found present queued fits)

theorem wp_memcpy {target source : Memory} {bytes : ℤ} (written : world.grants true bytes target)
    (read : world.grants false bytes source) (goes : post () (world.copy target source bytes)) :
    wp (memcpy target source bytes) post thrown world := by
  simp only [memcpy, wp_bind, wp_get, wp_modify]
  exact wp_ensure_of ⟨written, read⟩ _ goes

theorem wp_enqueueUnmapMemObject {outage : Option Int32} {found : Buffer} {writes : Bool}
    {bytes : ℤ} (mapped : world.mappings found.name = some (writes, bytes))
    (goes : post () (world.unmap found.name writes bytes))
    (stops : ∀ err, thrown (refusal "clEnqueueUnMapMemObject" err) world) :
    wp (enqueueUnmapMemObject outage (some found) (.mapped found.name)) post thrown world := by
  simp only [enqueueUnmapMemObject, wp_bind, wp_get, wp_modify]
  refine wp_call _ _ (wp_usable (fun same present _ => ?_) stops) stops
  obtain rfl := Option.some.inj present
  refine wp_ensure _ _ (fun _ => ?_) (stops _)
  rw [mapped]
  exact goes

theorem wp_setArg {outage : Option Int32} {set : World → Kernel → Kernel}
    (goes : ∀ kernel, world.kernel = some kernel →
      post () { world with kernel := some (set world kernel) })
    (stops : ∀ err, thrown (refusal "clSetKernelArg" err) world) :
    wp (setArg outage set) post thrown world := by
  simp only [setArg, wp_bind, wp_get, wp_modify]
  exact wp_call _ _ (wp_ofOption _ _ goes (stops _)) stops

theorem wp_wait {device : Device capacity} {outage : Option Int32} {event : Event}
    (goes : post () (world.waited device false event))
    (stops : ∀ err, thrown (refusal "clWaitForEvents" err) (world.waited device true event)) :
    wp (wait device outage event) post thrown world := by
  cases outage with
  | none => exact goes
  | some err => exact stops err

end Rules

/-! ## Copies to and from the device -/

section Copies

theorem copyBytes_inside {bytes k : ℤ} (source target : ℤ → UInt8) (lower : 0 ≤ k)
    (upper : k < bytes) : copyBytes bytes source target k = source k := if_pos ⟨lower, upper⟩

theorem copyBytes_outside {bytes k : ℤ} (source target : ℤ → UInt8)
    (outside : ¬ (0 ≤ k ∧ k < bytes)) : copyBytes bytes source target k = target k :=
  if_neg outside

/-- Bytes copied by way of a third memory. -/
theorem copyBytes_copyBytes (bytes : ℤ) (source middle target : ℤ → UInt8) :
    copyBytes bytes (copyBytes bytes source middle) target = copyBytes bytes source target := by
  funext k
  by_cases inside : 0 ≤ k ∧ k < bytes
  · rw [copyBytes_inside _ _ inside.1 inside.2, copyBytes_inside _ _ inside.1 inside.2,
      copyBytes_inside _ _ inside.1 inside.2]
  · rw [copyBytes_outside _ _ inside, copyBytes_outside _ _ inside]

variable {post : Unit → World → Prop} {thrown : Failure → World → Prop}
  {outage : FrameCall → Option Int32}

/-- A copy by way of a mapping. -/
def World.through (world : World) (buffer : ℕ) (writes : Bool) (bytes : ℤ)
    (target source : Memory) : World :=
  ((world.map buffer writes bytes).copy target source bytes).unmap buffer writes bytes

/-- The mapping is gone in the end. -/
theorem World.through_mappings (unmapped : ∀ buffer, world.mappings buffer = none) (buffer : ℕ)
    (writes : Bool) (bytes : ℤ) (target source : Memory) :
    (world.through buffer writes bytes target source).mappings = world.mappings := by
  change Function.update (Function.update world.mappings buffer (some (writes, bytes))) buffer
    none = world.mappings
  rw [Function.update_idem, ← unmapped buffer, Function.update_eq_self]

/-- The exception of a call that maps or unmaps a buffer. -/
def Failure.Mapping (failure : Failure) : Prop :=
  ∃ what ∈ ["clEnqueueMapBuffer", "clEnqueueUnMapMemObject"], ∃ err, failure = refusal what err

theorem mapping_map (err : Int32) : (refusal "clEnqueueMapBuffer" err).Mapping :=
  ⟨_, List.mem_cons_self, err, rfl⟩

theorem mapping_unmap (err : Int32) : (refusal "clEnqueueUnMapMemObject" err).Mapping :=
  ⟨_, List.mem_cons_of_mem _ List.mem_cons_self, err, rfl⟩

/-- An image gets to the buffer. -/
theorem wp_upload {h_a : ℕ} (unmapped : ∀ buffer, world.mappings buffer = none)
    (goes : ∀ found memory, world.d_a = some found → world.queue = some found.context →
      0 < world.bytes ∧ world.bytes ≤ found.bytes →
      memory (.device found.name) = copyBytes world.bytes (world.memory (.host h_a))
        (world.memory (.device found.name)) →
      (∀ array, memory (.host array) = world.memory (.host array)) →
      (∀ buffer ≠ found.name, memory (.device buffer) = world.memory (.device buffer)) →
      post () { world with memory := memory })
    (stops : ∀ failure after, failure.Mapping → thrown failure after) :
    wp (upload outage h_a) post thrown world := by
  simp only [upload, erode3x3_tidsp_cl_map_input_buf, erode3x3_tidsp_cl_unmap_input_buf, wp_bind,
    wp_get]
  refine wp_enqueueMapBuffer unmapped (fun found present queued fits => ?_) fun err =>
    stops _ _ (mapping_map err)
  have mapped : (world.map found.name true world.bytes).mappings found.name =
      some (true, world.bytes) := Function.update_self _ _ _
  refine wp_memcpy (by simp [World.grants, World.bytes, World.map]) rfl ?_
  change wp (enqueueUnmapMemObject _ world.d_a _) _ _ _
  rw [present]
  refine wp_enqueueUnmapMemObject mapped ?_ fun err => stops _ _ (mapping_unmap err)
  have same :=
    World.through_mappings unmapped found.name true world.bytes (.mapped found.name) (.host h_a)
  have left := goes found
    (world.through found.name true world.bytes (.mapped found.name) (.host h_a)).memory
    present queued fits ?_ ?_ ?_
  · rw [← same] at left
    exact left
  · simp [World.through, World.unmap, World.copy, World.map, copyBytes_copyBytes]
  · intro array
    simp [World.through, World.unmap, World.copy, World.map]
  · intro buffer other
    simp [World.through, World.unmap, World.copy, World.map, other]

/-- The image of the device gets to an array. -/
theorem wp_download {h_c : ℕ} (unmapped : ∀ buffer, world.mappings buffer = none)
    (goes : ∀ found memory, world.d_b = some found →
      memory (.host h_c) = copyBytes world.bytes (world.memory (.device found.name))
        (world.memory (.host h_c)) →
      (∀ array ≠ h_c, memory (.host array) = world.memory (.host array)) →
      (∀ buffer, memory (.device buffer) = world.memory (.device buffer)) →
      post () { world with memory := memory })
    (stops : ∀ failure after, failure.Mapping → thrown failure after) :
    wp (download outage h_c) post thrown world := by
  simp only [download, erode3x3_tidsp_cl_map_output_buf, erode3x3_tidsp_cl_unmap_output_buf,
    wp_bind, wp_get]
  refine wp_enqueueMapBuffer unmapped (fun found present queued fits => ?_) fun err =>
    stops _ _ (mapping_map err)
  have mapped : (world.map found.name false world.bytes).mappings found.name =
      some (false, world.bytes) := Function.update_self _ _ _
  refine wp_memcpy rfl (by simp [World.grants, World.bytes, World.map]) ?_
  change wp (enqueueUnmapMemObject _ world.d_b _) _ _ _
  rw [present]
  refine wp_enqueueUnmapMemObject mapped ?_ fun err => stops _ _ (mapping_unmap err)
  have same :=
    World.through_mappings unmapped found.name false world.bytes (.host h_c) (.mapped found.name)
  have left := goes found
    (world.through found.name false world.bytes (.host h_c) (.mapped found.name)).memory
    present ?_ ?_ ?_
  · rw [← same] at left
    exact left
  · simp [World.through, World.unmap, World.copy, World.map, copyBytes_copyBytes]
  · intro array other
    simp [World.through, World.unmap, World.copy, World.map, other]
  · intro buffer
    simp [World.through, World.unmap, World.copy, World.map]

end Copies

/-! ## Between two calls -/

/-- A size whose bytes an `int` can count. The assertions leave it out. -/
def Countable (w h : Int32) : Prop := 0 ≤ w.toInt ∧ w.toInt * h.toInt < 2 ^ 31

/-- A size the kernel is written for. -/
structure Admitted (w h : Int32) : Prop where
  aligned : w.toInt % 8 = 0
  narrow : w.toInt < 2046
  tall : 2 < h.toInt
  countable : Countable w h

theorem Admitted.bytes {w h : Int32} (admitted : Admitted w h) :
    ((widen (w * h)).toNat : ℤ) = w.toInt * h.toInt := by
  obtain ⟨_, _, tall, nonneg, counted⟩ := admitted
  have area := mul_nonneg nonneg (by omega : 0 ≤ h.toInt)
  exact (toNat_widen_eq_iff (Int32.toInt_mul w h) area (by omega)).mpr counted

/-- The numbers of rows and compute units for which no work-item begins at the last row but
one. -/
def StaysInside (rows chunks : ℤ) : Prop := 3 * chunks ≤ rows ∨ rows = 2 * chunks - 1

/-- Then the work-items copy rows of the image only. -/
theorem StaysInside.sourcesWithin {cols rows chunks bytes : ℤ} (stays : StaysInside rows chunks)
    (positive : 0 < cols) (aligned : cols % 8 = 0) (tall : 2 < rows) (fits : cols * rows ≤ bytes)
    (source : ℤ → UInt8) : SourcesWithin bytes source cols rows chunks := by
  intro id listed transfer issued entry copied
  obtain ⟨lower, upper⟩ := mem_counters_one.mp listed
  have inside := (sourcesInside_iff positive aligned tall source (fun _ => 0) (fun _ => [])
    (by omega) lower upper).mpr (by unfold StaysInside at stays; omega)
  have bounds := inside transfer issued entry copied
  rw [mul_comm] at bounds
  omega

/-- No buffer is mapped, the two buffers are different objects, those of one context are of
one size, and once there is a queue the size is one that has passed the assertions. -/
structure Idle (world : World) : Prop where
  unmapped : ∀ buffer, world.mappings buffer = none
  admitted : world.queue = none ∨ Admitted world.width world.height
  named : ∀ buffer, world.d_a = some buffer ∨ world.d_b = some buffer →
    buffer.context < world.objects ∧ buffer.name < world.objects
  apart : ∀ d_a d_b, world.d_a = some d_a → world.d_b = some d_b →
    d_a.name ≠ d_b.name ∧ (d_a.context = d_b.context → d_a.bytes = d_b.bytes)

namespace Idle

theorem keep {after : World} (idle : Idle world) (mappings : after.mappings = world.mappings)
    (queue : after.queue = world.queue) (width : after.width = world.width)
    (height : after.height = world.height) (d_a : after.d_a = world.d_a)
    (d_b : after.d_b = world.d_b) (objects : world.objects ≤ after.objects) : Idle after where
  unmapped buffer := by rw [mappings, idle.unmapped]
  admitted := by rw [queue, width, height]; exact idle.admitted
  named buffer found := by
    rw [d_a, d_b] at found
    have := idle.named buffer found
    omega
  apart := by rw [d_a, d_b]; exact idle.apart

theorem newQueue (idle : Idle world) (admitted : Admitted world.width world.height)
    (queue : Option ℕ) : Idle { world with queue := queue } :=
  ⟨idle.unmapped, Or.inr admitted, idle.named, idle.apart⟩

/-- A new input buffer, in a context the output buffer is not in. -/
theorem newInput (idle : Idle world) (context : ℕ) (bytes : ℤ) (created : context < world.objects)
    (older : ∀ d_b, world.d_b = some d_b → d_b.context < context) :
    Idle { world with
      objects := world.objects + 1, d_a := some ⟨context, bytes, world.objects⟩ } where
  unmapped := idle.unmapped
  admitted := idle.admitted
  named buffer found := by
    rcases found with new | old
    · obtain rfl := Option.some.inj new
      exact ⟨created.trans (Nat.lt_succ_self _), Nat.lt_succ_self _⟩
    · obtain ⟨context, name⟩ := idle.named buffer (Or.inr old)
      exact ⟨context.trans (Nat.lt_succ_self _), name.trans (Nat.lt_succ_self _)⟩
  apart d_a d_b new old := by
    obtain rfl := Option.some.inj new
    have name := (idle.named d_b (Or.inr old)).2
    exact ⟨name.ne', fun same => absurd same (older d_b old).ne'⟩

/-- A new output buffer, of the size of the input buffer of its context. -/
theorem newOutput (idle : Idle world) (context : ℕ) (bytes : ℤ) (created : context < world.objects)
    (same : ∀ d_a, world.d_a = some d_a → d_a.bytes = bytes) :
    Idle { world with
      objects := world.objects + 1, d_b := some ⟨context, bytes, world.objects⟩ } where
  unmapped := idle.unmapped
  admitted := idle.admitted
  named buffer found := by
    rcases found with old | new
    · obtain ⟨context, name⟩ := idle.named buffer (Or.inl old)
      exact ⟨context.trans (Nat.lt_succ_self _), name.trans (Nat.lt_succ_self _)⟩
    · obtain rfl := Option.some.inj new
      exact ⟨created.trans (Nat.lt_succ_self _), Nat.lt_succ_self _⟩
  apart d_a d_b old new := by
    obtain rfl := Option.some.inj new
    exact ⟨(idle.named d_a (Or.inl old)).2.ne, fun _ => same d_a old⟩

/-- A launch on the buffers finds what the kernel asks for. -/
theorem launchable (idle : Idle world) (admitted : Admitted world.width world.height)
    {d_a d_b : Buffer} (input : world.d_a = some d_a) (output : world.d_b = some d_b)
    (fits : 0 < world.bytes ∧ world.bytes ≤ d_a.bytes) (same : d_a.context = d_b.context)
    (stays : StaysInside world.height.toInt world.NUMCOMPUNITS) :
    Launchable world d_a d_b world.width world.height := by
  obtain ⟨different, sizes⟩ := idle.apart d_a d_b input output
  have bytes : world.bytes = _ := admitted.bytes
  rw [bytes] at fits
  have tall := admitted.tall
  have positive : 0 < world.width.toInt := pos_of_mul_pos_left fits.1 (by omega)
  exact ⟨⟨admitted.aligned, admitted.countable.1, admitted.narrow, tall⟩,
    ⟨fits.2, sizes same ▸ fits.2⟩, ⟨different, idle.unmapped _, idle.unmapped _⟩,
    stays.sourcesWithin positive admitted.aligned tall fits.2 _⟩

end Idle

/-! ## Initialization -/

section Initialization

variable {outage : InitCall → Option Int32} {platform : Platform} {w h : Int32}

/-- How a block that catches exceptions may end: never without a definition. -/
def Defined (failure : Failure) (after : World) : Prop := failure ≠ .undefined ∧ Idle after

theorem defined_refusal (idle : Idle world) (what : String) (err : Int32) :
    Defined (refusal what err) world :=
  ⟨nofun, idle⟩

theorem defined_assertion (idle : Idle world) : Defined .assertion world := ⟨nofun, idle⟩

theorem wp_ask (idle : Idle world) (properties : List ℕ) :
    wp (each (fun property => call "clGetDeviceInfo" (outage (.info property))) properties)
      (fun _ => (· = world)) Defined world :=
  wp_each properties rfl fun _ _ _ same =>
    wp_call _ _ same fun err => defined_refusal (same ▸ idle) _ err

theorem wp_createBuffer {post : Buffer → World → Prop} {thrown : Failure → World → Prop}
    {created : Option Int32} {context : ℕ} {bytes : ℤ}
    (goes : post ⟨context, bytes, world.objects⟩ { world with objects := world.objects + 1 })
    (stops : ∀ err, thrown (refusal "clCreateBuffer" err) world) :
    wp (createBuffer created context bytes) post thrown world := by
  simp only [createBuffer, fresh, wp_bind, wp_get, wp_modify, wp_pure]
  exact wp_call _ _ (wp_ensure _ _ (fun _ => goes) (stops _)) stops

theorem wp_initBlock (idle : Idle world) (admitted : Admitted world.width world.height) :
    wp (initBlock outage platform w h) (fun _ => Idle) Defined world := by
  have stops {after : World} (kept : Idle after) {what : String} (err : Int32) :
      Defined (refusal what err) after := defined_refusal kept what err
  simp only [initBlock, fresh, wp_bind]
  refine wp_call _ _ ?_ (stops idle)
  split
  · exact idle
  simp only [wp_bind, wp_get, wp_modify, wp_pure]
  have context : Idle { world with objects := world.objects + 1 } :=
    idle.keep rfl rfl rfl rfl rfl rfl (Nat.le_succ _)
  refine wp_call _ _ (wp_call _ _ ?_ (stops context)) (stops idle)
  refine wp_mono (wp_ask context _) ?_ fun _ _ stopped => stopped
  rintro _ _ rfl
  have units : Idle { world with
      objects := world.objects + 1, NUMCOMPUNITS := platform.units } :=
    context.keep rfl rfl rfl rfl rfl rfl le_rfl
  refine wp_mono (wp_ask units _) ?_ fun _ _ stopped => stopped
  rintro _ _ rfl
  refine wp_ensure _ _ (fun _ => ?_) (defined_assertion units)
  refine wp_mono (wp_ask units _) ?_ fun _ _ stopped => stopped
  rintro _ _ rfl
  refine wp_call _ _ ?_ (stops units)
  -- the buffers of the new context are different from those of an earlier one
  have queue := units.newQueue admitted (some world.objects)
  refine wp_createBuffer ?_ (stops queue)
  have input := queue.newInput world.objects (widen (w * h)).toNat (Nat.lt_succ_self _)
    fun d_b found => (idle.named d_b (Or.inr found)).1
  refine wp_createBuffer ?_ (stops input)
  have output := input.newOutput world.objects (widen (w * h)).toNat (by dsimp only; omega)
    fun d_a found => by obtain rfl := Option.some.inj found; rfl
  refine wp_call _ _ (wp_call _ _ (wp_call _ _ ?_ (stops output)) (stops output)) (stops output)
  exact output.keep rfl rfl rfl rfl rfl rfl le_rfl

/-- A countable size that passes the assertions is admitted. -/
theorem admitted_of_asserted (countable : Countable w h) (divisible : w % 8 = 0)
    (narrow : w < 2046) (tall : h > 2) : Admitted w h where
  aligned := by
    have remainder : w.toInt.tmod 8 = 0 := by
      have eight : (8 : Int32).toInt = 8 := rfl
      rw [← eight, ← Int32.toInt_mod, divisible]
      rfl
    rw [Int.tmod_eq_emod_of_nonneg countable.1] at remainder
    exact remainder
  narrow := Int32.lt_iff_toInt_lt.mp narrow
  tall := Int32.lt_iff_toInt_lt.mp tall
  countable := countable

/-- **An initialization leaves the session idle**, or ends the program by an assertion. -/
theorem wp_init (idle : Idle world) (countable : Countable w h) :
    wp (erode3x3_tidsp_cl_init outage platform w h) (fun _ => Idle)
      (fun failure _ => failure = .assertion) world := by
  simp only [erode3x3_tidsp_cl_init, wp_bind, wp_modify]
  refine wp_ensure _ _ (fun divisible => ?_) rfl
  refine wp_ensure _ _ (fun narrow => ?_) rfl
  refine wp_ensure _ _ (fun tall => ?_) rfl
  have admitted := admitted_of_asserted countable divisible narrow tall
  have sized : Idle { world with width := w, height := h } :=
    ⟨idle.unmapped, Or.inr admitted, idle.named, idle.apart⟩
  refine wp_caught _ (wp_mono (wp_initBlock sized admitted) (fun _ _ left => left) ?_)
  intro failure after left
  cases failure with
  | exception error => exact left.2.keep rfl rfl rfl rfl rfl rfl le_rfl
  | assertion => rfl
  | undefined => exact absurd rfl left.1

/-- The size is accepted, and the buffers have the bytes the host computes. -/
def Accepted (platform : Platform) (w h : Int32) (after : World) : Prop :=
  ∃ bytes d_a d_b, TiDsp.erode3x3_tidsp_cl_init platform.toPlatform w h =
      some (0, ⟨w, h, some bytes, some bytes⟩) ∧
    (after.d_a = some d_a ∧ d_a.bytes = bytes.toNat) ∧
      after.d_b = some d_b ∧ d_b.bytes = bytes.toNat

/-- An initialization that returns zero has accepted the size. -/
theorem wp_init_accepted :
    wp (erode3x3_tidsp_cl_init outage platform w h)
      (fun value after => value = 0 → Accepted platform w h after) (fun _ _ => True) world := by
  have asked {state : World} (properties : List ℕ) :
      wp (each (fun property => call "clGetDeviceInfo" (outage (.info property))) properties)
        (fun _ => (· = state)) (fun _ _ => True) state :=
    wp_each properties rfl fun _ _ _ same => wp_call _ _ same fun _ => trivial
  have refused (after : World) : (-1 : Int32) = 0 → Accepted platform w h after :=
    fun zero => absurd zero (by decide)
  simp only [erode3x3_tidsp_cl_init, wp_bind, wp_modify]
  refine wp_ensure _ _ (fun divisible => ?_) trivial
  refine wp_ensure _ _ (fun narrow => ?_) trivial
  refine wp_ensure _ _ (fun tall => ?_) trivial
  have block (state : World) : wp (initBlock outage platform w h)
      (fun value after => value = 0 → Accepted platform w h after) (fun _ _ => True) state := by
    simp only [initBlock, fresh, wp_bind]
    refine wp_call _ _ ?_ fun _ => trivial
    split
    · exact refused _
    next several =>
    simp only [wp_bind, wp_get, wp_modify, wp_pure]
    refine wp_call _ _ (wp_call _ _ ?_ fun _ => trivial) fun _ => trivial
    refine wp_mono (asked _) ?_ fun _ _ _ => trivial
    rintro _ _ rfl
    refine wp_mono (asked _) ?_ fun _ _ _ => trivial
    rintro _ _ rfl
    refine wp_ensure _ _ (fun fits => ?_) trivial
    refine wp_mono (asked _) ?_ fun _ _ _ => trivial
    rintro _ _ rfl
    refine wp_call _ _ (wp_createBuffer (wp_createBuffer ?_ fun _ => trivial) fun _ => trivial)
      fun _ => trivial
    refine wp_call _ _ (wp_call _ _ (wp_call _ _ ?_ fun _ => trivial) fun _ => trivial)
      fun _ => trivial
    intro _
    refine ⟨_, _, _, ?_, ⟨rfl, rfl⟩, rfl, rfl⟩
    simp only [TiDsp.erode3x3_tidsp_cl_init, assert_bind]
    refine ⟨divisible, narrow, tall, ?_⟩
    rw [if_neg several]
    exact assert_bind.mpr ⟨fits, rfl⟩
  refine wp_caught _ (wp_mono (block _) (fun _ _ left => left) ?_)
  intro failure after _
  cases failure with
  | exception error => exact refused _
  | assertion => trivial
  | undefined => trivial

end Initialization

/-! ## Launches -/

section Launches

variable (device : Device capacity) {outage : FrameCall → Option Int32}

/-- What a call of `erode3x3_tidsp_cl` leaves alone. -/
structure SameSession (world after : World) : Prop where
  mappings : after.mappings = world.mappings
  queue : after.queue = world.queue
  width : after.width = world.width
  height : after.height = world.height
  d_a : after.d_a = world.d_a
  d_b : after.d_b = world.d_b
  objects : after.objects = world.objects

/-- The kernel has run, to its end unless an error is reported. -/
def Ran (world after : World) : Prop :=
  SameSession world after ∧
    ∃ d_a d_b ready several interrupted, world.d_a = some d_a ∧ world.d_b = some d_b ∧
      (interrupted = true → after.stderr ≠ world.stderr) ∧
        let left := world.waited device interrupted
          ⟨launchOf device world d_a d_b world.width world.height ready several, d_b⟩
        after.memory = left.memory ∧ after.handles = left.handles

/-- The kernel has not run, and an error is reported. -/
def Refused (world after : World) : Prop :=
  SameSession world after ∧ after.memory = world.memory ∧ after.stderr ≠ world.stderr

theorem wp_profile (outage : FrameCall → Option Int32) (state : World) :
    wp (each (fun time => call "clGetEventProfileInfo" (outage (.profile time))) (List.range 4))
      (fun _ => (· = state))
      (fun failure after => ∃ error, failure = .exception error ∧ after = state) state :=
  wp_each _ rfl fun _ _ _ same => wp_call _ _ same fun _ => ⟨_, rfl, same⟩

/-- Where the launch is undefined it copies from outside its buffer. -/
theorem wp_erode3x3_tidsp_cl (idle : Idle world) (admitted : Admitted world.width world.height)
    (fits : ∀ d_a, world.d_a = some d_a → 0 < world.bytes ∧ world.bytes ≤ d_a.bytes) :
    wp (erode3x3_tidsp_cl device outage)
      (fun _ after => Ran device world after ∨ Refused world after)
      (fun failure _ => failure = .undefined ∧
        ¬ StaysInside world.height.toInt world.NUMCOMPUNITS) world := by
  -- until the kernel runs a call only sets arguments
  have stops (kernel : Option Kernel) (error : Error) :
      Ran device world { world with kernel := kernel, stderr := world.stderr ++ [error] } ∨
        Refused world { world with kernel := kernel, stderr := world.stderr ++ [error] } :=
    Or.inr ⟨⟨rfl, rfl, rfl, rfl, rfl, rfl, rfl⟩, rfl, by simp⟩
  refine wp_caught _ ?_
  simp only [wp_bind]
  refine wp_setArg (fun first _ => ?_) fun _ => stops _ _
  refine wp_setArg (fun _ set => ?_) fun _ => stops _ _
  obtain rfl := Option.some.inj set
  refine wp_setArg (fun _ set => ?_) fun _ => stops _ _
  obtain rfl := Option.some.inj set
  refine wp_setArg (fun _ set => ?_) fun _ => stops _ _
  obtain rfl := Option.some.inj set
  simp only [enqueueNDRangeKernel, wp_bind, wp_get]
  refine wp_call _ _ ?_ fun _ => stops _ _
  refine wp_ofOption _ _ (fun queue queued => ?_) (stops _ _)
  rw [wp_ofOption_some]
  refine wp_ensure _ _ (fun _ => ?_) (stops _ _)
  refine wp_ofOption _ _ (fun d_a input => ?_) (stops _ _)
  refine wp_ofOption _ _ (fun d_b output => ?_) (stops _ _)
  rw [wp_ofOption_some, wp_ofOption_some]
  refine wp_ensure _ _ (fun contexts => ?_) (stops _ _)
  split
  · next several =>
      split
      · next ready =>
          rw [wp_pure]
          have complete (kernel : Option Kernel) (stderr : List Error) : Ran device world
              { world.waited device false
                  ⟨launchOf device world d_a d_b _ _ ready several, d_b⟩ with
                kernel := kernel, stderr := stderr } :=
            ⟨⟨rfl, rfl, rfl, rfl, rfl, rfl, rfl⟩, d_a, d_b, ready, several, false, input, output,
              fun never => absurd never Bool.false_ne_true, rfl, rfl⟩
          refine wp_wait ?_ fun err => Or.inl ⟨⟨rfl, rfl, rfl, rfl, rfl, rfl, rfl⟩, d_a, d_b, ready,
            several, true, input, output, fun _ => by simp [World.waited], rfl, rfl⟩
          -- from here on an error is reported after the kernel has come to its end
          refine wp_mono (wp_profile outage _) ?_ ?_
          · rintro _ _ rfl
            exact Or.inl (complete _ _)
          · rintro _ _ ⟨error, rfl, rfl⟩
            exact Or.inl (complete _ _)
      · next unready =>
          refine ⟨rfl, fun stays => unready ?_⟩
          exact idle.launchable admitted input output (fits d_a input)
            (contexts.1.trans contexts.2.symm) stays
  · exact stops _ _

end Launches

/-! ## What the device leaves -/

section Device

variable (device : Device capacity) (launch : Launch) {before : ℤ} {content : ℤ → UInt8}

/-- Wherever the launch stands a pixel is an old one or one of the launch. -/
theorem waited_pixel (interrupted : Bool) {pixel : ℤ × ℤ}
    (inside : pixel ∈ Morphology.frame launch.cols launch.rows) :
    ((if interrupted then device.interrupted else device.left) launch before content).2
          (address launch.cols pixel) =
        content (address launch.cols pixel) ∨
      ((if interrupted then device.interrupted else device.left) launch before content).2
          (address launch.cols pixel) =
        launchValue launch.source launch.cols launch.rows launch.chunks pixel := by
  obtain ⟨items, steps⟩ : ∃ items, launch.DestinationSteps capacity before content items
      ((if interrupted then device.interrupted else device.left) launch before content).2 := by
    cases interrupted with
    | true =>
        obtain ⟨items, steps, _⟩ := device.stops launch before content
        exact ⟨items, steps⟩
    | false =>
        obtain ⟨items, steps, _⟩ := device.runs launch before content
        exact ⟨items, steps⟩
  have states := memory_eq steps inside
  by_cases new : ∃ id, (address launch.cols pixel, launch.value pixel) ∈ itemStores (items id)
  · exact Or.inr (states.1 new)
  · exact Or.inl (states.2 (not_exists.mp new))

theorem left_of_room (room : before + launch.chunks ≤ capacity) {pixel : ℤ × ℤ}
    (inside : pixel ∈ Morphology.frame launch.cols launch.rows) :
    (device.left launch before content).2 (address launch.cols pixel) =
      launchValue launch.source launch.cols launch.rows launch.chunks pixel := by
  obtain ⟨items, steps, finished, _⟩ := device.runs launch before content
  exact memory_of_room steps room finished inside

theorem left_handles (fits : launch.chunks ≤ launch.rows) :
    (device.left launch before content).1 = before := by
  obtain ⟨items, steps, finished, handles⟩ := device.runs launch before content
  rw [handles, inUse_of_fits fits steps.moves finished]

end Device

/-- The memory and the pool after a call of `erode3x3_tidsp_cl`. -/
structure Called (capacity : ℤ) (world after : World) (d_a d_b : Buffer) : Prop where
  completed : after.stderr = world.stderr → world.handles + world.NUMCOMPUNITS ≤ capacity →
    ∀ pixel ∈ Morphology.frame world.width.toInt world.height.toInt,
      after.memory (.device d_b.name) (address world.width.toInt pixel) =
        launchValue (world.memory (.device d_a.name)) world.width.toInt world.height.toInt
          world.NUMCOMPUNITS pixel
  pixels : ∀ pixel ∈ Morphology.frame world.width.toInt world.height.toInt,
    after.memory (.device d_b.name) (address world.width.toInt pixel) =
        world.memory (.device d_b.name) (address world.width.toInt pixel) ∨
      after.memory (.device d_b.name) (address world.width.toInt pixel) =
        launchValue (world.memory (.device d_a.name)) world.width.toInt world.height.toInt
          world.NUMCOMPUNITS pixel
  hosts : ∀ array, after.memory (.host array) = world.memory (.host array)
  handles : after.stderr = world.stderr → world.NUMCOMPUNITS ≤ world.height.toInt →
    after.handles = world.handles

section Called

variable {device : Device capacity} {after : World} {d_a d_b : Buffer}

theorem Ran.called (ran : Ran device world after) (input : world.d_a = some d_a)
    (output : world.d_b = some d_b) : Called capacity world after d_a d_b := by
  obtain ⟨_, found, found', ready, several, interrupted, input', output', reported, memory,
    handles⟩ := ran
  obtain rfl := Option.some.inj (input.symm.trans input')
  obtain rfl := Option.some.inj (output.symm.trans output')
  have stored : after.memory (.device d_b.name) =
      ((if interrupted then device.interrupted else device.left)
        (launchOf device world d_a d_b _ _ ready several) world.handles
        (world.memory (.device d_b.name))).2 := by
    rw [memory]
    exact Function.update_self _ _ _
  have complete (silent : after.stderr = world.stderr) : interrupted = false := by
    by_contra stopped
    exact reported (Bool.eq_true_of_not_eq_false stopped) silent
  refine ⟨fun silent room pixel inside => ?_, fun pixel inside => ?_, fun array => ?_,
    fun silent fits => ?_⟩
  · rw [stored, complete silent]
    exact left_of_room device (launchOf device world d_a d_b _ _ ready several) room inside
  · rw [stored]
    exact waited_pixel device (launchOf device world d_a d_b _ _ ready several) interrupted inside
  · rw [memory]
    simp [World.waited]
  · rw [handles, complete silent]
    exact left_handles device (launchOf device world d_a d_b _ _ ready several) fits

theorem Refused.called (refused : Refused world after) : Called capacity world after d_a d_b := by
  obtain ⟨_, memory, reported⟩ := refused
  exact ⟨fun silent => absurd silent reported, fun _ _ => Or.inl (by rw [memory]),
    fun array => by rw [memory], fun silent => absurd silent reported⟩

end Called

/-! ## Frames -/

section Frames

variable {device : Device capacity} {outage : FrameCall → Option Int32} {h_a h_c : ℕ}
  {after : World}

theorem SameSession.idle (same : SameSession world after) (idle : Idle world) : Idle after :=
  idle.keep same.mappings same.queue same.width same.height same.d_a same.d_b same.objects.ge

/-- What a frame leaves of the arrays of the host and of the pool of handles. -/
structure FrameLeft (capacity : ℤ) (world after : World) (h_a h_c : ℕ) : Prop where
  completed : after.stderr = world.stderr → world.handles + world.NUMCOMPUNITS ≤ capacity →
    world.height.toInt / world.NUMCOMPUNITS ≠ 2 →
      ∀ content k, 0 ≤ k → k < world.width.toInt * world.height.toInt →
        after.memory (.host h_c) k =
          replay ((Scalar.erode3x3 0 0 world.width.toInt world.height.toInt).stores
            (world.memory (.host h_a))) content k
  pixels : ∃ d_b source, world.d_b = some d_b ∧
    (∀ k, 0 ≤ k → k < world.width.toInt * world.height.toInt →
      source k = world.memory (.host h_a) k) ∧
    ∀ pixel ∈ Morphology.frame world.width.toInt world.height.toInt,
      after.memory (.host h_c) (address world.width.toInt pixel) =
          world.memory (.device d_b.name) (address world.width.toInt pixel) ∨
        after.memory (.host h_c) (address world.width.toInt pixel) =
          launchValue source world.width.toInt world.height.toInt world.NUMCOMPUNITS pixel
  outside : ∀ k, ¬ (0 ≤ k ∧ k < world.width.toInt * world.height.toInt) →
    after.memory (.host h_c) k = world.memory (.host h_c) k
  others : ∀ array ≠ h_c, after.memory (.host array) = world.memory (.host array)
  handles : after.stderr = world.stderr → world.NUMCOMPUNITS ≤ world.height.toInt →
    after.handles = world.handles

/-- The value of a pixel in a launch of which no two rows go to the last work-item. -/
theorem launchValue_scalar {w h : Int32} (admitted : Admitted w h) {units : ℤ}
    (regular : h.toInt / units ≠ 2) {source image : ℤ → UInt8}
    (same : ∀ k, 0 ≤ k → k < w.toInt * h.toInt → source k = image k) {pixel : ℤ × ℤ}
    (inside : pixel ∈ Morphology.frame w.toInt h.toInt) (content : ℤ → UInt8) :
    launchValue source w.toInt h.toInt units pixel =
      replay ((Scalar.erode3x3 0 0 w.toInt h.toInt).stores image) content
        (address w.toInt pixel) := by
  obtain ⟨aligned, _, tall, _⟩ := admitted
  have positive : 0 < w.toInt := inside.1.trans_lt inside.2.1
  rw [(launchValue_eq_iff positive aligned tall source).mpr (Or.inl regular) pixel inside,
    erosion_raster_congr same inside]
  exact ((Scalar.paints_erode3x3 (by omega) (by omega) image).replay_inside
    (fun pixel member => ⟨member.1, member.2.1⟩) content inside).symm

theorem wp_frame (idle : Idle world) :
    wp (frame device outage h_a h_c)
      (fun _ after => Idle after ∧ FrameLeft capacity world after h_a h_c)
      (fun failure _ => failure.Mapping ∨ failure = .undefined ∧
        ¬ StaysInside world.height.toInt world.NUMCOMPUNITS) world := by
  simp only [frame, wp_bind]
  refine wp_upload idle.unmapped ?_ fun _ _ mapping => Or.inl mapping
  intro d_a memory input queued fits copied hosts devices
  have admitted : Admitted world.width world.height :=
    idle.admitted.resolve_left fun none => Option.some_ne_none _ (queued.symm.trans none)
  have bytes : world.bytes = world.width.toInt * world.height.toInt := admitted.bytes
  have idle₁ : Idle { world with memory := memory } :=
    idle.keep rfl rfl rfl rfl rfl rfl le_rfl
  refine wp_mono (wp_erode3x3_tidsp_cl device idle₁ admitted ?_) ?_ fun _ _ => Or.inr
  · intro found present
    obtain rfl := Option.some.inj (input.symm.trans present)
    exact fits
  intro _ middle ended
  have same : SameSession { world with memory := memory } middle :=
    ended.elim (fun ran => ran.1) fun refused => refused.1
  refine wp_download (same.idle idle₁).unmapped ?_ fun _ _ mapping => Or.inl mapping
  intro d_b memory' output copied' hosts' devices'
  have present : world.d_b = some d_b := same.d_b.symm.trans output
  have called : Called capacity { world with memory := memory } middle d_a d_b :=
    ended.elim (fun ran => ran.called input present) Refused.called
  have apart := (idle.apart d_a d_b input present).1
  have bytes' : middle.bytes = world.width.toInt * world.height.toInt := by
    rw [World.bytes, same.width, same.height]
    exact bytes
  rw [bytes] at copied
  have arrays (array : ℕ) : middle.memory (.host array) = world.memory (.host array) :=
    (called.hosts array).trans (hosts array)
  rw [bytes', arrays] at copied'
  have source (k : ℤ) (lower : 0 ≤ k) (upper : k < world.width.toInt * world.height.toInt) :
      memory (.device d_a.name) k = world.memory (.host h_a) k := by
    rw [copied, copyBytes_inside _ _ lower upper]
  have result {pixel : ℤ × ℤ} (inside : pixel ∈ Morphology.frame world.width.toInt
      world.height.toInt) : memory' (.host h_c) (address world.width.toInt pixel) =
        middle.memory (.device d_b.name) (address world.width.toInt pixel) := by
    have bounds := address_bounds inside
    rw [copied', copyBytes_inside _ _ bounds.1 bounds.2]
  refine ⟨(same.idle idle₁).keep rfl rfl rfl rfl rfl rfl le_rfl, ?_, ?_, ?_, ?_, called.handles⟩
  · intro silent room regular content k lower upper
    have positive : 0 < world.width.toInt := by
      by_contra none
      have zero : world.width.toInt = 0 := by
        have := admitted.countable.1
        omega
      rw [zero, zero_mul] at upper
      omega
    obtain ⟨pixel, inside, rfl⟩ := exists_pixel lower upper positive
    exact (result inside).trans ((called.completed silent room pixel inside).trans
      (launchValue_scalar admitted regular source inside content))
  · refine ⟨d_b, _, present, source, fun pixel inside => ?_⟩
    have left := called.pixels pixel inside
    rw [← result inside] at left
    rw [← devices d_b.name apart.symm]
    exact left
  · intro k outside
    exact (congrFun copied' k).trans (copyBytes_outside _ _ outside)
  · intro array other
    exact (hosts' array other).trans (arrays array)

end Frames

/-! ## Histories -/

/-- When the program starts. -/
def World.started (memory : Memory → ℤ → UInt8) (handles : ℤ) : World :=
  ⟨none, none, none, none, 0, 0, 0, fun _ => none, memory, 0, handles, []⟩

theorem idle_started (memory : Memory → ℤ → UInt8) (handles : ℤ) :
    Idle (.started memory handles) :=
  ⟨fun _ => rfl, Or.inl rfl, fun _ found => found.elim nofun nofun, nofun⟩

/-- What initializations and frames lead to that the program survives. In between the memory
and the pool may change: the caller uses its arrays, and a kernel whose wait has failed may
go on. -/
inductive Reached (capacity : ℤ) : World → Prop
  | started (memory : Memory → ℤ → UInt8) (handles : ℤ) :
      Reached capacity (.started memory handles)
  | init {world after : World} (reached : Reached capacity world)
      {outage : InitCall → Option Int32} {platform : Platform} {w h value : Int32}
      (countable : Countable w h)
      (ended : erode3x3_tidsp_cl_init outage platform w h world = (.ok value, after)) :
      Reached capacity after
  | frame {world after : World} (reached : Reached capacity world) {device : Device capacity}
      {outage : FrameCall → Option Int32} {h_a h_c : ℕ}
      (ended : frame device outage h_a h_c world = (.ok (), after)) : Reached capacity after
  | between {world : World} (reached : Reached capacity world) (memory : Memory → ℤ → UInt8)
      (handles : ℤ) : Reached capacity { world with memory := memory, handles := handles }

theorem Reached.idle (reached : Reached capacity world) : Idle world := by
  induction reached with
  | started memory handles => exact idle_started memory handles
  | init _ countable ended idle => exact wp_ok (wp_init idle countable) ended
  | frame _ ended idle => exact (wp_ok (wp_frame idle) ended).1
  | between _ memory handles idle => exact idle.keep rfl rfl rfl rfl rfl rfl le_rfl

/-- **What a session does.** In every history an initialization ends the program only by an
assertion, and one that returns zero has accepted its size. A frame ends abruptly only by the
exception of a call that maps or unmaps a buffer, or undefined, and then a work-item begins
at the last row but one. A frame that ends normally leaves in its array the erosion of its
image if it has reported nothing, and in any case bytes of this launch or of what the output
buffer held; it changes nothing else of the host's. -/
theorem Reached.frame_left (reached : Reached capacity world) :
    (∀ outage platform w h, Countable w h →
      wp (erode3x3_tidsp_cl_init outage platform w h)
        (fun value after => value = 0 → Accepted platform w h after)
        (fun failure _ => failure = .assertion) world) ∧
    ∀ (device : Device capacity) outage h_a h_c,
      wp (Calls.frame device outage h_a h_c)
        (fun _ after => FrameLeft capacity world after h_a h_c)
        (fun failure _ => failure.Mapping ∨ failure = .undefined ∧
          ¬ StaysInside world.height.toInt world.NUMCOMPUNITS) world := by
  refine ⟨fun outage platform w h countable => ?_, fun device outage h_a h_c => ?_⟩
  · exact wp_mono (wp_and (wp_init reached.idle countable) wp_init_accepted)
      (fun _ _ left => left.2) fun _ _ failed => failed.1
  · exact wp_mono (wp_frame reached.idle) (fun _ _ left => left.2) fun _ _ failed => failed

/-- A session for images of eight by three pixels on two compute units, and a frame whose
launch is enqueued and then interrupted. -/
theorem Reached.frame_left_eight_by_three :
    ∃ (device : Device 2) (world : World),
      erode3x3_tidsp_cl_init (fun _ => none) ⟨⟨1, 64⟩, 2⟩ 8 3
        (.started (fun _ k => UInt8.ofNat k.toNat) 0) = (.ok 0, world) ∧
      wp (Calls.frame device (fun call => if call matches .wait then some (-5) else none) 0 1)
        (fun _ after => FrameLeft 2 world after 0 1) (fun failure _ => failure.Mapping) world := by
  obtain ⟨device⟩ := exists_device 2
  obtain ⟨world, ended, rows, units⟩ : ∃ world : World,
      erode3x3_tidsp_cl_init (fun _ => none) ⟨⟨1, 64⟩, 2⟩ 8 3
        (.started (fun _ k => UInt8.ofNat k.toNat) 0) = (.ok 0, world) ∧
      world.height = 3 ∧ world.NUMCOMPUNITS = 2 := ⟨_, rfl, rfl, rfl⟩
  have countable : Countable 8 3 := ⟨by decide, by decide⟩
  have reached : Reached 2 world := (Reached.started _ _).init countable ended
  have stays : StaysInside world.height.toInt world.NUMCOMPUNITS := by
    rw [rows, units]
    exact Or.inr (by decide)
  exact ⟨device, world, ended, wp_mono (reached.frame_left.2 device _ 0 1) (fun _ _ left => left)
    fun _ _ failed => failed.resolve_right fun undefined => undefined.2 stays⟩

end ErodeTest.TiDsp.Calls
