import ErodeTest.Foundation.Fallible
import ErodeTest.OpenCl.Host
import ErodeTest.OpenCl.Parallel

/-! # Sessions of the OpenCL implementation

`erode3x3_cl_init` and `erode3x3_cl` of `erode_cl.cc` with their error paths. Every call to
the platform may fail, at any time or because its arguments do not fit together; the
exception ends the rest of the block, is reported on `stderr`, and the static variables
stay as the block has left them. Buffers belong to a context and have the bytes of an array
of the host or of a buffer of the device.

The kernel runs while the host waits for it. A wait or a transfer that fails may have done
its work in part: any of the bytes it is to store may have been stored.
-/

namespace ErodeTest.OpenCl.Calls

open BufferProgram BufferProgram.Program Fallible

/-! ## Objects of the platform -/

/-- Where bytes are: in an array of the host or in a buffer of the device. -/
inductive Memory where
  | host (array : ℕ)
  | device (buffer : ℕ)
  deriving DecidableEq

/-- A buffer, with the context it was created in. -/
structure Buffer where
  context : ℕ
  bytes : ℤ
  memory : Memory
  deriving DecidableEq

/-- A kernel object with the arguments set so far. -/
structure Kernel where
  context : ℕ
  in_data : Option Buffer
  out_data : Option Buffer
  stride_x : Option ℤ

/-- The static variables of `erode_cl.cc`, the memory, and the number of contexts and device
buffers created, which names the next one. A queue is given by its context. -/
structure World where
  kernel : Option Kernel
  queue : Option ℕ
  d_a : Option Buffer
  d_b : Option Buffer
  context : Option ℕ
  useHostPtr : Bool
  memory : Memory → ℤ → UInt8
  objects : ℕ

/-- Programs of the host, which throw error codes. -/
abbrev Host : Type → Type := Fallible World Int32

def CL_INVALID_VALUE : Int32 := -30

def CL_INVALID_CONTEXT : Int32 := -34

def CL_INVALID_COMMAND_QUEUE : Int32 := -36

def CL_INVALID_MEM_OBJECT : Int32 := -38

def CL_INVALID_KERNEL : Int32 := -48

def CL_INVALID_KERNEL_ARGS : Int32 := -52

def CL_INVALID_BUFFER_SIZE : Int32 := -61

def CL_INVALID_GLOBAL_WORK_SIZE : Int32 := -63

/-- The name of a new object. -/
def fresh : Host ℕ := do
  let world ← get
  modify fun world => { world with objects := world.objects + 1 }
  pure world.objects

def createBuffer (outage : Option Int32) (context : Option ℕ) (bytes : ℤ) (memory : Memory) :
    Host Buffer := do
  attempt outage
  let context ← ofOption CL_INVALID_CONTEXT context
  ensure (0 < bytes) CL_INVALID_BUFFER_SIZE
  pure ⟨context, bytes, memory⟩

/-- The buffer, if a queue may transfer a number of its bytes. -/
def transferable (queue : Option ℕ) (buffer : Option Buffer) (bytes : ℤ) : Host Buffer := do
  let queue ← ofOption CL_INVALID_COMMAND_QUEUE queue
  let buffer ← ofOption CL_INVALID_MEM_OBJECT buffer
  ensure (buffer.context = queue) CL_INVALID_CONTEXT
  ensure (0 < bytes ∧ bytes ≤ buffer.bytes) CL_INVALID_VALUE
  pure buffer

/-- Change the memory. Where that fails only some of the bytes may be stored. -/
def perform (outage : Option Int32) (made : ℤ → Bool)
    (change : (ℤ → Bool) → (Memory → ℤ → UInt8) → Memory → ℤ → UInt8) : Host Unit := do
  let stored := if outage.isSome then made else fun _ => true
  modify fun world => { world with memory := change stored world.memory }
  attempt outage

/-- Copy some of a number of bytes from the start of one memory to the start of another. -/
def copied (bytes : ℤ) (source target : Memory) (made : ℤ → Bool)
    (memory : Memory → ℤ → UInt8) : Memory → ℤ → UInt8 :=
  Function.update memory target fun k =>
    if made k then copyBytes bytes (memory source) (memory target) k else memory target k

def enqueueWriteBuffer (outage : Option Int32) (made : ℤ → Bool) (queue : Option ℕ)
    (buffer : Option Buffer) (bytes : ℤ) (array : ℕ) : Host Unit := do
  let buffer ← transferable queue buffer bytes
  perform outage made (copied bytes (.host array) buffer.memory)

def enqueueReadBuffer (outage : Option Int32) (made : ℤ → Bool) (queue : Option ℕ)
    (buffer : Option Buffer) (bytes : ℤ) (array : ℕ) : Host Unit := do
  let buffer ← transferable queue buffer bytes
  perform outage made (copied bytes buffer.memory (.host array))

/-- Set an argument of the kernel object. -/
def setArg (outage : Option Int32) (set : World → Kernel → Kernel) : Host Unit := do
  attempt outage
  let world ← get
  let kernel ← ofOption CL_INVALID_KERNEL world.kernel
  modify fun world => { world with kernel := some (set world kernel) }

/-- A kernel that was enqueued, with the memories of its arguments. -/
structure Launch where
  in_data : Memory
  out_data : Memory
  stride_x : ℤ

/-- Some of the stores of a launch. -/
def launched (order : List (ℤ × ℤ)) (launch : Launch) (made : ℤ → Bool)
    (memory : Memory → ℤ → UInt8) : Memory → ℤ → UInt8 :=
  Function.update memory launch.out_data
    (replay (((OpenCl.enqueueNDRangeKernel order launch.stride_x).stores
      (memory launch.in_data)).filter fun entry => made entry.1) (memory launch.out_data))

def enqueueNDRangeKernel (outage : Option Int32) (globalSize : ℤ × ℤ) : Host Launch := do
  attempt outage
  let world ← get
  let queue ← ofOption CL_INVALID_COMMAND_QUEUE world.queue
  let kernel ← ofOption CL_INVALID_KERNEL world.kernel
  ensure (kernel.context = queue) CL_INVALID_CONTEXT
  let in_data ← ofOption CL_INVALID_KERNEL_ARGS kernel.in_data
  let out_data ← ofOption CL_INVALID_KERNEL_ARGS kernel.out_data
  let stride_x ← ofOption CL_INVALID_KERNEL_ARGS kernel.stride_x
  ensure (in_data.context = queue ∧ out_data.context = queue) CL_INVALID_CONTEXT
  ensure (0 < globalSize.1 ∧ 0 < globalSize.2) CL_INVALID_GLOBAL_WORK_SIZE
  pure ⟨in_data.memory, out_data.memory, stride_x⟩

/-- Wait for the event of a launch. -/
def wait (outage : Option Int32) (made : ℤ → Bool) (order : List (ℤ × ℤ)) (launch : Launch) :
    Host Unit :=
  perform outage made (launched order launch)

/-- Wherever the work-items of a launch stand when the wait fails: that is a case. -/
theorem exists_wait_eq {w h : ℤ} (wide : 2 ≤ w) {launch : Launch} (stride : launch.stride_x = w)
    {world : World} {content : ℤ → UInt8} {items : ℤ × ℤ → List (Access UInt8)}
    (runs : Parallel.Runs (itemAccesses w h (world.memory launch.in_data))
      (fun _ => [], world.memory launch.out_data) (items, content))
    {order : List (ℤ × ℤ)} (ordered : order.Perm (erodeRange w h).workItems) (error : Int32) :
    ∃ made, wait (some error) made order launch world =
      (.error error,
        { world with memory := Function.update world.memory launch.out_data content }) := by
  obtain ⟨made, rfl⟩ := exists_made_of_runs wide _ runs ordered
  exact ⟨made, by rw [← stride]; rfl⟩

/-! ## The functions of the source -/

/-- The calls of `erode3x3_cl_init` to the platform. The properties of the device it prints
are numbered. -/
inductive InitCall where
  | platforms
  | context
  | devices
  | info (property : ℕ)
  | queue
  | d_a
  | d_b
  | program
  | build
  | kernel

/-- The block of `erode3x3_cl_init` that may throw. -/
def initBlock (outage : InitCall → Option Int32) (platforms : ℕ) (w h : ℤ)
    (use_host_ptr : Bool) : Host Int32 := do
  let bytes := w * h
  attempt (outage .platforms)
  if platforms = 0 then pure (-1)
  else do
    attempt (outage .context)
    let context ← fresh
    modify fun world => { world with context := some context }
    attempt (outage .devices)
    each (fun property => attempt (outage (.info property))) (List.range 15)
    attempt (outage .queue)
    modify fun world => { world with queue := some context }
    if use_host_ptr then pure ()
    else do
      let buffer ← fresh
      let d_a ← createBuffer (outage .d_a) (some context) bytes (.device buffer)
      modify fun world => { world with d_a := some d_a }
      let buffer ← fresh
      let d_b ← createBuffer (outage .d_b) (some context) bytes (.device buffer)
      modify fun world => { world with d_b := some d_b }
    attempt (outage .program)
    attempt (outage .build)
    attempt (outage .kernel)
    modify fun world => { world with kernel := some ⟨context, none, none, none⟩ }
    pure 0

/-- The value returned, and what is left. -/
def erode3x3_cl_init (outage : InitCall → Option Int32) (platforms : ℕ) (w h : ℤ)
    (use_host_ptr : Bool) (world : World) : Int32 × World :=
  match initBlock outage platforms w h use_host_ptr { world with useHostPtr := use_host_ptr } with
  | (.ok value, after) => (value, after)
  | (.error _, after) => (-1, after)

/-- The calls of `erode3x3_cl` to the platform. -/
inductive ErodeCall where
  | d_a
  | d_b
  | write
  | setArg (index : ℕ)
  | enqueue
  | wait
  | profile (time : ℕ)
  | read

/-- The two ways to bind the buffers. -/
def bindBuffers (outage : ErodeCall → Option Int32) (made : ErodeCall → ℤ → Bool)
    (in_data out_data : ℕ) (bytes : ℤ) : Host Unit := do
  let world ← get
  if world.useHostPtr then do
    let d_a ← createBuffer (outage .d_a) world.context bytes (.host in_data)
    modify fun world => { world with d_a := some d_a }
    let d_b ← createBuffer (outage .d_b) world.context bytes (.host out_data)
    modify fun world => { world with d_b := some d_b }
  else enqueueWriteBuffer (outage .write) (made .write) world.queue world.d_a bytes in_data

/-- Set the arguments, run the kernel and read its output back. The device runs the
work-items in an order of its own. -/
def runKernel (outage : ErodeCall → Option Int32) (made : ErodeCall → ℤ → Bool)
    (order : List (ℤ × ℤ)) (out_data : ℕ) (w h bytes : ℤ) : Host Unit := do
  setArg (outage (.setArg 0)) fun world kernel => { kernel with in_data := world.d_a }
  setArg (outage (.setArg 1)) fun world kernel => { kernel with out_data := world.d_b }
  setArg (outage (.setArg 2)) fun _ kernel => { kernel with stride_x := some w }
  let event ← enqueueNDRangeKernel (outage .enqueue) (erodeRange w h).globalSize
  wait (outage .wait) (made .wait) order event
  each (fun time => attempt (outage (.profile time))) (List.range 4)
  let world ← get
  enqueueReadBuffer (outage .read) (made .read) world.queue world.d_b bytes out_data

/-- The block of `erode3x3_cl` that may throw. -/
def erodeBlock (outage : ErodeCall → Option Int32) (made : ErodeCall → ℤ → Bool)
    (order : List (ℤ × ℤ)) (in_data out_data : ℕ) (w h : ℤ) : Host Unit := do
  let bytes := w * h
  bindBuffers outage made in_data out_data bytes
  runKernel outage made order out_data w h bytes

/-- What is printed on `stderr`, if anything, and what is left. -/
def erode3x3_cl (outage : ErodeCall → Option Int32) (made : ErodeCall → ℤ → Bool)
    (order : List (ℤ × ℤ)) (in_data out_data : ℕ) (w h : ℤ) (world : World) :
    Option Int32 × World :=
  match erodeBlock outage made order in_data out_data w h world with
  | (.ok _, after) => (none, after)
  | (.error error, after) => (some error, after)

/-! ## What a call does -/

section Rules

variable {post : Buffer → World → Prop} {thrown : Int32 → World → Prop} {world : World}

theorem wp_transferable {queue : Option ℕ} {buffer : Option Buffer} {bytes : ℤ}
    (goes : ∀ source, buffer = some source → 0 < bytes → post source world)
    (stops : ∀ error, thrown error world) :
    wp (transferable queue buffer bytes) post thrown world := by
  simp only [transferable, wp_bind, wp_pure]
  refine wp_ofOption _ _ (fun _ _ => ?_) (stops _)
  refine wp_ofOption _ _ (fun source present => ?_) (stops _)
  refine wp_ensure _ _ (fun _ => ?_) (stops _)
  exact wp_ensure _ _ (fun fits => goes source present fits.1) (stops _)

theorem wp_createBuffer {outage : Option Int32} {context : Option ℕ} {bytes : ℤ} {memory : Memory}
    (goes : ∀ buffer : Buffer, buffer.memory = memory → post buffer world)
    (stops : ∀ error, thrown error world) :
    wp (createBuffer outage context bytes memory) post thrown world := by
  simp only [createBuffer, wp_bind, wp_pure]
  refine wp_attempt _ ?_ stops
  refine wp_ofOption _ _ (fun _ _ => ?_) (stops _)
  exact wp_ensure _ _ (fun _ => goes _ rfl) (stops _)

theorem wp_enqueueNDRangeKernel {post : Launch → World → Prop} {outage : Option Int32}
    {globalSize : ℤ × ℤ} {kernel : Kernel} {in_data : Buffer} {stride_x : ℤ}
    (set : world.kernel = some kernel) (input : kernel.in_data = some in_data)
    (stride : kernel.stride_x = some stride_x)
    (goes : ∀ out_data, kernel.out_data = some out_data → 0 < globalSize.1 ∧ 0 < globalSize.2 →
      post ⟨in_data.memory, out_data.memory, stride_x⟩ world)
    (stops : ∀ error, thrown error world) :
    wp (enqueueNDRangeKernel outage globalSize) post thrown world := by
  simp only [enqueueNDRangeKernel, wp_bind, wp_get, wp_pure]
  refine wp_attempt _ ?_ stops
  refine wp_ofOption _ _ (fun _ _ => ?_) (stops _)
  rw [set, wp_ofOption_some]
  refine wp_ensure _ _ (fun _ => ?_) (stops _)
  rw [input, stride, wp_ofOption_some]
  refine wp_ofOption _ _ (fun out_data output => ?_) (stops _)
  rw [wp_ofOption_some]
  refine wp_ensure _ _ (fun _ => ?_) (stops _)
  exact wp_ensure _ _ (goes out_data output) (stops _)

variable {post : Unit → World → Prop}

theorem wp_perform {outage : Option Int32} {made : ℤ → Bool}
    {change : (ℤ → Bool) → (Memory → ℤ → UInt8) → Memory → ℤ → UInt8}
    (goes : post () { world with memory := change (fun _ => true) world.memory })
    (stops : ∀ error, thrown error { world with memory := change made world.memory }) :
    wp (perform outage made change) post thrown world := by
  cases outage with
  | none => exact goes
  | some error => exact stops error

theorem wp_setArg {outage : Option Int32} {set : World → Kernel → Kernel}
    (goes : ∀ kernel, world.kernel = some kernel →
      post () { world with kernel := some (set world kernel) })
    (stops : ∀ error, thrown error world) : wp (setArg outage set) post thrown world := by
  simp only [setArg, wp_bind, wp_get, wp_modify]
  exact wp_attempt _ (wp_ofOption _ _ goes (stops _)) stops

end Rules

/-- Where the kernel of a call reads: with host pointers the caller's array, else the buffer of
the session. -/
def Reads (world : World) (in_data : ℕ) (input : Memory) : Prop :=
  if world.useHostPtr then input = .host in_data
  else ∃ d_a, world.d_a = some d_a ∧ d_a.memory = input

/-- Where the kernel of a call writes. -/
def Writes (world : World) (out_data : ℕ) (output : Memory) : Prop :=
  if world.useHostPtr then output = .host out_data
  else ∃ d_b, world.d_b = some d_b ∧ d_b.memory = output

section HostPointers

variable {world : World} {in_data out_data : ℕ} {memory : Memory}
  (mode : world.useHostPtr = true)

include mode

theorem Reads.host (reads : Reads world in_data memory) : memory = .host in_data := by
  rwa [Reads, if_pos mode] at reads

theorem Writes.host (writes : Writes world out_data memory) : memory = .host out_data := by
  rwa [Writes, if_pos mode] at writes

end HostPointers

/-- The memory when some bytes of the input have been written to the buffer of a session that
has its own. -/
def uploaded (world : World) (in_data : ℕ) (bytes : ℤ) (input : Memory) (made : ℤ → Bool) :
    Memory → ℤ → UInt8 :=
  if world.useHostPtr then world.memory
  else copied bytes (.host in_data) input made world.memory

/-- What a call may leave of the memory where it throws: nothing is done, or some part of the
transfer to the device, of the launch, or of the transfer back. -/
inductive Interrupted (order : List (ℤ × ℤ)) (in_data out_data : ℕ) (w h : ℤ) (world : World) :
    (Memory → ℤ → UInt8) → Prop
  | untouched : Interrupted order in_data out_data w h world world.memory
  | upload {input : Memory} (reads : Reads world in_data input) (made : ℤ → Bool) :
      Interrupted order in_data out_data w h world (uploaded world in_data (w * h) input made)
  | kernel {input output : Memory} (reads : Reads world in_data input)
      (writes : Writes world out_data output)
      (sizes : 0 < (erodeRange w h).globalSize.1 ∧ 0 < (erodeRange w h).globalSize.2)
      (made : ℤ → Bool) :
      Interrupted order in_data out_data w h world (launched order ⟨input, output, w⟩ made
        (uploaded world in_data (w * h) input fun _ => true))
  | readBack {input output : Memory} (reads : Reads world in_data input)
      (writes : Writes world out_data output)
      (sizes : 0 < (erodeRange w h).globalSize.1 ∧ 0 < (erodeRange w h).globalSize.2)
      (made : ℤ → Bool) :
      Interrupted order in_data out_data w h world (copied (w * h) output (.host out_data) made
        (launched order ⟨input, output, w⟩ (fun _ => true)
          (uploaded world in_data (w * h) input fun _ => true)))

/-- What a call does not change: the mode, and the buffers of a session that has its own. -/
def Keeps (world after : World) : Prop :=
  after.useHostPtr = world.useHostPtr ∧
    (world.useHostPtr = false → after.d_a = world.d_a ∧ after.d_b = world.d_b)

section Erode

variable {outage : ErodeCall → Option Int32} {made : ErodeCall → ℤ → Bool}
  {order : List (ℤ × ℤ)} {in_data out_data : ℕ} {w h bytes : ℤ} {world : World}

theorem wp_bindBuffers :
    wp (bindBuffers outage made in_data out_data bytes)
      (fun _ after => Keeps world after ∧ ∃ d_a, after.d_a = some d_a ∧
        Reads world in_data d_a.memory ∧
          (∀ d_b, after.d_b = some d_b → Writes world out_data d_b.memory) ∧
            after.memory = uploaded world in_data bytes d_a.memory fun _ => true)
      (fun _ after => Keeps world after ∧ (after.memory = world.memory ∨
        ∃ input made, Reads world in_data input ∧
          after.memory = uploaded world in_data bytes input made)) world := by
  simp only [bindBuffers, wp_bind, wp_get]
  cases mode : world.useHostPtr with
  | true =>
      simp only [if_true, wp_bind, wp_modify]
      refine wp_createBuffer (fun d_a input => ?_) fun _ => ?_
      · refine wp_createBuffer (fun d_b output => ?_) fun _ => ?_
        · simp [Keeps, mode, Reads, Writes, uploaded, input, output]
        · simp [Keeps, mode]
      · simp [Keeps]
  | false =>
      have kept (memory : Memory → ℤ → UInt8) : Keeps world { world with memory := memory } :=
        ⟨rfl, fun _ => ⟨rfl, rfl⟩⟩
      simp only [Bool.false_eq_true, if_false, enqueueWriteBuffer, wp_bind]
      refine wp_transferable (fun d_a present _ => ?_) fun _ => ⟨kept _, Or.inl rfl⟩
      have reads : Reads world in_data d_a.memory := by simp [Reads, mode, present]
      refine wp_perform ⟨kept _, d_a, present, reads, fun d_b found => ?_, ?_⟩ fun _ =>
        ⟨kept _, Or.inr ⟨d_a.memory, made .write, reads, ?_⟩⟩
      · rw [Writes, if_neg (by simp [mode])]
        exact ⟨d_b, found, rfl⟩
      · simp [uploaded, mode]
      · simp [uploaded, mode]

/-- What a call leaves once its buffers are bound. -/
theorem wp_runKernel {d_a : Buffer} (input : world.d_a = some d_a) :
    wp (runKernel outage made order out_data w h bytes)
      (fun _ after => (after.useHostPtr = world.useHostPtr ∧ after.d_a = world.d_a ∧
        after.d_b = world.d_b) ∧ ∃ d_b, world.d_b = some d_b ∧
          (0 < (erodeRange w h).globalSize.1 ∧ 0 < (erodeRange w h).globalSize.2) ∧
            after.memory = copied bytes d_b.memory (.host out_data) (fun _ => true)
              (launched order ⟨d_a.memory, d_b.memory, w⟩ (fun _ => true) world.memory))
      (fun _ after => (after.useHostPtr = world.useHostPtr ∧ after.d_a = world.d_a ∧
        after.d_b = world.d_b) ∧ (after.memory = world.memory ∨ ∃ d_b made,
          world.d_b = some d_b ∧
            (0 < (erodeRange w h).globalSize.1 ∧ 0 < (erodeRange w h).globalSize.2) ∧
              (after.memory = launched order ⟨d_a.memory, d_b.memory, w⟩ made world.memory ∨
                after.memory = copied bytes d_b.memory (.host out_data) made
                  (launched order ⟨d_a.memory, d_b.memory, w⟩ (fun _ => true) world.memory))))
      world := by
  simp only [runKernel, wp_bind, wp_get]
  refine wp_setArg (fun _ _ => ?_) fun _ => ⟨⟨rfl, rfl, rfl⟩, Or.inl rfl⟩
  refine wp_setArg (fun _ same => ?_) fun _ => ⟨⟨rfl, rfl, rfl⟩, Or.inl rfl⟩
  obtain rfl := Option.some.inj same
  refine wp_setArg (fun _ same => ?_) fun _ => ⟨⟨rfl, rfl, rfl⟩, Or.inl rfl⟩
  obtain rfl := Option.some.inj same
  refine wp_enqueueNDRangeKernel rfl input rfl (fun d_b output sizes => ?_)
    fun _ => ⟨⟨rfl, rfl, rfl⟩, Or.inl rfl⟩
  -- a wait that fails leaves some of the stores of the kernel, a later throw all of them
  refine wp_perform ?_ fun _ =>
    ⟨⟨rfl, rfl, rfl⟩, Or.inr ⟨d_b, made .wait, output, sizes, Or.inl rfl⟩⟩
  have profiled (state : World) :
      wp (each (fun time => attempt (outage (.profile time))) (List.range 4))
        (fun _ => (· = state)) (fun _ => (· = state)) state :=
    wp_each _ rfl fun time _ after same => wp_attempt (outage (.profile time)) same fun _ => same
  refine wp_mono (profiled _) (fun _ after same => ?_) fun _ after same => ?_
  · subst same
    simp only [enqueueReadBuffer, wp_bind]
    refine wp_transferable (fun d_b' present _ => ?_) fun _ =>
      ⟨⟨rfl, rfl, rfl⟩, Or.inr ⟨d_b, fun _ => true, output, sizes, Or.inl rfl⟩⟩
    obtain rfl := Option.some.inj (output.symm.trans present)
    exact wp_perform ⟨⟨rfl, rfl, rfl⟩, d_b, output, sizes, rfl⟩ fun _ =>
      ⟨⟨rfl, rfl, rfl⟩, Or.inr ⟨d_b, made .read, output, sizes, Or.inr rfl⟩⟩
  · subst same
    exact ⟨⟨rfl, rfl, rfl⟩, Or.inr ⟨d_b, fun _ => true, output, sizes, Or.inl rfl⟩⟩

/-- What a call leaves, and what it leaves where it throws. -/
theorem wp_erodeBlock :
    wp (erodeBlock outage made order in_data out_data w h)
      (fun _ after => Keeps world after ∧ ∃ input output, Reads world in_data input ∧
        Writes world out_data output ∧
          (0 < (erodeRange w h).globalSize.1 ∧ 0 < (erodeRange w h).globalSize.2) ∧
            after.memory = copied (w * h) output (.host out_data) (fun _ => true)
              (launched order ⟨input, output, w⟩ (fun _ => true)
                (uploaded world in_data (w * h) input fun _ => true)))
      (fun _ after => Keeps world after ∧
        Interrupted order in_data out_data w h world after.memory) world := by
  simp only [erodeBlock, wp_bind]
  refine wp_mono wp_bindBuffers (fun _ middle => ?_) fun _ after => ?_
  · rintro ⟨keeps, d_a, bound, reads, writes, memory⟩
    have kept {after : World} (same : after.useHostPtr = middle.useHostPtr ∧
        after.d_a = middle.d_a ∧ after.d_b = middle.d_b) : Keeps world after :=
      ⟨same.1.trans keeps.1, fun device =>
        ⟨same.2.1.trans (keeps.2 device).1, same.2.2.trans (keeps.2 device).2⟩⟩
    refine wp_mono (wp_runKernel bound) (fun _ after => ?_) fun _ after => ?_
    · rintro ⟨same, d_b, present, sizes, left⟩
      exact ⟨kept same, d_a.memory, d_b.memory, reads, writes d_b present, sizes, memory ▸ left⟩
    · rintro ⟨same, before | ⟨d_b, made, present, sizes, left | left⟩⟩
      · rw [before, memory]
        exact ⟨kept same, .upload reads _⟩
      · rw [left, memory]
        exact ⟨kept same, .kernel reads (writes d_b present) sizes made⟩
      · rw [left, memory]
        exact ⟨kept same, .readBack reads (writes d_b present) sizes made⟩
  · rintro ⟨keeps, same | ⟨input, made, reads, memory⟩⟩
    · rw [same]
      exact ⟨keeps, .untouched⟩
    · rw [memory]
      exact ⟨keeps, .upload reads made⟩

end Erode

end ErodeTest.OpenCl.Calls
