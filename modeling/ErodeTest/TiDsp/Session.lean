import ErodeTest.OpenCl.Session
import ErodeTest.TiDsp.Destination
import ErodeTest.TiDsp.Host

/-! # Sessions of the TI DSP implementation

The functions of `erode_tidsp_cl.cc` with their error paths. Initialization and the launch
catch the exception of a failed call; the functions that map buffers do not, and a failed
assertion ends the program. The bytes of a buffer and those of its mapping are two memories,
copied when the buffer is mapped and, if it is mapped for writing, when it is unmapped. What
the platform leaves undefined, such as a launch on a buffer that is mapped, or one whose
work-items copy from outside their buffer, is a failure of its own.

The kernel runs while the host waits for it. When the wait fails the work-items may stand
anywhere.
-/

namespace ErodeTest.TiDsp.Calls

open Fallible
open OpenCl (copyBytes)
open OpenCl.Calls (InitCall CL_INVALID_VALUE CL_INVALID_COMMAND_QUEUE CL_INVALID_CONTEXT
  CL_INVALID_MEM_OBJECT CL_INVALID_KERNEL CL_INVALID_KERNEL_ARGS CL_INVALID_BUFFER_SIZE
  CL_INVALID_GLOBAL_WORK_SIZE)

/-! ## Objects of the platform -/

/-- Where bytes are: in an array of the host, in a buffer, or where a buffer is mapped. -/
inductive Memory where
  | host (array : ℕ)
  | device (buffer : ℕ)
  | mapped (buffer : ℕ)
  deriving DecidableEq

/-- A buffer, with the context it was created in. -/
structure Buffer where
  context : ℕ
  bytes : ℤ
  name : ℕ

/-- A kernel object with the arguments set so far. -/
structure Kernel where
  context : ℕ
  srcptr : Option Buffer
  dstptr : Option Buffer
  cols : Option Int32
  rows : Option Int32

/-- `cl::Error`. -/
structure Error where
  what : String
  err : Int32

/-- The static variables of `erode_tidsp_cl.cc`, for each mapped buffer whether it is mapped
for writing and how many of its bytes, the memory, the number of objects created, the EDMA
handles in use and what is printed on `stderr`. A queue is given by its context. -/
structure World where
  kernel : Option Kernel
  queue : Option ℕ
  d_a : Option Buffer
  d_b : Option Buffer
  NUMCOMPUNITS : ℤ
  width : Int32
  height : Int32
  mappings : ℕ → Option (Bool × ℤ)
  memory : Memory → ℤ → UInt8
  objects : ℕ
  handles : ℤ
  stderr : List Error

/-- How a call ends abruptly: an assertion fails, an exception is thrown, or the platform does
not define what happens. -/
inductive Failure where
  | assertion
  | exception (error : Error)
  | undefined

abbrev Code : Type → Type := Fallible World Failure

/-- A call to the platform that may fail at any time, under the name `cl.hpp` gives it. -/
def call (what : String) (outage : Option Int32) : Code Unit :=
  attempt (outage.map fun err => .exception ⟨what, err⟩)

/-- A call that is refused because its arguments do not fit together. -/
def refusal (what : String) (err : Int32) : Failure := .exception ⟨what, err⟩

/-- A block that catches exceptions, reports them and goes on with a value. -/
def caught {α : Type} (value : α) (block : Code α) : Code α :=
  catching block fun failure =>
    match failure with
    | .exception error => do
        modify fun world => { world with stderr := world.stderr ++ [error] }
        pure value
    | other => throw other

/-- What the device does in a launch: from the handles in use and the content of the
destination to new ones, through some interleaving of the work-items, either to the end of
the launch or to where it is interrupted. -/
structure Device (capacity : ℤ) where
  lines : ℤ → LineAddress → UInt8
  left : Launch → ℤ → (ℤ → UInt8) → ℤ × (ℤ → UInt8)
  runs : ∀ launch before content, ∃ items,
    launch.DestinationSteps capacity before content items (left launch before content).2 ∧
      launch.Finished items ∧ (left launch before content).1 = launch.inUse before items
  interrupted : Launch → ℤ → (ℤ → UInt8) → ℤ × (ℤ → UInt8)
  stops : ∀ launch before content, ∃ items,
    launch.DestinationSteps capacity before content items (interrupted launch before content).2 ∧
      (interrupted launch before content).1 = launch.inUse before items

/-- A device exists. -/
theorem exists_device (capacity : ℤ) : Nonempty (Device capacity) := by
  have ends (launch : Launch) (before : ℤ) (content : ℤ → UInt8) :
      ∃ left : ℤ × (ℤ → UInt8), ∃ items,
        launch.DestinationSteps capacity before content items left.2 ∧
          launch.Finished items ∧ left.1 = launch.inUse before items := by
    obtain ⟨items, memory, steps, finished⟩ := exists_destination launch capacity before content
    exact ⟨(_, memory), items, steps, finished, rfl⟩
  choose left runs using ends
  refine ⟨⟨fun _ _ => 0, left, runs, left, fun launch before content => ?_⟩⟩
  obtain ⟨items, steps, _, handles⟩ := runs launch before content
  exact ⟨items, steps, handles⟩

/-! ## Calls to the platform -/

/-- The name of a new object. -/
def fresh : Code ℕ := do
  let world ← get
  modify fun world => { world with objects := world.objects + 1 }
  pure world.objects

def createBuffer (outage : Option Int32) (context : ℕ) (bytes : ℤ) : Code Buffer := do
  call "clCreateBuffer" outage
  ensure (0 < bytes) (refusal "clCreateBuffer" CL_INVALID_BUFFER_SIZE)
  let name ← fresh
  pure ⟨context, bytes, name⟩

/-- The bytes of an image, as the code counts them. -/
def World.bytes (world : World) : ℤ := (widen (world.width * world.height)).toNat

/-- A queue and a buffer of its context. -/
def usable (what : String) (queue : Option ℕ) (buffer : Option Buffer) : Code Buffer := do
  let queue ← ofOption (refusal what CL_INVALID_COMMAND_QUEUE) queue
  let buffer ← ofOption (refusal what CL_INVALID_MEM_OBJECT) buffer
  ensure (buffer.context = queue) (refusal what CL_INVALID_CONTEXT)
  pure buffer

/-- A buffer is mapped. -/
def World.map (world : World) (buffer : ℕ) (writes : Bool) (bytes : ℤ) : World where
  __ := world
  mappings := Function.update world.mappings buffer (some (writes, bytes))
  memory := Function.update world.memory (.mapped buffer)
    (copyBytes bytes (world.memory (.device buffer)) (world.memory (.mapped buffer)))

/-- A buffer is unmapped; what was written to its mapping is now in the buffer. -/
def World.unmap (world : World) (buffer : ℕ) (writes : Bool) (bytes : ℤ) : World where
  __ := world
  mappings := Function.update world.mappings buffer none
  memory := if writes then
      Function.update world.memory (.device buffer)
        (copyBytes bytes (world.memory (.mapped buffer)) (world.memory (.device buffer)))
    else world.memory

def enqueueMapBuffer (outage : Option Int32) (buffer : Option Buffer) (writes : Bool)
    (bytes : ℤ) : Code Memory := do
  call "clEnqueueMapBuffer" outage
  let world ← get
  let buffer ← usable "clEnqueueMapBuffer" world.queue buffer
  ensure (0 < bytes ∧ bytes ≤ buffer.bytes) (refusal "clEnqueueMapBuffer" CL_INVALID_VALUE)
  ensure (world.mappings buffer.name = none) .undefined
  modify fun world => world.map buffer.name writes bytes
  pure (.mapped buffer.name)

def enqueueUnmapMemObject (outage : Option Int32) (buffer : Option Buffer) (pointer : Memory) :
    Code Unit := do
  call "clEnqueueUnMapMemObject" outage
  let world ← get
  let buffer ← usable "clEnqueueUnMapMemObject" world.queue buffer
  ensure (pointer = .mapped buffer.name) (refusal "clEnqueueUnMapMemObject" CL_INVALID_VALUE)
  let mapping ← ofOption (refusal "clEnqueueUnMapMemObject" CL_INVALID_VALUE)
    (world.mappings buffer.name)
  modify fun world => world.unmap buffer.name mapping.1 mapping.2

/-- A memory that may be read, or written, up to a number of bytes: a buffer of the device is
not the host's, and a mapping must be there, for that purpose, and large enough. -/
def World.grants (world : World) (writes : Bool) (bytes : ℤ) : Memory → Bool
  | .host _ => true
  | .device _ => false
  | .mapped buffer =>
      match world.mappings buffer with
      | none => false
      | some (mode, size) => mode == writes && decide (bytes ≤ size)

def World.copy (world : World) (target source : Memory) (bytes : ℤ) : World where
  __ := world
  memory := Function.update world.memory target
    (copyBytes bytes (world.memory source) (world.memory target))

def memcpy (target source : Memory) (bytes : ℤ) : Code Unit := do
  let world ← get
  ensure (world.grants true bytes target ∧ world.grants false bytes source) .undefined
  modify fun world => world.copy target source bytes

def setArg (outage : Option Int32) (set : World → Kernel → Kernel) : Code Unit := do
  call "clSetKernelArg" outage
  let world ← get
  let kernel ← ofOption (refusal "clSetKernelArg" CL_INVALID_KERNEL) world.kernel
  modify fun world => { world with kernel := some (set world kernel) }

/-- The work-items copy from a buffer of a number of bytes. Which bytes they copy does not
depend on what their lines hold, or on when the copies arrive. -/
def SourcesWithin (bytes : ℤ) (source : ℤ → UInt8) (cols rows chunks : ℤ) : Prop :=
  ∀ id ∈ workItems chunks,
    ∀ transfer ∈ copies (workItem source cols rows chunks (fun _ => 0) (fun _ => []) id),
      ∀ entry ∈ transfer, 0 ≤ entry.2 ∧ entry.2 < bytes

instance (bytes : ℤ) (source : ℤ → UInt8) (cols rows chunks : ℤ) :
    Decidable (SourcesWithin bytes source cols rows chunks) :=
  inferInstanceAs (Decidable (∀ id ∈ workItems chunks, _))

/-- What the kernel asks of its arguments: a size it is written for, an image in each of two
buffers, neither of them mapped, and that it copies from the first of them only. -/
def Launchable (world : World) (srcptr dstptr : Buffer) (cols rows : Int32) : Prop :=
  (cols.toInt % 8 = 0 ∧ 0 ≤ cols.toInt ∧ cols.toInt < 2046 ∧ 2 < rows.toInt) ∧
    (cols.toInt * rows.toInt ≤ srcptr.bytes ∧ cols.toInt * rows.toInt ≤ dstptr.bytes) ∧
      (srcptr.name ≠ dstptr.name ∧ world.mappings srcptr.name = none ∧
        world.mappings dstptr.name = none) ∧
        SourcesWithin srcptr.bytes (world.memory (.device srcptr.name)) cols.toInt rows.toInt
          world.NUMCOMPUNITS

instance (world : World) (srcptr dstptr : Buffer) (cols rows : Int32) :
    Decidable (Launchable world srcptr dstptr cols rows) :=
  inferInstanceAs (Decidable (_ ∧ _))

variable {capacity : ℤ}

/-- The launch of the kernel with given arguments. -/
def launchOf (device : Device capacity) (world : World) (srcptr dstptr : Buffer)
    (cols rows : Int32) (ready : Launchable world srcptr dstptr cols rows)
    (several : 0 < world.NUMCOMPUNITS) : Launch where
  source := world.memory (.device srcptr.name)
  cols := cols.toInt
  rows := rows.toInt
  chunks := world.NUMCOMPUNITS
  lines := device.lines
  aligned := ready.1.1
  nonneg := ready.1.2.1
  narrow := ready.1.2.2.1
  tall := ready.1.2.2.2
  several := several

/-- A launch that was enqueued, and the buffer it stores to. -/
structure Event where
  launch : Launch
  dstptr : Buffer

def enqueueNDRangeKernel (device : Device capacity) (outage : Option Int32) : Code Event := do
  let refused (err : Int32) : Failure := refusal "clEnqueueNDRangeKernel" err
  call "clEnqueueNDRangeKernel" outage
  let world ← get
  let queue ← ofOption (refused CL_INVALID_COMMAND_QUEUE) world.queue
  let kernel ← ofOption (refused CL_INVALID_KERNEL) world.kernel
  ensure (kernel.context = queue) (refused CL_INVALID_CONTEXT)
  let srcptr ← ofOption (refused CL_INVALID_KERNEL_ARGS) kernel.srcptr
  let dstptr ← ofOption (refused CL_INVALID_KERNEL_ARGS) kernel.dstptr
  let cols ← ofOption (refused CL_INVALID_KERNEL_ARGS) kernel.cols
  let rows ← ofOption (refused CL_INVALID_KERNEL_ARGS) kernel.rows
  ensure (srcptr.context = queue ∧ dstptr.context = queue) (refused CL_INVALID_CONTEXT)
  if several : 0 < world.NUMCOMPUNITS then
    if ready : Launchable world srcptr dstptr cols rows then
      pure ⟨launchOf device world srcptr dstptr cols rows ready several, dstptr⟩
    else throw .undefined
  else throw (refused CL_INVALID_GLOBAL_WORK_SIZE)

/-- When the host has waited for a launch. -/
def World.waited (world : World) (device : Device capacity) (interrupted : Bool) (event : Event) :
    World :=
  let left := (if interrupted then device.interrupted else device.left) event.launch
    world.handles (world.memory (.device event.dstptr.name))
  { world with
    handles := left.1
    memory := Function.update world.memory (.device event.dstptr.name) left.2 }

def wait (device : Device capacity) (outage : Option Int32) (event : Event) : Code Unit := do
  modify fun world => world.waited device outage.isSome event
  call "clWaitForEvents" outage

/-! ## The functions of the source -/

/-- What the platform says. -/
structure Platform extends TiDsp.Platform where
  units : ℤ

/-- The block of `erode3x3_tidsp_cl_init` that catches exceptions. The properties of the
device are numbered in the order they are asked for. -/
def initBlock (outage : InitCall → Option Int32) (platform : Platform) (w h : Int32) :
    Code Int32 := do
  let bytes : ℤ := (widen (w * h)).toNat
  let ask (property : ℕ) : Code Unit := call "clGetDeviceInfo" (outage (.info property))
  call "clGetPlatformIDs" (outage .platforms)
  if platform.platforms = 0 then pure (-1)
  else do
    call "clCreateContextFromType" (outage .context)
    let context ← fresh
    call "clGetContextInfo" (outage .devices)
    each ask [0, 1, 2, 3, 4]
    modify fun world => { world with NUMCOMPUNITS := platform.units }
    each ask [5, 6, 7, 8, 9]
    ensure (widen (w * h * 2) ≤ platform.msmc_mem) .assertion
    each ask [10, 11, 12, 13, 14, 15]
    call "clCreateCommandQueue" (outage .queue)
    modify fun world => { world with queue := some context }
    let d_a ← createBuffer (outage .d_a) context bytes
    modify fun world => { world with d_a := some d_a }
    let d_b ← createBuffer (outage .d_b) context bytes
    modify fun world => { world with d_b := some d_b }
    call "clCreateProgramWithSource" (outage .program)
    call "clBuildProgram" (outage .build)
    call "clCreateKernel" (outage .kernel)
    modify fun world => { world with kernel := some ⟨context, none, none, none, none⟩ }
    pure 0

def erode3x3_tidsp_cl_init (outage : InitCall → Option Int32) (platform : Platform)
    (w h : Int32) : Code Int32 := do
  modify fun world => { world with width := w, height := h }
  ensure (w % 8 = 0) .assertion
  ensure (w < 2046) .assertion
  ensure (h > 2) .assertion
  caught (-1) (initBlock outage platform w h)

def erode3x3_tidsp_cl_map_input_buf (outage : Option Int32) : Code Memory := do
  let world ← get
  enqueueMapBuffer outage world.d_a true world.bytes

def erode3x3_tidsp_cl_unmap_input_buf (outage : Option Int32) (srcA : Memory) : Code Unit := do
  let world ← get
  enqueueUnmapMemObject outage world.d_a srcA

def erode3x3_tidsp_cl_map_output_buf (outage : Option Int32) : Code Memory := do
  let world ← get
  enqueueMapBuffer outage world.d_b false world.bytes

def erode3x3_tidsp_cl_unmap_output_buf (outage : Option Int32) (srcB : Memory) : Code Unit := do
  let world ← get
  enqueueUnmapMemObject outage world.d_b srcB

/-- The calls of `main` for one image, and those of `erode3x3_tidsp_cl` among them. -/
inductive FrameCall where
  | mapInput
  | unmapInput
  | setArg (index : ℕ)
  | enqueue
  | wait
  | profile (time : ℕ)
  | mapOutput
  | unmapOutput

def erode3x3_tidsp_cl (device : Device capacity) (outage : FrameCall → Option Int32) :
    Code Unit :=
  caught () (do
    setArg (outage (.setArg 0)) fun world kernel => { kernel with srcptr := world.d_a }
    setArg (outage (.setArg 1)) fun world kernel => { kernel with dstptr := world.d_b }
    setArg (outage (.setArg 2)) fun world kernel => { kernel with cols := some world.width }
    setArg (outage (.setArg 3)) fun world kernel => { kernel with rows := some world.height }
    let event ← enqueueNDRangeKernel device (outage .enqueue)
    wait device (outage .wait) event
    each (fun time => call "clGetEventProfileInfo" (outage (.profile time))) (List.range 4))

/-- `main` copies an image to the device. -/
def upload (outage : FrameCall → Option Int32) (h_a : ℕ) : Code Unit := do
  let d_a ← erode3x3_tidsp_cl_map_input_buf (outage .mapInput)
  let world ← get
  memcpy d_a (.host h_a) world.bytes
  erode3x3_tidsp_cl_unmap_input_buf (outage .unmapInput) d_a

/-- `main` copies the image of the device back. -/
def download (outage : FrameCall → Option Int32) (h_c : ℕ) : Code Unit := do
  let d_b ← erode3x3_tidsp_cl_map_output_buf (outage .mapOutput)
  let world ← get
  memcpy (.host h_c) d_b world.bytes
  erode3x3_tidsp_cl_unmap_output_buf (outage .unmapOutput) d_b

/-- What `main` does with one image after initialization. -/
def frame (device : Device capacity) (outage : FrameCall → Option Int32) (h_a h_c : ℕ) :
    Code Unit := do
  upload outage h_a
  erode3x3_tidsp_cl device outage
  download outage h_c

end ErodeTest.TiDsp.Calls
