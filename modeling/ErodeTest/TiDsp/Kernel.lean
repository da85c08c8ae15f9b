import ErodeTest.Foundation.AsyncLogic
import ErodeTest.TiDsp.Partition
import ErodeTest.TiDsp.Words

/-! # The TI DSP kernel

`tidsp_morph_erode` of `erode3x3_tidsp.cl` keeps four lines of the image in local
memory, three it computes with and one that a copy fills meanwhile. A line holds the
bytes of a row from position one on, between two guard bytes of value 255. The lines
rotate by one for each row computed; the copies are asynchronous.
-/

namespace ErodeTest.TiDsp

open AsyncCopy BufferProgram Packed

/-- What a work-item does apart from its line buffers. -/
inductive Output where
  | alloc (granted : Bool)
  | free
  | printf (text : String)
  | store (address : ℤ) (value : UInt8)
  deriving DecidableEq

/-- A line and a position in it. -/
abbrev LineAddress : Type := ℕ × ℤ

/-- Programs over the line buffers and the source image. -/
abbrev Edma : Type → Type := Program LineAddress ℤ UInt8 Output

abbrev EdmaState : Type := State LineAddress ℤ UInt8 Output

abbrev EdmaEvent : Type := Event LineAddress ℤ UInt8 Output

def MAX_LINE_SIZE : ℤ := 2048

/-! ## Memory accesses of the kernel -/

/-- A copy of consecutive bytes. -/
def transfer (srcPtr : ℤ) (dstPtr : LineAddress) (numBytes : ℤ) : List (LineAddress × ℤ) :=
  (List.range numBytes.toNat).map fun n : ℕ => ((dstPtr.1, dstPtr.2 + n), srcPtr + n)

def EdmaMgr_copy1D1DLinked (transfers : List (ℤ × LineAddress)) (numBytes : ℤ) : Edma Unit :=
  forM transfers fun (srcPtr, dstPtr) => Program.issue (transfer srcPtr dstPtr numBytes)

/-- The size of the copy is that of the copies set up before. -/
def EdmaMgr_copyFast (numBytes srcPtr : ℤ) (dstPtr : LineAddress) : Edma Unit :=
  Program.issue (transfer srcPtr dstPtr numBytes)

def EdmaMgr_wait : Edma Unit := Program.await

def EdmaMgr_free : Edma Unit := Program.output .free

/-- The first `n` bytes from an address on. -/
def readBytes (line : ℕ) (position : ℤ) : ℕ → Edma (ℕ → UInt8)
  | 0 => pure fun _ => 0
  | n + 1 => do
    let bytes ← readBytes line position n
    let value ← Program.readAt (line, position + n)
    pure (Function.update bytes n value)

def amem8_const (line : ℕ) (position : ℤ) : Edma (BitVec 64) := do
  let bytes ← readBytes line position 8
  pure (ofBytes 8 bytes)

/-- Two bytes, widened to a word of four. -/
def amem2_const (line : ℕ) (position : ℤ) : Edma (BitVec 32) := do
  let bytes ← readBytes line position 2
  pure ((ofBytes 2 bytes : BitVec 16).setWidth 32)

/-- Store eight bytes. -/
def amem8 (address : ℤ) (value : BitVec 64) : Edma Unit :=
  forM (List.range 8) fun k => Program.output (.store (address + (k : ℕ)) (byte value k))

/-! ## The kernel -/

/-- One round of the loop over the columns. -/
def columnRound (yprev_ptr y_ptr ynext_ptr : ℕ) (dest_ptr i : ℤ) : Edma Unit := do
  let r0_76543210 ← amem8_const yprev_ptr i
  let r1_76543210 ← amem8_const y_ptr i
  let r2_76543210 ← amem8_const ynext_ptr i
  let r0_98 ← amem2_const yprev_ptr (i + 8)
  let r1_98 ← amem2_const y_ptr (i + 8)
  let r2_98 ← amem2_const ynext_ptr (i + 8)
  amem8 (dest_ptr + i) (columnMin r0_76543210 r1_76543210 r2_76543210 r0_98 r1_98 r2_98)

/-- One round of the loop over the rows, which carries `dest_ptr`, `start_rd_idx` and
`fetch_rd_idx`. -/
def rowRound (cols rows offset y : ℤ) : ℤ × ℕ × ℤ → Edma (ℤ × ℕ × ℤ)
  | (dest_ptr, start_rd_idx, fetch_rd_idx) => do
    EdmaMgr_wait
    let rd_idx := start_rd_idx
    let yprev_ptr := rd_idx
    let rd_idx := (rd_idx + 1) &&& 3
    let start_rd_idx := rd_idx
    let y_ptr := rd_idx
    let rd_idx := (rd_idx + 1) &&& 3
    let ynext_ptr := rd_idx
    let rd_idx := (rd_idx + 1) &&& 3
    EdmaMgr_copyFast cols fetch_rd_idx (rd_idx, 1)
    let fetch_rd_idx := if offset + y + 3 < rows then fetch_rd_idx + cols else fetch_rd_idx
    let _ ← forRange 0 cols 8 (columnRound yprev_ptr y_ptr ynext_ptr dest_ptr)
    pure (dest_ptr + cols, start_rd_idx, fetch_rd_idx)

/-- The guard bytes of the four lines. -/
def writeGuards (cols : ℤ) : Edma Unit :=
  forM [0, 1, 2, 3] fun line : ℕ => do
    Program.writeAt (line, 0) 255
    Program.writeAt (line, cols + 1) 255

/-- What the three start-up cases of the source set: the sources of the first three copies,
`fetch_rd_idx` and `dest_ptr`. -/
def startUp (cols rows offset : ℤ) : (ℤ × ℤ × ℤ) × ℤ × ℤ :=
  let srcPtr0 := (offset - 1) * cols
  let srcPtr1 := offset * cols
  let srcPtr2 := (offset + 1) * cols
  if offset = 0 then ((srcPtr1, srcPtr1, srcPtr2), 2 * cols, 0)
  else if offset = rows - 1 then ((srcPtr0, srcPtr1, srcPtr1), (rows - 1) * cols, offset * cols)
  else ((srcPtr0, srcPtr1, srcPtr2), (offset + 2) * cols, offset * cols)

/-- The kernel from its start-up copies on. -/
def computeRows (cols rows mLocal offset : ℤ) : Edma Unit := do
  let ((srcPtr0, srcPtr1, srcPtr2), fetch_rd_idx, dest_ptr) := startUp cols rows offset
  EdmaMgr_copy1D1DLinked [(srcPtr0, (0, 1)), (srcPtr1, (1, 1)), (srcPtr2, (2, 1))] cols
  writeGuards cols
  let _ ← forLoop 0 mLocal 1 (dest_ptr, 0, fetch_rd_idx) (rowRound cols rows offset)
  EdmaMgr_wait
  EdmaMgr_free

/-- `tidsp_morph_erode`, run by work-item `id` of `chunks`; `evIN` says whether
`EdmaMgr_alloc` succeeds. -/
def tidsp_morph_erode (evIN : Bool) (cols rows id chunks : ℤ) : Edma Unit := do
  Program.output (.alloc evIN)
  if !evIN then Program.output (.printf "Failed to alloc edmaIN handle.\n")
  else if Surplus rows chunks id then pure ()
  else computeRows cols rows (mLocal rows chunks id) (offset rows chunks id)

end ErodeTest.TiDsp
