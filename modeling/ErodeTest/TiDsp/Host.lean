import ErodeTest.Foundation.Word
import ErodeTest.TiDsp.Kernel

/-! # The sizes the host computes

`erode3x3_tidsp_cl_init` computes the number of bytes of an image and the memory for two
of them in the signed arithmetic of `int` and widens the results. Its assertions leave out
neither a negative width nor a product that wraps (`ErodeTest.TiDsp.sizesExact_iff`). For
the images they should admit, the start-up of the kernel computes in `int` what its model
computes with integers (`ErodeTest.TiDsp.startUpInt_eq`).
-/

namespace ErodeTest.TiDsp

/-- What the OpenCL platform says. -/
structure Platform where
  platforms : ℕ
  msmc_mem : UInt64

/-- The variables of the host: the size of the image and the bytes of the two buffers, once
these are created. -/
structure Host where
  width : Int32
  height : Int32
  d_a : Option UInt64
  d_b : Option UInt64
  deriving DecidableEq

/-- An `int` where an unsigned number of 64 bits is expected. -/
def widen (n : Int32) : UInt64 := n.toInt64.toUInt64

/-- A failed assertion ends the program. -/
def assert (condition : Prop) [Decidable condition] : Option Unit :=
  if condition then some () else none

theorem assert_bind {α : Type} {condition : Prop} [Decidable condition] {next : Unit → Option α}
    {result : α} : assert condition >>= next = some result ↔ condition ∧ next () = some result := by
  unfold assert
  split
  · next holds => exact (and_iff_right holds).symm
  · next fails => exact iff_of_false (by simp) fun passed => fails passed.1

/-- Initialization, with the value returned; none when an assertion fails. -/
def erode3x3_tidsp_cl_init (platform : Platform) (w h : Int32) : Option (Int32 × Host) := do
  let bytes := widen (w * h)
  assert (w % 8 = 0)
  assert (w < 2046)
  assert (h > 2)
  if platform.platforms = 0 then return (-1, ⟨w, h, none, none⟩)
  assert (widen (w * h * 2) ≤ platform.msmc_mem)
  return (0, ⟨w, h, some bytes, some bytes⟩)

/-- The bytes mapped of the input buffer. -/
def erode3x3_tidsp_cl_map_input_buf (host : Host) : UInt64 := widen (host.width * host.height)

/-- The bytes mapped of the output buffer. -/
def erode3x3_tidsp_cl_map_output_buf (host : Host) : UInt64 := widen (host.width * host.height)

/-- The sizes are those of the image, and it fits in the memory twice. -/
structure SizesExact (platform : Platform) (w h : Int32) (host : Host) : Prop where
  nonneg : 0 ≤ w.toInt
  fits : 2 * (w.toInt * h.toInt) ≤ platform.msmc_mem.toNat
  input : ∃ bytes, host.d_a = some bytes ∧ (bytes.toNat : ℤ) = w.toInt * h.toInt
  output : ∃ bytes, host.d_b = some bytes ∧ (bytes.toNat : ℤ) = w.toInt * h.toInt
  mapInput : ((erode3x3_tidsp_cl_map_input_buf host).toNat : ℤ) = w.toInt * h.toInt
  mapOutput : ((erode3x3_tidsp_cl_map_output_buf host).toNat : ℤ) = w.toInt * h.toInt
  rows : ∀ row : Int32, 0 ≤ row.toInt → row.toInt ≤ h.toInt →
    (row * w).toInt = row.toInt * w.toInt

section Widen

theorem toNat_widen (n : Int32) : ((widen n).toNat : ℤ) = n.toInt % 2 ^ 64 := by
  have signed : (n.toInt64.toBitVec.toNat : ℤ) = n.toInt64.toBitVec.toInt % 2 ^ 64 := by
    rw [BitVec.toInt_eq_toNat_bmod]
    exact (Int.emod_eq_of_lt (by omega) (by omega)).symm.trans (Int.bmod_emod).symm
  exact signed.trans (congrArg (· % 2 ^ 64) n.toInt_toInt64)

/-- A wrapped product is exact when it is in range and not negative. -/
theorem toNat_widen_eq_iff {n : Int32} {exact : ℤ} (wraps : n.toInt = exact.bmod (2 ^ 32))
    (lower : 0 ≤ exact) (upper : exact < 2 ^ 42) :
    ((widen n).toNat : ℤ) = exact ↔ exact < 2 ^ 31 := by
  rw [toNat_widen, wraps, Int.bmod_def]
  split <;> omega

end Widen

section Sizes

variable {platform : Platform} {w h : Int32} {host : Host}

/-- An image that is accepted has passed the assertions. -/
theorem init_eq (accepted : erode3x3_tidsp_cl_init platform w h = some (0, host)) :
    (w % 8 = 0 ∧ w < 2046 ∧ h > 2 ∧ widen (w * h * 2) ≤ platform.msmc_mem) ∧
      host = ⟨w, h, some (widen (w * h)), some (widen (w * h))⟩ := by
  simp only [erode3x3_tidsp_cl_init, assert_bind] at accepted
  obtain ⟨divisible, narrow, tall, rest⟩ := accepted
  split at rest
  · have code : (-1 : Int32) = 0 := congrArg Prod.fst (Option.some.inj rest)
    exact absurd code (by decide)
  · obtain ⟨small, created⟩ := assert_bind.mp rest
    exact ⟨⟨divisible, narrow, tall, small⟩, (congrArg Prod.snd (Option.some.inj created)).symm⟩

/-- **When the sizes are exact.** For an image that is accepted the sizes are exact, and it
fits, just when its width is not negative and its bytes can be counted in an `int`. -/
theorem sizesExact_iff (accepted : erode3x3_tidsp_cl_init platform w h = some (0, host)) :
    SizesExact platform w h host ↔ 0 ≤ w.toInt ∧ w.toInt * h.toInt < 2 ^ 31 := by
  obtain ⟨⟨_, narrow, tall, small⟩, rfl⟩ := init_eq accepted
  have wide : w.toInt < 2046 := Int32.lt_iff_toInt_lt.mp narrow
  have high : 2 < h.toInt := Int32.lt_iff_toInt_lt.mp tall
  have bound := h.toInt_lt
  have area : 0 ≤ w.toInt → 0 ≤ w.toInt * h.toInt ∧ w.toInt * h.toInt < 2 ^ 42 := by
    intro nonneg
    refine ⟨mul_nonneg nonneg (by omega), ?_⟩
    have := mul_le_mul (by omega : w.toInt ≤ 2046) bound.le (by omega) (by decide)
    omega
  constructor
  · intro exact
    obtain ⟨lower, upper⟩ := area exact.nonneg
    exact ⟨exact.nonneg, (toNat_widen_eq_iff (Int32.toInt_mul w h) lower upper).mp exact.mapInput⟩
  · rintro ⟨nonneg, counted⟩
    obtain ⟨lower, upper⟩ := area nonneg
    have bytes := (toNat_widen_eq_iff (Int32.toInt_mul w h) lower upper).mpr counted
    refine ⟨nonneg, ?_, ⟨_, rfl, bytes⟩, ⟨_, rfl, bytes⟩, bytes, bytes, ?_⟩
    · have checked : ((widen (w * h * 2)).toNat : ℤ) ≤ platform.msmc_mem.toNat :=
        Int.ofNat_le.mpr (UInt64.le_iff_toNat_le.mp small)
      have two : (2 : Int32).toInt = 2 := rfl
      rw [toNat_widen, Int32.toInt_mul, two, MachineWord.toInt_mul (by omega) counted,
        Int.bmod_def] at checked
      split at checked <;> omega
    · intro row first last
      have below := mul_le_mul_of_nonneg_right last nonneg
      rw [mul_comm h.toInt] at below
      have above := mul_nonneg first nonneg
      exact MachineWord.toInt_mul (by omega) (by omega)

end Sizes

/-- What an image of two to the thirty-second and 8192 bytes is taken for. -/
def wrapped : Host := ⟨8, 536871936, some 8192, some 8192⟩

theorem sizesExact_iff_full_hd :
    SizesExact ⟨1, 6291456⟩ 1920 1080 ⟨1920, 1080, some 2073600, some 2073600⟩ :=
  (sizesExact_iff (by decide)).mpr (by decide)

/-- An image of more than four gigabytes is accepted, with buffers of 8192 bytes. -/
theorem init_accepts_large_image :
    erode3x3_tidsp_cl_init ⟨1, 6291456⟩ 8 536871936 = some (0, wrapped) ∧
      ¬ SizesExact ⟨1, 6291456⟩ 8 536871936 wrapped := by
  refine ⟨by decide, fun exact => ?_⟩
  have fits := exact.fits
  exact absurd fits (by decide)

/-! ## The kernel's `int` arithmetic -/

/-- What the start-up cases of the kernel set, as `int`. -/
def startUpInt (cols rows offset : Int32) : (Int32 × Int32 × Int32) × Int32 × Int32 :=
  let srcPtr0 := (offset - 1) * cols
  let srcPtr1 := offset * cols
  let srcPtr2 := (offset + 1) * cols
  if offset = 0 then ((srcPtr1, srcPtr1, srcPtr2), 2 * cols, 0)
  else if offset = rows - 1 then ((srcPtr0, srcPtr1, srcPtr1), (rows - 1) * cols, offset * cols)
  else ((srcPtr0, srcPtr1, srcPtr2), (offset + 2) * cols, offset * cols)

/-- The integers five `int` stand for. -/
def integers (ints : (Int32 × Int32 × Int32) × Int32 × Int32) : (ℤ × ℤ × ℤ) × ℤ × ℤ :=
  ((ints.1.1.toInt, ints.1.2.1.toInt, ints.1.2.2.toInt), ints.2.1.toInt, ints.2.2.toInt)

section StartUp

variable {cols rows offset : Int32} (narrow : cols.toInt < 2046) (nonneg : 0 ≤ cols.toInt)
  (tall : 2 < rows.toInt) (counted : cols.toInt * rows.toInt < 2 ^ 31)

include narrow nonneg counted in
/-- The products of the kernel do not wrap up to the row after the image. -/
theorem toInt_mul_cols {row : Int32} (first : -1 ≤ row.toInt) (last : row.toInt ≤ rows.toInt) :
    (row * cols).toInt = row.toInt * cols.toInt := by
  have above := mul_le_mul_of_nonneg_right first nonneg
  have below := mul_le_mul_of_nonneg_right last nonneg
  rw [mul_comm rows.toInt] at below
  exact MachineWord.toInt_mul (by omega) (by omega)

include narrow nonneg tall counted

/-- **The start-up is computed exactly** for an image whose bytes can be counted. -/
theorem startUpInt_eq (first : 0 ≤ offset.toInt) (last : offset.toInt < rows.toInt) :
    integers (startUpInt cols rows offset) = startUp cols.toInt rows.toInt offset.toInt := by
  have bound := rows.toInt_lt
  have zero : (0 : Int32).toInt = 0 := rfl
  have one : (1 : Int32).toInt = 1 := rfl
  have two : (2 : Int32).toInt = 2 := rfl
  have top : offset = 0 ↔ offset.toInt = 0 := Int32.toInt_inj.symm.trans (by rw [zero])
  have previous : (offset - 1).toInt = offset.toInt - 1 := by
    rw [MachineWord.toInt_sub, one] <;> omega
  have next : (offset + 1).toInt = offset.toInt + 1 := by
    rw [MachineWord.toInt_add, one] <;> omega
  have bottom : (rows - 1).toInt = rows.toInt - 1 := by
    rw [MachineWord.toInt_sub, one] <;> omega
  have lastRow : offset = rows - 1 ↔ offset.toInt = rows.toInt - 1 :=
    Int32.toInt_inj.symm.trans (by rw [bottom])
  have product {row : Int32} (lower : -1 ≤ row.toInt) (upper : row.toInt ≤ rows.toInt) :=
    toInt_mul_cols narrow nonneg counted lower upper
  simp only [startUpInt, startUp, top, lastRow]
  split
  · simp (disch := omega) only [integers, product, next, two, zero]
  split
  · simp (disch := omega) only [integers, product, previous, bottom]
  · have after : (offset + 2).toInt = offset.toInt + 2 := by
      rw [MachineWord.toInt_add, two] <;> omega
    simp (disch := omega) only [integers, product, previous, next, after]

end StartUp

end ErodeTest.TiDsp
