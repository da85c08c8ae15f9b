import ErodeTest.Foundation.Packed
import ErodeTest.Foundation.Lanes
import Mathlib.Data.Fin.VecNotation
import Mathlib.Tactic.FinCases

/-! # The tile kernel of the SSE implementation

`erode3x3_sse_kernel` of `erode_sse.cc` produces sixteen output bytes of one
row. Its flags say at which borders of the image the tile lies: at the left and
right border the neighbouring lanes are rebuilt from the loaded ones with a
shuffle, at the top and bottom border the missing row is left out.
-/

namespace ErodeTest.Sse

open BufferProgram BufferProgram.Program Morphology

/-- A register of sixteen bytes. -/
abbrev M128i : Type := Lanes UInt8 16

def mm_loadu_si128 (address : ℤ) : Program UInt8 M128i := loadLanes 16 address

def mm_storeu_si128 (address : ℤ) (a : M128i) : Program UInt8 Unit := storeLanes address a

def mm_min_epu8 (a b : M128i) : M128i := fun lane => min (a lane) (b lane)

/-- A lane of the result is zero where the mask byte has its high bit set and
otherwise the lane named by the low four bits. -/
def mm_shuffle_epi8 (a mask : M128i) : M128i := fun lane =>
  if mask lane &&& 0x80 = 0 then a (Fin.ofNat 16 (mask lane).toNat) else 0

def arrangeLMask : M128i := ![0, 0, 1, 2, 3, 4, 5, 6, 7, 8, 9, 10, 11, 12, 13, 14]

def arrangeRMask : M128i := ![1, 2, 3, 4, 5, 6, 7, 8, 9, 10, 11, 12, 13, 14, 15, 15]

/-- The minimum of a row of the tile and its two horizontal neighbours; the
source repeats it for the top, the middle and the bottom row. -/
def rowMin (in_data : ℤ) (left right : Bool) : Program UInt8 M128i := do
  let data ← mm_loadu_si128 in_data
  let p0 ← if !left then mm_loadu_si128 (in_data - 1)
    else pure (mm_shuffle_epi8 data arrangeLMask)
  let p1 ← if !right then mm_loadu_si128 (in_data + 1)
    else pure (mm_shuffle_epi8 data arrangeRMask)
  pure (mm_min_epu8 (mm_min_epu8 data p0) p1)

/-- `erode3x3_sse_kernel`. A row that is not loaded leaves its register with
whatever it held before. -/
def erode3x3_sse_kernel (held : M128i) (in_data out_data in_stride : ℤ)
    (left top right bottom : Bool) : Program UInt8 Unit := do
  let top_data ← if !top then rowMin (in_data - in_stride) left right else pure held
  let mid_data ← rowMin in_data left right
  let bot_data ← if !bottom then rowMin (in_data + in_stride) left right else pure held
  let p0 :=
    if !top && !bottom then mm_min_epu8 bot_data (mm_min_epu8 top_data mid_data)
    else if top then mm_min_epu8 bot_data mid_data
    else mm_min_epu8 top_data mid_data
  mm_storeu_si128 out_data p0

/-! ## Lanes -/

/-- The left mask repeats the first lane. -/
theorem shuffle_arrangeLMask (a : M128i) (lane : Fin 16) :
    mm_shuffle_epi8 a arrangeLMask lane = a ⟨lane.val - 1, by omega⟩ := by
  fin_cases lane <;> rfl

/-- The right mask repeats the last lane. -/
theorem shuffle_arrangeRMask (a : M128i) (lane : Fin 16) :
    mm_shuffle_epi8 a arrangeRMask lane = a ⟨min (lane.val + 1) 15, by omega⟩ := by
  fin_cases lane <;> rfl

/-- What the register of a row holds, lane by lane. -/
def rowLanes (input : ℤ → UInt8) (in_data : ℤ) (left right : Bool) : M128i := fun lane =>
  min (min (input (in_data + lane.val))
      (input (in_data + if left then ((lane.val - 1 : ℕ) : ℤ) else lane.val - 1)))
    (input (in_data + if right then ((min (lane.val + 1) 15 : ℕ) : ℤ) else lane.val + 1))

theorem result_rowMin (in_data : ℤ) (left right : Bool) (input : ℤ → UInt8) :
    (rowMin in_data left right).result input = some (rowLanes input in_data left right) := by
  have before (lane : Fin 16) : in_data - 1 + (lane.val : ℤ) = in_data + (lane.val - 1) := by ring
  have after (lane : Fin 16) : in_data + 1 + (lane.val : ℤ) = in_data + (lane.val + 1) := by ring
  cases left <;> cases right <;> simp [rowMin, mm_loadu_si128] <;> funext lane <;>
    simp [rowLanes, mm_min_epu8, shuffle_arrangeLMask, shuffle_arrangeRMask, before, after]

theorem stores_rowMin (in_data : ℤ) (left right : Bool) (input : ℤ → UInt8) :
    (rowMin in_data left right).stores input = [] := by
  cases left <;> cases right <;> simp [rowMin, mm_loadu_si128]

/-- A row reads one byte more to each side that is not a border. -/
theorem loads_rowMin {in_data : ℤ} {left right : Bool} {input : ℤ → UInt8} {k : ℤ}
    (read : k ∈ (rowMin in_data left right).loads input) :
    (if left then in_data else in_data - 1) ≤ k ∧
      k < (if right then in_data + 16 else in_data + 17) := by
  cases left <;> cases right <;>
    simp [rowMin, mm_loadu_si128, mem_loads_loadLanes, -loads_loadLanes] at read ⊢ <;> omega

/-- The lanes the kernel stores. -/
def kernelLanes (held : M128i) (input : ℤ → UInt8) (in_data in_stride : ℤ)
    (left top right bottom : Bool) : M128i :=
  let top_data := if top then held else rowLanes input (in_data - in_stride) left right
  let mid_data := rowLanes input in_data left right
  let bot_data := if bottom then held else rowLanes input (in_data + in_stride) left right
  if !top && !bottom then mm_min_epu8 bot_data (mm_min_epu8 top_data mid_data)
  else if top then mm_min_epu8 bot_data mid_data
  else mm_min_epu8 top_data mid_data

section Kernel

variable (held : M128i) (in_data out_data in_stride : ℤ) (left top right bottom : Bool)
  (input : ℤ → UInt8)

theorem result_kernel :
    (erode3x3_sse_kernel held in_data out_data in_stride left top right bottom).result input =
      some () := by
  cases top <;> cases bottom <;>
    simp [erode3x3_sse_kernel, result_bind_of (result_rowMin _ _ _ _), mm_storeu_si128]

theorem stores_kernel :
    (erode3x3_sse_kernel held in_data out_data in_stride left top right bottom).stores input =
      (storeLanes out_data
        (kernelLanes held input in_data in_stride left top right bottom)).stores input := by
  cases top <;> cases bottom <;>
    simp [erode3x3_sse_kernel, collect_bind_of _ (result_rowMin _ _ _ _), stores_rowMin,
      mm_storeu_si128, kernelLanes]

/-- The kernel reads the rows of the tile that exist. -/
theorem loads_kernel {k : ℤ}
    (read : k ∈ (erode3x3_sse_kernel held in_data out_data in_stride left top right
      bottom).loads input) :
    ∃ row, (row = in_data ∨ top = false ∧ row = in_data - in_stride ∨
        bottom = false ∧ row = in_data + in_stride) ∧
      (if left then row else row - 1) ≤ k ∧ k < (if right then row + 16 else row + 17) := by
  have rows : k ∈ (rowMin in_data left right).loads input ∨
      top = false ∧ k ∈ (rowMin (in_data - in_stride) left right).loads input ∨
      bottom = false ∧ k ∈ (rowMin (in_data + in_stride) left right).loads input := by
    cases top <;> cases bottom <;>
      simp [erode3x3_sse_kernel, collect_bind_of _ (result_rowMin _ _ _ _),
        mm_storeu_si128] at read ⊢ <;> tauto
  rcases rows with middle | ⟨notTop, above⟩ | ⟨notBottom, below⟩
  · exact ⟨_, Or.inl rfl, loads_rowMin middle⟩
  · exact ⟨_, Or.inr (Or.inl ⟨notTop, rfl⟩), loads_rowMin above⟩
  · exact ⟨_, Or.inr (Or.inr ⟨notBottom, rfl⟩), loads_rowMin below⟩

end Kernel

/-! ## Tiles of an image -/

/-- The tile at column `x` and row `y` lies in the image, and its flags name
the borders it touches. -/
structure Placed (w h x y : ℤ) (left top right bottom : Bool) : Prop where
  columns : 0 ≤ x ∧ x + 16 ≤ w
  rows : 0 ≤ y ∧ y < h
  tall : 2 ≤ h
  atLeft : left = true ↔ x = 0
  atRight : right = true ↔ x + 16 = w
  atTop : top = true ↔ y = 0
  atBottom : bottom = true ↔ y + 1 = h

section Placed

variable {w h x y : ℤ} {left top right bottom : Bool}
  (placed : Placed w h x y left top right bottom) (input : ℤ → UInt8)

include placed

/-- A lane of a row's register is the minimum of its near columns. -/
theorem minOver_rowLanes (row : ℤ) {in_data : ℤ} (start : in_data = row * w + x)
    (lane : Fin 16) :
    MinOver (raster input w) (near w (x + lane.val) ×ˢ {row})
      (rowLanes input in_data left right lane) := by
  have columns := placed.columns
  have atLeft := placed.atLeft
  have atRight := placed.atRight
  have bound := lane.isLt
  refine minOver_bytes input row (x + lane.val)
    (x + if left then ((lane.val - 1 : ℕ) : ℤ) else lane.val - 1)
    (x + if right then ((min (lane.val + 1) 15 : ℕ) : ℤ) else lane.val + 1)
    (by omega) (by omega) (by omega) fun i => ?_
  rw [mem_near]
  cases left <;> cases right <;> simp at atLeft atRight ⊢ <;> omega

/-- A stored lane is the erosion of its pixel. -/
theorem kernelLanes_eq_erosion (held : M128i) (lane : Fin 16) :
    kernelLanes held input (y * w + x) w left top right bottom lane =
      erosion (raster input w) w h (x + lane.val, y) := by
  have above := minOver_rowLanes placed input (y - 1)
    (by ring : y * w + x - w = (y - 1) * w + x) lane
  have middle := minOver_rowLanes placed input y (rfl : y * w + x = y * w + x) lane
  have below := minOver_rowLanes placed input (y + 1)
    (by ring : y * w + x + w = (y + 1) * w + x) lane
  have columns := placed.columns
  have rows := placed.rows
  have bound := lane.isLt
  have inside : (x + lane.val, y) ∈ frame w h := by
    simp only [mem_frame]
    omega
  have tall := placed.tall
  have atTop := placed.atTop
  have atBottom := placed.atBottom
  cases top <;> cases bottom <;> simp at atTop atBottom
  · refine (below.min_rows (above.min_rows middle)).eq_erosion_of_rows (fun j => ?_) inside
    simp only [Set.mem_union, Set.mem_singleton_iff, mem_near]
    omega
  · refine (above.min_rows middle).eq_erosion_of_rows (fun j => ?_) inside
    simp only [Set.mem_union, Set.mem_singleton_iff, mem_near]
    omega
  · refine (below.min_rows middle).eq_erosion_of_rows (fun j => ?_) inside
    simp only [Set.mem_union, Set.mem_singleton_iff, mem_near]
    omega
  · omega

/-- A tile paints its sixteen pixels with the erosion. -/
theorem paints_kernel (held : M128i) :
    Paints ((erode3x3_sse_kernel held (y * w + x) (y * w + x) w left top right bottom).stores
        input) w {pixel | (x ≤ pixel.1 ∧ pixel.1 < x + 16) ∧ pixel.2 = y}
      (erosion (raster input w) w h) := by
  rw [stores_kernel]
  exact paints_storeLanes rfl (kernelLanes_eq_erosion placed input held) input

/-- A tile reads pixels of the image only. -/
theorem loads_kernel_inside (held : M128i) {k : ℤ}
    (read : k ∈ (erode3x3_sse_kernel held (y * w + x) (y * w + x) w left top right
      bottom).loads input) : 0 ≤ k ∧ k < w * h := by
  have columns := placed.columns
  have rows := placed.rows
  obtain ⟨row, located, lower, upper⟩ := loads_kernel _ _ _ _ _ _ _ _ _ read
  obtain ⟨r, rowEq, above, below⟩ : ∃ r, row = r * w + x ∧ 0 ≤ r ∧ r < h := by
    rcases located with rfl | ⟨notTop, rfl⟩ | ⟨notBottom, rfl⟩
    · exact ⟨y, rfl, rows⟩
    · have := placed.atTop.not.mp (by simp [notTop])
      exact ⟨y - 1, by ring, by omega, by omega⟩
    · have := placed.atBottom.not.mp (by simp [notBottom])
      exact ⟨y + 1, by ring, by omega, by omega⟩
  have leftMost : r * w ≤ k := by
    have atLeft := placed.atLeft
    cases left <;> simp at lower atLeft <;> omega
  have rightMost : k < r * w + w := by
    have atRight := placed.atRight
    cases right <;> simp at upper atRight <;> omega
  have inside : (k - r * w, r) ∈ frame w h := by
    simp only [mem_frame]
    omega
  simpa [address] using address_bounds inside

end Placed

end ErodeTest.Sse
