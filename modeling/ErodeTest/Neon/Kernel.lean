import ErodeTest.Foundation.Packed
import ErodeTest.Foundation.Lanes
import Mathlib.Tactic.FinCases

/-! # The tile kernel of the NEON implementation

`erode3x3_neon_kernel` of `erode_neon.cc` produces eight output bytes of one row
or, with `parallel_2_rows`, of two rows that share the minimum of the two rows
between them. Its other flags say at which borders of the image the tile lies.
A tile loads sixteen bytes of each row it looks at: from its own left end at the
left border, from eight bytes before at the right border, and from one byte
before elsewhere, where it uses ten of them.
-/

namespace ErodeTest.Neon

open BufferProgram BufferProgram.Program Morphology

abbrev U8x8 : Type := Lanes UInt8 8

abbrev U8x16 : Type := Lanes UInt8 16

def vld1q_u8 (address : ℤ) : Program UInt8 U8x16 := loadLanes 16 address

def vst1_u8 (address : ℤ) (a : U8x8) : Program UInt8 Unit := storeLanes address a

def vget_low_u8 (a : U8x16) : U8x8 := fun lane => a ⟨lane.val, by omega⟩

def vget_high_u8 (a : U8x16) : U8x8 := fun lane => a ⟨lane.val + 8, by omega⟩

/-- Eight consecutive lanes of the sixteen of `a` and `b`, from lane `n` on. -/
def vext_u8 (a b : U8x8) (n : ℕ) : U8x8 := fun lane =>
  if lane.val + n < 8 then a (Fin.ofNat 8 (lane.val + n)) else b (Fin.ofNat 8 (lane.val + n))

def vrev64_u8 (a : U8x8) : U8x8 := fun lane => a ⟨7 - lane.val, by omega⟩

def vmin_u8 (a b : U8x8) : U8x8 := fun lane => min (a lane) (b lane)

/-- A row of the tile and its two horizontal neighbours, which the source
selects for each of the rows it has loaded. -/
def neighbours (right left : Bool) (data : U8x16) : U8x8 × U8x8 × U8x8 :=
  if right then
    (vget_high_u8 data,
      vext_u8 (vget_high_u8 data) (vrev64_u8 (vget_high_u8 data)) 1,
      vext_u8 (vget_low_u8 data) (vget_high_u8 data) 7)
  else if left then
    (vget_low_u8 data,
      vext_u8 (vrev64_u8 (vget_low_u8 data)) (vget_low_u8 data) 7,
      vext_u8 (vget_low_u8 data) (vget_high_u8 data) 1)
  else
    (vget_low_u8 data,
      vext_u8 (vget_low_u8 data) (vget_high_u8 data) 1,
      vext_u8 (vget_low_u8 data) (vget_high_u8 data) 2)

/-- The register `p3`: the minimum over the two rows both output rows look at. -/
def sharedMin (right left : Bool) (mid_data bot_data : U8x16) : U8x8 :=
  let (p3, p4, p5) := neighbours right left mid_data
  let (p6, p7, p8) := neighbours right left bot_data
  let p3 := vmin_u8 p3 p4
  let p3 := vmin_u8 p3 p5
  let p3 := vmin_u8 p3 p6
  let p3 := vmin_u8 p3 p7
  vmin_u8 p3 p8

/-- The register `p0`: the first output row. -/
def upperMin (right left : Bool) (top_data : U8x16) (p3 : U8x8) : U8x8 :=
  let (p0, p1, p2) := neighbours right left top_data
  let p0 := vmin_u8 p0 p3
  let p0 := vmin_u8 p0 p1
  vmin_u8 p0 p2

/-- The register `p9`: the second output row. -/
def lowerMin (right left : Bool) (bot_2_data : U8x16) (p3 : U8x8) : U8x8 :=
  let (p9, p10, p11) := neighbours right left bot_2_data
  let p9 := vmin_u8 p3 p9
  let p9 := vmin_u8 p9 p10
  vmin_u8 p9 p11

/-- `erode3x3_neon_kernel`. A row that is not loaded leaves its register with
whatever it held before. -/
def erode3x3_neon_kernel (held : U8x16) (in_data out_data stride : ℤ)
    (parallel_2_rows left top right bottom : Bool) : Program UInt8 Unit := do
  let in_ptr := if left then in_data else if right then in_data - 8 else in_data - 1
  let mid_data ← vld1q_u8 in_ptr
  let top_data ← if top then pure mid_data else vld1q_u8 (in_ptr - stride)
  let bot_data ← if bottom && !parallel_2_rows then pure mid_data else vld1q_u8 (in_ptr + stride)
  let bot_2_data ←
    if parallel_2_rows then
      if bottom then pure bot_data else vld1q_u8 (in_ptr + 2 * stride)
    else pure held
  let p3 := sharedMin right left mid_data bot_data
  vst1_u8 out_data (upperMin right left top_data p3)
  if parallel_2_rows then
    vst1_u8 (out_data + stride) (lowerMin right left bot_2_data p3)

/-! ## Lanes -/

/-- The minimum of a row of the tile and its horizontal neighbours. -/
def rowMin (right left : Bool) (data : U8x16) : U8x8 := fun lane =>
  let (a, b, c) := neighbours right left data
  min (min (a lane) (b lane)) (c lane)

/-- Where in the loaded bytes the three neighbours of a lane lie. -/
theorem rowMin_apply (right left : Bool) (data : U8x16) (lane : Fin 8) :
    rowMin right left data lane =
      if right then
        min (min (data ⟨lane.val + 8, by omega⟩) (data ⟨min (lane.val + 9) 15, by omega⟩))
          (data ⟨lane.val + 7, by omega⟩)
      else if left then
        min (min (data ⟨lane.val, by omega⟩) (data ⟨lane.val - 1, by omega⟩))
          (data ⟨lane.val + 1, by omega⟩)
      else
        min (min (data ⟨lane.val, by omega⟩) (data ⟨lane.val + 1, by omega⟩))
          (data ⟨lane.val + 2, by omega⟩) := by
  cases right <;> cases left <;> fin_cases lane <;> rfl

/-- The bytes loaded from an address. -/
def row (input : ℤ → UInt8) (address : ℤ) : U8x16 := fun lane => input (address + lane.val)

/-- Where a tile loads from. -/
def inPtr (in_data : ℤ) (left right : Bool) : ℤ :=
  if left then in_data else if right then in_data - 8 else in_data - 1

/-- The rows a tile looks at: above the first output row, the output row, below
it, and below the second output row; a row outside the image is replaced by the
one next to it. -/
def topPtr (in_ptr stride : ℤ) (top : Bool) : ℤ := if top then in_ptr else in_ptr - stride

def botPtr (in_ptr stride : ℤ) (parallel_2_rows bottom : Bool) : ℤ :=
  if bottom && !parallel_2_rows then in_ptr else in_ptr + stride

def bot2Ptr (in_ptr stride : ℤ) (bottom : Bool) : ℤ :=
  if bottom then in_ptr + stride else in_ptr + 2 * stride

/-- The minimum of three rows of the tile. -/
def lanes (input : ℤ → UInt8) (right left : Bool) (first second third : ℤ) : U8x8 := fun lane =>
  min (min (rowMin right left (row input first) lane) (rowMin right left (row input second) lane))
    (rowMin right left (row input third) lane)

theorem sharedMin_apply (right left : Bool) (mid_data bot_data : U8x16) (lane : Fin 8) :
    sharedMin right left mid_data bot_data lane =
      min (rowMin right left mid_data lane) (rowMin right left bot_data lane) := by
  simp only [sharedMin, rowMin, vmin_u8, min_assoc]

theorem upperMin_apply (right left : Bool) (top_data : U8x16) (p3 : U8x8) (lane : Fin 8) :
    upperMin right left top_data p3 lane = min (p3 lane) (rowMin right left top_data lane) := by
  simp only [upperMin, rowMin, vmin_u8, min_assoc, min_left_comm (p3 lane)]

theorem lowerMin_apply (right left : Bool) (bot_2_data : U8x16) (p3 : U8x8) (lane : Fin 8) :
    lowerMin right left bot_2_data p3 lane =
      min (p3 lane) (rowMin right left bot_2_data lane) := by
  simp only [lowerMin, rowMin, vmin_u8, min_assoc]

theorem lanes_eq_upperMin (input : ℤ → UInt8) (right left : Bool) (first second third : ℤ) :
    upperMin right left (row input third)
        (sharedMin right left (row input first) (row input second)) =
      lanes input right left first second third := by
  funext lane
  rw [upperMin_apply, sharedMin_apply, lanes]

theorem lanes_eq_lowerMin (input : ℤ → UInt8) (right left : Bool) (first second third : ℤ) :
    lowerMin right left (row input third)
        (sharedMin right left (row input first) (row input second)) =
      lanes input right left first second third := by
  funext lane
  rw [lowerMin_apply, sharedMin_apply, lanes]

section Kernel

variable (held : U8x16) (in_data out_data stride : ℤ)
  (parallel_2_rows left top right bottom : Bool) (input : ℤ → UInt8)

theorem result_kernel :
    (erode3x3_neon_kernel held in_data out_data stride parallel_2_rows left top right
      bottom).result input = some () := by
  cases parallel_2_rows <;> cases top <;> cases bottom <;>
    simp [erode3x3_neon_kernel, vld1q_u8, vst1_u8, result_bind]

/-- The kernel stores the minima of the rows around its first and, with
`parallel_2_rows`, its second output row. -/
theorem stores_kernel :
    (erode3x3_neon_kernel held in_data out_data stride parallel_2_rows left top right
      bottom).stores input =
      (storeLanes out_data (lanes input right left (inPtr in_data left right)
          (botPtr (inPtr in_data left right) stride parallel_2_rows bottom)
          (topPtr (inPtr in_data left right) stride top))).stores input ++
        if parallel_2_rows then
          (storeLanes (out_data + stride) (lanes input right left (inPtr in_data left right)
            (botPtr (inPtr in_data left right) stride parallel_2_rows bottom)
            (bot2Ptr (inPtr in_data left right) stride bottom))).stores input
        else [] := by
  have loaded (address : ℤ) :
      (fun lane : Fin 16 => input (address + lane.val)) = row input address := rfl
  cases parallel_2_rows <;> cases top <;> cases bottom <;>
    simp [erode3x3_neon_kernel, vld1q_u8, vst1_u8, loaded, lanes_eq_upperMin, lanes_eq_lowerMin,
      inPtr, topPtr, botPtr, bot2Ptr]

/-- The kernel reads sixteen bytes of each of its rows that is in the image. -/
theorem mem_loads_kernel {k : ℤ} :
    k ∈ (erode3x3_neon_kernel held in_data out_data stride parallel_2_rows left top right
      bottom).loads input ↔
      ∃ d : ℤ, (d = 0 ∨ d = -1 ∧ top = false ∨ d = 1 ∧ (bottom = false ∨ parallel_2_rows = true) ∨
          d = 2 ∧ bottom = false ∧ parallel_2_rows = true) ∧
        inPtr in_data left right + d * stride ≤ k ∧
          k < inPtr in_data left right + d * stride + 16 := by
  have above (p : ℤ) : p - stride = p + -1 * stride := by ring
  cases parallel_2_rows <;> cases top <;> cases bottom <;>
    simp [erode3x3_neon_kernel, vld1q_u8, vst1_u8, inPtr, mem_loads_loadLanes, -loads_loadLanes,
      or_and_right, exists_or, above]

end Kernel

/-! ## Tiles of an image -/

/-- The tile at column `x` and row `y` lies in an image of at least two tiles,
and its flags name the borders it touches; it produces a second row where the
image has one. -/
structure Placed (w h x y : ℤ) (parallel_2_rows left top right bottom : Bool) : Prop where
  columns : 0 ≤ x ∧ x + 8 ≤ w
  wide : 16 ≤ w
  rows : 0 ≤ y ∧ y < h
  second : parallel_2_rows = true ↔ y + 2 ≤ h
  atLeft : left = true ↔ x = 0
  atRight : right = true ↔ x + 8 = w
  atTop : top = true ↔ y = 0
  atBottom : bottom = true ↔ h ≤ y + 2

/-! The rows a tile looks at, by their numbers. -/

def topRow (y : ℤ) (top : Bool) : ℤ := if top then y else y - 1

def botRow (y : ℤ) (parallel_2_rows bottom : Bool) : ℤ :=
  if bottom && !parallel_2_rows then y else y + 1

def bot2Row (y : ℤ) (bottom : Bool) : ℤ := if bottom then y + 1 else y + 2

theorem topPtr_eq (x y w : ℤ) (left right top : Bool) :
    topPtr (inPtr (y * w + x) left right) w top = inPtr (topRow y top * w + x) left right := by
  cases left <;> cases right <;> cases top <;> simp [topPtr, inPtr, topRow] <;> ring

theorem botPtr_eq (x y w : ℤ) (parallel_2_rows left right bottom : Bool) :
    botPtr (inPtr (y * w + x) left right) w parallel_2_rows bottom =
      inPtr (botRow y parallel_2_rows bottom * w + x) left right := by
  unfold botPtr botRow
  cases (bottom && !parallel_2_rows) <;> cases left <;> cases right <;> simp [inPtr] <;> ring

theorem bot2Ptr_eq (x y w : ℤ) (left right bottom : Bool) :
    bot2Ptr (inPtr (y * w + x) left right) w bottom =
      inPtr (bot2Row y bottom * w + x) left right := by
  cases left <;> cases right <;> cases bottom <;> simp [bot2Ptr, inPtr, bot2Row] <;> ring

section Placed

variable {w h x y : ℤ} {parallel_2_rows left top right bottom : Bool}
  (placed : Placed w h x y parallel_2_rows left top right bottom) (input : ℤ → UInt8)

include placed

/-- A lane of a row is the minimum of its near columns. -/
theorem minOver_rowMin (r : ℤ) (lane : Fin 8) :
    MinOver (raster input w) (near w (x + lane.val) ×ˢ {r})
      (rowMin right left (row input (inPtr (r * w + x) left right)) lane) := by
  have columns := placed.columns
  have wide := placed.wide
  have atLeft := placed.atLeft
  have atRight := placed.atRight
  have bound := lane.isLt
  rw [rowMin_apply]
  cases right <;> cases left <;> simp only [row, inPtr, Bool.false_eq_true, if_false, if_true]
  · refine minOver_bytes input r (x + lane.val - 1) (x + lane.val) (x + lane.val + 1)
      (by omega) (by omega) (by omega) fun i => ?_
    simp only [mem_near, reduceCtorEq, false_iff] at atLeft atRight ⊢
    omega
  · refine minOver_bytes input r (x + lane.val) (x + (lane.val - 1 : ℕ)) (x + lane.val + 1)
      (by omega) (by omega) (by omega) fun i => ?_
    simp only [mem_near, true_iff] at atLeft ⊢
    omega
  · refine minOver_bytes input r (x + lane.val) (x + (min (lane.val + 9) 15 : ℕ) - 8)
      (x + lane.val - 1) (by omega) (by omega) (by omega) fun i => ?_
    simp only [mem_near, true_iff] at atRight ⊢
    omega
  · simp only [true_iff] at atLeft atRight
    omega

/-- A lane of the minimum of three rows is the erosion of a pixel with these near rows. -/
theorem lanes_eq_erosion {r first second third : ℤ} (inside : 0 ≤ r ∧ r < h)
    (same : ∀ j, (j = first ∨ j = second) ∨ j = third ↔ j ∈ near h r) (lane : Fin 8) :
    lanes input right left (inPtr (first * w + x) left right) (inPtr (second * w + x) left right)
        (inPtr (third * w + x) left right) lane =
      erosion (raster input w) w h (x + lane.val, r) := by
  have columns := placed.columns
  have bound := lane.isLt
  refine (((minOver_rowMin placed input first lane).min_rows
    (minOver_rowMin placed input second lane)).min_rows
      (minOver_rowMin placed input third lane)).eq_erosion_of_rows same ?_
  simp only [mem_frame]
  omega

theorem near_rows_upper (j : ℤ) :
    (j = y ∨ j = botRow y parallel_2_rows bottom) ∨ j = topRow y top ↔ j ∈ near h y := by
  have rows := placed.rows
  simp only [botRow, topRow, Bool.and_eq_true, Bool.not_eq_true', ← Bool.not_eq_true,
    placed.atTop, placed.atBottom, placed.second, mem_near]
  split_ifs <;> omega

theorem near_rows_lower (pair : parallel_2_rows = true) (j : ℤ) :
    (j = y ∨ j = botRow y parallel_2_rows bottom) ∨ j = bot2Row y bottom ↔ j ∈ near h (y + 1) := by
  have rows := placed.rows
  have below := placed.second.mp pair
  simp only [botRow, bot2Row, Bool.and_eq_true, Bool.not_eq_true', ← Bool.not_eq_true,
    placed.atBottom, placed.second, mem_near]
  split_ifs <;> omega

/-- A tile paints its pixels, eight or twice eight, with the erosion. -/
theorem paints_kernel (held : U8x16) :
    Paints ((erode3x3_neon_kernel held (y * w + x) (y * w + x) w parallel_2_rows left top right
        bottom).stores input) w
      {pixel | (x ≤ pixel.1 ∧ pixel.1 < x + 8) ∧
        (pixel.2 = y ∨ parallel_2_rows = true ∧ pixel.2 = y + 1)}
      (erosion (raster input w) w h) := by
  rw [stores_kernel, topPtr_eq, botPtr_eq, bot2Ptr_eq]
  have upper := paints_storeLanes (n := 8) (rfl : y * w + x = y * w + x)
    (lanes_eq_erosion placed input placed.rows (near_rows_upper placed)) input
  cases parallel_2_rows
  · simpa using upper
  · have above := placed.rows
    have below := placed.second.mp rfl
    have lower := paints_storeLanes (n := 8) (by ring : y * w + x + w = (y + 1) * w + x)
      (lanes_eq_erosion placed input (by omega : 0 ≤ y + 1 ∧ y + 1 < h)
        (near_rows_lower placed rfl)) input
    refine (upper.append lower).region_congr (Set.ext fun pixel => ?_)
    simp only [Set.mem_union, Set.mem_ofPred_eq, true_and, and_or_left, Nat.cast_ofNat]

/-- A tile reads sixteen bytes of each row it looks at. -/
theorem mem_loads_kernel_iff (held : U8x16) {k : ℤ} :
    k ∈ (erode3x3_neon_kernel held (y * w + x) (y * w + x) w parallel_2_rows left top right
        bottom).loads input ↔
      ∃ r, (0 ≤ r ∧ r < h ∧ y - 1 ≤ r ∧ r ≤ y + 2) ∧
        r * w + inPtr x left right ≤ k ∧ k < r * w + inPtr x left right + 16 := by
  have rows := placed.rows
  have start (d : ℤ) :
      inPtr (y * w + x) left right + d * w = (y + d) * w + inPtr x left right := by
    cases left <;> cases right <;> simp [inPtr] <;> ring
  simp only [mem_loads_kernel, start, ← Bool.not_eq_true, placed.atTop, placed.atBottom,
    placed.second]
  constructor
  · rintro ⟨d, looked, located⟩
    exact ⟨y + d, by omega, located⟩
  · rintro ⟨r, looked, located⟩
    refine ⟨r - y, by omega, ?_⟩
    rwa [add_sub_cancel]

theorem inPtr_bounds :
    0 ≤ inPtr x left right ∧ (inPtr x left right + 16 ≤ w ∨
      (left = false ∧ right = false) ∧ inPtr x left right = x - 1) := by
  have columns := placed.columns
  have wide := placed.wide
  have atLeft := placed.atLeft
  have atRight := placed.atRight
  cases left <;> cases right <;> simp [inPtr] at atLeft atRight ⊢ <;> omega

/-- A tile reads the image only, unless it is an inner tile that looks at the last row too
close to the right border. -/
theorem loads_kernel_inside_iff (held : U8x16) :
    (∀ k ∈ (erode3x3_neon_kernel held (y * w + x) (y * w + x) w parallel_2_rows left top right
        bottom).loads input, 0 ≤ k ∧ k < w * h) ↔
      (left = false → right = false → h ≤ y + 3 → x + 15 ≤ w) := by
  have columns := placed.columns
  have wide := placed.wide
  have rows := placed.rows
  simp only [mem_loads_kernel_iff placed input]
  constructor
  · rintro inside rfl rfl last
    have start : inPtr x false false = x - 1 := rfl
    have edge := (inside ((h - 1) * w + (x + 14))
      ⟨h - 1, by omega, by rw [start]; omega, by rw [start]; omega⟩).2
    linarith
  · rintro inner k ⟨r, looked, lower, upper⟩
    obtain ⟨start, fits | ⟨⟨notLeft, notRight⟩, shifted⟩⟩ := inPtr_bounds placed
    · have := mul_nonneg looked.1 (by omega : 0 ≤ w)
      have := mul_le_mul_of_nonneg_right (by omega : r + 1 ≤ h) (by omega : 0 ≤ w)
      constructor <;> linarith
    · have := mul_nonneg looked.1 (by omega : 0 ≤ w)
      by_cases last : r = h - 1
      · have := inner notLeft notRight (by omega)
        subst last
        constructor <;> linarith
      · have := mul_le_mul_of_nonneg_right (by omega : r + 2 ≤ h) (by omega : 0 ≤ w)
        constructor <;> linarith

end Placed

end ErodeTest.Neon
