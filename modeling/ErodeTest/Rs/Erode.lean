import ErodeTest.Rs.Kernel
import ErodeTest.Scalar.Erode

/-! # The RenderScript implementation

`erode3x3_rs` of `erode_rs.cc` copies the image to an allocation, launches the kernel
once for each cell of a second allocation and copies that one out. The cells are
computed in an order of the runtime's own; the copies step from row to row by the
stride the host passes.
-/

namespace ErodeTest.Rs

open BufferProgram BufferProgram.Program Morphology

/-- The cells of an allocation, row by row. -/
def cells (dimX dimY : UInt32) : List (UInt32 × UInt32) :=
  (List.range dimY.toNat).flatMap fun y : ℕ =>
    (List.range dimX.toNat).map fun x : ℕ => (UInt32.ofNat x, UInt32.ofNat y)

/-- The offset of a cell in a host buffer. -/
def offset (stride : ℤ) (c : UInt32 × UInt32) : ℤ := c.2.toNat * stride + c.1.toNat

/-- Fill an allocation from a host buffer. -/
def Allocation.copy2DStridedFrom (a : Allocation) (data : ℤ → UInt8) (stride : ℤ) : Allocation :=
  { a with cell :=
      replay ((cells a.dimX a.dimY).map fun c => (c, data (offset stride c))) a.cell }

/-- Copy an allocation to a host buffer. -/
def Allocation.copy2DStridedTo (a : Allocation) (data : ℤ → UInt8) (stride : ℤ) : ℤ → UInt8 :=
  replay ((cells a.dimX a.dimY).map fun c => (offset stride c, a.cell c)) data

/-- Launch the kernel for the cells of an allocation in the given order. -/
def Script.forEach_root (script : Script) (order : List (UInt32 × UInt32)) (aout : Allocation) :
    Option Allocation := do
  let written ← order.mapM fun c => do
    let r ← root script c.1 c.2
    pure (c, r)
  pure { aout with cell := replay written aout.cell }

/-- The static variables of `erode_rs.cc`. The script reads the allocation `ain`. -/
structure Context where
  gWidth : Int32
  gHeight : Int32
  ain : Allocation
  aout : Allocation

/-- The script with its allocation. -/
def Context.sc (context : Context) : Script where
  gWidth := context.gWidth
  gHeight := context.gHeight
  gIn := context.ain

/-- `erode3x3_rs_init`. The new allocations hold arbitrary bytes. -/
def erode3x3_rs_init (w h : Int32) (freshIn freshOut : UInt32 × UInt32 → UInt8) : Context where
  gWidth := w
  gHeight := h
  ain := { dimX := w.toUInt32, dimY := h.toUInt32, cell := freshIn }
  aout := { dimX := w.toUInt32, dimY := h.toUInt32, cell := freshOut }

/-- `erode3x3_rs`, with the order in which the runtime computes the cells. -/
def erode3x3_rs (order : List (UInt32 × UInt32)) (context : Context) (in_data out_data : ℤ → UInt8)
    (w _h : Int32) : Option (ℤ → UInt8) := do
  let context := { context with
    ain := context.ain.copy2DStridedFrom in_data (w.toInt % 2 ^ 64) }
  let aout ← context.sc.forEach_root order context.aout
  pure (aout.copy2DStridedTo out_data (w.toInt % 2 ^ 64))

/-! ## Cells and pixels -/

theorem mem_cells {dimX dimY : UInt32} {c : UInt32 × UInt32} :
    c ∈ cells dimX dimY ↔ c.1 < dimX ∧ c.2 < dimY := by
  simp only [cells, List.mem_flatMap, List.mem_map, List.mem_range, UInt32.lt_iff_toNat_lt]
  constructor
  · rintro ⟨y, below, x, right, rfl⟩
    have := dimX.toNat_lt
    have := dimY.toNat_lt
    simp only [UInt32.toNat_ofNat']
    omega
  · rintro ⟨right, below⟩
    exact ⟨c.2.toNat, below, c.1.toNat, right, by simp⟩

/-- Cells written once each hold what was written to them, in every order. -/
theorem replay_cells {κ : Type} [DecidableEq κ] {order : List (UInt32 × UInt32)}
    (place : UInt32 × UInt32 → κ) (value : UInt32 × UInt32 → UInt8) (content : κ → UInt8)
    (apart : ∀ c ∈ order, ∀ c' ∈ order, place c = place c' → c = c')
    {c : UInt32 × UInt32} (listed : c ∈ order) :
    replay (order.map fun c => (place c, value c)) content (place c) = value c := by
  apply replay_of_stored
  · exact List.mem_map.mpr ⟨c, listed, rfl⟩
  · intro other member
    obtain ⟨c', found, same⟩ := List.mem_map.mp member
    obtain ⟨samePlace, rfl⟩ := Prod.mk.inj same
    rw [apart c' found c listed samePlace]

theorem mapM_eq_some {α β : Type} {f : α → Option β} {g : α → β} {items : List α}
    (each : ∀ a ∈ items, f a = some (g a)) : items.mapM f = some (items.map g) := by
  induction items with
  | nil => rfl
  | cons a items ih =>
      rw [List.mapM_cons, each a List.mem_cons_self,
        ih fun a listed => each a (List.mem_cons_of_mem _ listed)]
      rfl

section Host

variable {w h : Int32} (wide : 1 ≤ w.toInt) (tall : 1 ≤ h.toInt)

theorem stride_eq (wide : 1 ≤ w.toInt) : w.toInt % 2 ^ 64 = w.toInt := by
  have := w.toInt_lt
  omega

include wide tall

theorem mem_cells_iff {c : UInt32 × UInt32} :
    c ∈ cells w.toUInt32 h.toUInt32 ↔
      ((c.1.toNat : ℤ), (c.2.toNat : ℤ)) ∈ frame w.toInt h.toInt := by
  have columns := MachineWord.toNat_toUInt32 (a := w) (by omega)
  have rows := MachineWord.toNat_toUInt32 (a := h) (by omega)
  simp only [mem_cells, UInt32.lt_iff_toNat_lt, mem_frame]
  omega

/-- The copied image is what the script reads. -/
theorem loaded_copy (freshIn : UInt32 × UInt32 → UInt8) (in_data : ℤ → UInt8) (aout : Allocation)
    (stride : ℤ) :
    Loaded (Context.sc ⟨w, h,
      Allocation.copy2DStridedFrom ⟨w.toUInt32, h.toUInt32, freshIn⟩ in_data stride, aout⟩)
      (raster in_data stride) where
  width := MachineWord.toNat_toUInt32 (a := w) (by omega)
  height := MachineWord.toNat_toUInt32 (a := h) (by omega)
  cells := by
    intro x y right below
    exact replay_cells id (fun c => in_data (offset stride c)) freshIn
      (fun _ _ _ _ same => same) (mem_cells.mpr ⟨right, below⟩)

/-- **Every call of a launch computes the erosion of its cell.** -/
theorem forEach_root_eq {script : Script} {image : ℤ × ℤ → UInt8} (loaded : Loaded script image)
    {order : List (UInt32 × UInt32)} (ordered : order.Perm (cells w.toUInt32 h.toUInt32))
    (aout : Allocation) (width : script.gWidth = w) (height : script.gHeight = h) :
    script.forEach_root order aout = some { aout with cell := replay (order.map fun c =>
      (c, erosion image w.toInt h.toInt (c.1.toNat, c.2.toNat))) aout.cell } := by
  subst width height
  rw [Script.forEach_root, mapM_eq_some]
  · rfl
  · intro c listed
    have inside := (mem_cells_iff wide tall).mp (ordered.mem_iff.mp listed)
    rw [loaded.root_eq inside.2.1 inside.2.2.2]
    rfl

/-- The bytes copied out, whatever order the cells were computed in. -/
theorem erode3x3_rs_eq (freshIn freshOut : UInt32 × UInt32 → UInt8) (in_data out_data : ℤ → UInt8)
    {order : List (UInt32 × UInt32)} (ordered : order.Perm (cells w.toUInt32 h.toUInt32)) :
    erode3x3_rs order (erode3x3_rs_init w h freshIn freshOut) in_data out_data w h =
      some (replay ((cells w.toUInt32 h.toUInt32).map fun c => (offset w.toInt c,
        erosion (raster in_data w.toInt) w.toInt h.toInt (c.1.toNat, c.2.toNat))) out_data) := by
  have loaded := loaded_copy wide tall freshIn in_data ⟨w.toUInt32, h.toUInt32, freshOut⟩ w.toInt
  have launched :=
    forEach_root_eq wide tall loaded ordered ⟨w.toUInt32, h.toUInt32, freshOut⟩ rfl rfl
  simp only [erode3x3_rs, erode3x3_rs_init, stride_eq wide, launched, Option.bind_eq_bind,
    Option.bind_some, Option.pure_def, Allocation.copy2DStridedTo]
  congr 2
  apply List.map_congr_left
  intro c listed
  exact congrArg (Prod.mk _) (replay_cells id _ freshOut (fun _ _ _ _ same => same)
    (ordered.mem_iff.mpr listed))

theorem paints_cells (value : ℤ × ℤ → UInt8) :
    Paints ((cells w.toUInt32 h.toUInt32).map fun c =>
      (offset w.toInt c, value (c.1.toNat, c.2.toNat))) w.toInt (frame w.toInt h.toInt) value := by
  have columns := w.toInt_lt
  have rows := h.toInt_lt
  intro k v
  rw [List.mem_map]
  constructor
  · rintro ⟨c, listed, same⟩
    obtain ⟨rfl, rfl⟩ := Prod.mk.inj same
    exact ⟨_, (mem_cells_iff wide tall).mp listed, rfl, rfl⟩
  · rintro ⟨⟨x, y⟩, ⟨left, right, top, below⟩, rfl, rfl⟩
    dsimp only at left right top below
    have column : ((UInt32.ofNat x.toNat).toNat : ℤ) = x := by
      rw [UInt32.toNat_ofNat']
      omega
    have row : ((UInt32.ofNat y.toNat).toNat : ℤ) = y := by
      rw [UInt32.toNat_ofNat']
      omega
    refine ⟨(UInt32.ofNat x.toNat, UInt32.ofNat y.toNat), (mem_cells_iff wide tall).mpr ?_, ?_⟩
    · simp only [column, row, mem_frame]
      omega
    · simp only [offset, column, row, address]

/-- **The RenderScript implementation leaves the window minima.** In every order of the
cells no call reads outside the allocation, every byte of the image becomes the
least of its neighbourhood and no other byte changes; from two columns and two
rows on these are the bytes of the scalar implementation. -/
theorem erode3x3_rs_window_minimum (freshIn freshOut : UInt32 × UInt32 → UInt8)
    (in_data out_data scalarContent : ℤ → UInt8) {order : List (UInt32 × UInt32)}
    (ordered : order.Perm (cells w.toUInt32 h.toUInt32)) :
    ∃ out, erode3x3_rs order (erode3x3_rs_init w h freshIn freshOut) in_data out_data w h =
        some out ∧
      (∀ x y, 0 ≤ x → x < w.toInt → 0 ≤ y → y < h.toInt →
        IsLeast {b | ∃ x' y', 0 ≤ x' ∧ x' < w.toInt ∧ 0 ≤ y' ∧ y' < h.toInt ∧
            |x' - x| ≤ 1 ∧ |y' - y| ≤ 1 ∧ b = in_data (y' * w.toInt + x')}
          (out (y * w.toInt + x))) ∧
      (∀ k, k < 0 ∨ w.toInt * h.toInt ≤ k → out k = out_data k) ∧
      (2 ≤ w.toInt → 2 ≤ h.toInt → ∀ k, 0 ≤ k → k < w.toInt * h.toInt →
        out k = replay ((Scalar.erode3x3 0 0 w.toInt h.toInt).stores in_data) scalarContent k) := by
  have paints := paints_cells wide tall (erosion (raster in_data w.toInt) w.toInt h.toInt)
  refine ⟨_, erode3x3_rs_eq wide tall freshIn freshOut in_data out_data ordered, ?_, ?_, ?_⟩
  · intro x y left right top bottom
    have inside : (x, y) ∈ frame w.toInt h.toInt := ⟨left, right, top, bottom⟩
    have value := paints.replay_inside (fun pixel member => ⟨member.1, member.2.1⟩) out_data inside
    have least := minOver_erosion (raster in_data w.toInt) inside
    rw [← value, MinOver, raster_image_window] at least
    exact least
  · intro k outside
    refine paints.replay_outside out_data fun pixel inside same => ?_
    have := address_bounds inside
    omega
  · intro several rows k lower upper
    exact paints.replay_eq (Scalar.paints_erode3x3 several rows in_data) (by omega) out_data
      scalarContent lower upper

end Host

/-- A two by two image, its cells computed from the last to the first. -/
theorem erode3x3_rs_window_minimum_two_by_two :
    ∃ out, erode3x3_rs [(1, 1), (0, 1), (1, 0), (0, 0)]
        (erode3x3_rs_init 2 2 (fun _ => 0) fun _ => 0) (fun k => UInt8.ofNat (9 - k.toNat))
        (fun _ => 7) 2 2 = some out ∧ out 0 = 6 := by
  obtain ⟨out, computed, _, _, same⟩ := erode3x3_rs_window_minimum (by decide) (by decide)
    (fun _ => 0) (fun _ => 0) (fun k => UInt8.ofNat (9 - k.toNat)) (fun _ => 7) (fun _ => 0)
    (by decide : [(1, 1), (0, 1), (1, 0), (0, 0)].Perm
      (cells (2 : Int32).toUInt32 (2 : Int32).toUInt32))
  exact ⟨out, computed,
    (same (by decide) (by decide) 0 (by decide) (by decide)).trans (by decide)⟩

end ErodeTest.Rs
