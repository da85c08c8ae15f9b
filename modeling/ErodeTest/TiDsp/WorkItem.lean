import ErodeTest.TiDsp.Lines

/-! # A work-item of the TI DSP kernel

The row loop keeps the lines rotating: at the start of round `n` the three lines from
`n % 4` on hold the rows fetched as numbers `n`, `n + 1` and `n + 2`
(`ErodeTest.TiDsp.Ring`). From this follow, for every timing of the copies, what a
work-item stores, which rows it fetches, and that it stays inside its lines.
-/

namespace ErodeTest.TiDsp

open AsyncCopy BufferProgram

/-! ## Copies of a row -/

section Transfer

variable {srcPtr cols : ℤ} {line : ℕ}

theorem mem_transfer {l : ℕ} {p k : ℤ} :
    ((l, p), k) ∈ transfer srcPtr (line, 1) cols ↔
      l = line ∧ (1 ≤ p ∧ p ≤ cols) ∧ k = srcPtr + (p - 1) := by
  simp only [transfer, List.mem_map, List.mem_range, Prod.mk.injEq]
  constructor
  · rintro ⟨n, below, ⟨rfl, rfl⟩, rfl⟩
    omega
  · rintro ⟨rfl, ⟨lower, upper⟩, rfl⟩
    exact ⟨(p - 1).toNat, by omega, ⟨rfl, by omega⟩, by omega⟩

theorem mem_transfer_fst {l : ℕ} {p : ℤ} :
    (l, p) ∈ (transfer srcPtr (line, 1) cols).map Prod.fst ↔ l = line ∧ 1 ≤ p ∧ p ≤ cols := by
  simp only [List.mem_map, Prod.exists, mem_transfer, exists_and_right, exists_eq_right]
  constructor
  · rintro ⟨k, inLine, bounds, _⟩
    exact ⟨inLine, bounds⟩
  · rintro ⟨inLine, bounds⟩
    exact ⟨_, inLine, bounds, rfl⟩

theorem transfer_nodup : ((transfer srcPtr (line, 1) cols).map Prod.fst).Nodup := by
  rw [transfer, List.map_map]
  refine List.Nodup.map (fun n m same => ?_) List.nodup_range
  simp only [Function.comp_apply, Prod.mk.injEq, true_and] at same
  omega

theorem insideLine_transfer (below : line < 4) :
    InsideLine cols (.copy (transfer srcPtr (line, 1) cols)) :=
  ⟨line, below, fun _ listed => ⟨(mem_transfer.mp listed).1, (mem_transfer.mp listed).2.1⟩⟩

/-- Copies into different lines do not meet. -/
theorem transfer_disjoint {otherPtr : ℤ} {other : ℕ} (different : line ≠ other) :
    List.Disjoint ((transfer srcPtr (line, 1) cols).map Prod.fst)
      ((transfer otherPtr (other, 1) cols).map Prod.fst) := by
  rintro ⟨l, p⟩ inFirst inSecond
  exact different ((mem_transfer_fst.mp inFirst).1.symm.trans (mem_transfer_fst.mp inSecond).1)

theorem transfers_nodup {otherPtr : ℤ} {other : ℕ} (different : line ≠ other) :
    ((transfer srcPtr (line, 1) cols).map Prod.fst ++
      (transfer otherPtr (other, 1) cols).map Prod.fst).Nodup :=
  List.nodup_append'.mpr ⟨transfer_nodup, transfer_nodup, transfer_disjoint different⟩

/-- A copy of a row fills its line and leaves the others alone. -/
theorem replay_transfer (source : ℤ → UInt8) (row cols : ℤ) (line : ℕ)
    (memory : LineAddress → UInt8) (l : ℕ) (p : ℤ) :
    replay (contents source (transfer (row * cols) (line, 1) cols)) memory (l, p) =
      if l = line ∧ 1 ≤ p ∧ p ≤ cols then paddedRow source cols row p else memory (l, p) := by
  have stored (v : UInt8) :
      ((l, p), v) ∈ contents source (transfer (row * cols) (line, 1) cols) ↔
        (l = line ∧ 1 ≤ p ∧ p ≤ cols) ∧ v = source (row * cols + (p - 1)) := by
    simp only [contents, List.mem_map, Prod.mk.injEq]
    constructor
    · rintro ⟨⟨_, k⟩, listed, rfl, rfl⟩
      obtain ⟨inLine, bounds, rfl⟩ := mem_transfer.mp listed
      exact ⟨⟨inLine, bounds⟩, rfl⟩
    · rintro ⟨⟨inLine, bounds⟩, rfl⟩
      exact ⟨((l, p), row * cols + (p - 1)), mem_transfer.mpr ⟨inLine, bounds, rfl⟩, rfl, rfl⟩
  split
  · next inside =>
      rw [paddedRow, if_pos inside.2]
      exact replay_of_stored _ _ _ _ ((stored _).mpr ⟨inside, rfl⟩)
        fun v listed => ((stored v).mp listed).2
  · next outside =>
      exact replay_of_not_stored _ _ _ fun v listed => outside ((stored v).mp listed).1

end Transfer

/-! ## The row loop -/

/-- The copies a work-item has issued before a round of the row loop. -/
def issued (cols rows offset : ℤ) (n : ℕ) : List (List (LineAddress × ℤ)) :=
  [transfer (fetched rows offset 0 * cols) (0, 1) cols,
    transfer (fetched rows offset 1 * cols) (1, 1) cols,
    transfer (fetched rows offset 2 * cols) (2, 1) cols] ++
    (List.range n).map fun y => transfer (fetched rows offset (y + 3) * cols) ((y + 3) % 4, 1) cols

/-- What has been done before round `n` of the row loop. -/
structure Computed (source : ℤ → UInt8) (cols rows offset : ℤ) (n : ℕ) (log : List EdmaEvent) :
    Prop where
  stores : Paints (stores log) cols
    {pixel | (0 ≤ pixel.1 ∧ pixel.1 < cols) ∧ offset ≤ pixel.2 ∧ pixel.2 < offset + n}
    (rowValue source cols rows offset)
  copies : copies log = issued cols rows offset n
  inside : ∀ event ∈ log, InsideLine cols event

/-- Events that neither store nor copy add nothing. -/
theorem Computed.append_quiet {source : ℤ → UInt8} {cols rows offset : ℤ} {n : ℕ}
    {log quiet : List EdmaEvent} (computed : Computed source cols rows offset n log)
    (silent : ∀ event ∈ quiet, store? event = none ∧ copy? event = none ∧ InsideLine cols event) :
    Computed source cols rows offset n (log ++ quiet) where
  stores := by
    have none : quiet.filterMap store? = [] :=
      List.filterMap_eq_nil_iff.mpr fun event listed => (silent event listed).1
    rw [TiDsp.stores, List.filterMap_append, none, List.append_nil]
    exact computed.stores
  copies := by
    have none : quiet.filterMap copy? = [] :=
      List.filterMap_eq_nil_iff.mpr fun event listed => (silent event listed).2.1
    rw [TiDsp.copies, List.filterMap_append, none, List.append_nil]
    exact computed.copies
  inside event listed := by
    rcases List.mem_append.mp listed with old | new
    · exact computed.inside event old
    · exact (silent event new).2.2

/-- The lines before round `n` of the row loop. -/
structure Ring (source : ℤ → UInt8) (cols rows offset : ℤ) (n : ℕ) (carried : ℤ × ℕ × ℤ)
    (state : EdmaState) : Prop where
  carried : carried = ((offset + n) * cols, n % 4, fetched rows offset (n + 3) * cols)
  lines : ∀ j < 3, ∀ p, 1 ≤ p → p ≤ cols →
    state.memory ((n + j) % 4, p) = paddedRow source cols (fetched rows offset (n + j)) p
  guards : ∀ line < 4, state.memory (line, 0) = 255 ∧ state.memory (line, cols + 1) = 255
  computed : Computed source cols rows offset n state.log

theorem and_three (n : ℕ) : n &&& 3 = n % 4 := Nat.and_two_pow_sub_one_eq_mod n 2

/-- The lines of a round by their place. -/
theorem exists_slot {n line : ℕ} (which : line = n % 4 ∨ line = (n + 1) % 4 ∨ line = (n + 2) % 4) :
    ∃ j < 3, line = (n + j) % 4 := by
  rcases which with rfl | rfl | rfl
  · exact ⟨0, by omega, rfl⟩
  · exact ⟨1, by omega, rfl⟩
  · exact ⟨2, by omega, rfl⟩

section Ring

/-- The machine in round `n` of the row loop, with the next row on its way. -/
def prefetched (source : ℤ → UInt8) (cols rows offset : ℤ) (n : ℕ) (state : EdmaState) :
    EdmaState :=
  state.afterWait.afterCopy source
    (transfer (fetched rows offset (n + 3) * cols) ((n + 3) % 4, 1) cols)

section Prefetched

variable (source : ℤ → UInt8) (cols rows offset : ℤ) (n : ℕ) (state : EdmaState)

theorem memory_prefetched (l : ℕ) (p : ℤ) :
    (prefetched source cols rows offset n state).memory (l, p) =
      if l = (n + 3) % 4 ∧ 1 ≤ p ∧ p ≤ cols then
        paddedRow source cols (fetched rows offset (n + 3)) p
      else state.memory (l, p) :=
  replay_transfer source _ cols _ state.memory l p

theorem inFlight_prefetched {l : ℕ} {p : ℤ} :
    (l, p) ∈ (prefetched source cols rows offset n state).inFlight ↔
      l = (n + 3) % 4 ∧ 1 ≤ p ∧ p ≤ cols := by
  rw [prefetched, State.afterCopy, State.afterWait, List.nil_append, mem_transfer_fst]

theorem stores_prefetched :
    stores (prefetched source cols rows offset n state).log = stores state.log := by
  simp [prefetched, State.afterCopy, State.afterWait, stores, store?]

theorem copies_prefetched :
    copies (prefetched source cols rows offset n state).log =
      copies state.log ++
        [transfer (fetched rows offset (n + 3) * cols) ((n + 3) % 4, 1) cols] := by
  simp [prefetched, State.afterCopy, State.afterWait, copies, List.filterMap_cons, copy?]

variable {source cols rows offset n state}

theorem inside_prefetched (inside : ∀ event ∈ state.log, InsideLine cols event) :
    ∀ event ∈ (prefetched source cols rows offset n state).log, InsideLine cols event := by
  intro event listed
  simp only [prefetched, State.afterCopy, State.afterWait, List.mem_append, List.mem_singleton]
    at listed
  rcases listed with (old | rfl) | rfl
  · exact inside event old
  · trivial
  · exact insideLine_transfer (by omega)

end Prefetched

variable {source : ℤ → UInt8} {cols rows offset : ℤ} {n : ℕ} {carried : ℤ × ℕ × ℤ}
  {state after : EdmaState} (ring : Ring source cols rows offset n carried state)

/-- The lines a round computes with. -/
def ringLines (source : ℤ → UInt8) (cols rows offset : ℤ) (n : ℕ) : LineAddress → UInt8 :=
  fun address =>
    paddedRow source cols (fetched rows offset (n + (address.1 + 4 - n % 4) % 4)) address.2

/-- The events of a round of the row loop. -/
def rowEvents (source : ℤ → UInt8) (cols rows offset : ℤ) (n : ℕ) : List EdmaEvent :=
  .wait :: .copy (transfer (fetched rows offset (n + 3) * cols) ((n + 3) % 4, 1) cols) ::
    columnEvents (ringLines source cols rows offset n) (n % 4) ((n + 1) % 4) ((n + 2) % 4)
      ((offset + n) * cols) (cols / 8).toNat

/-- What the column loop stores in round `n`. -/
def rowStores (source : ℤ → UInt8) (cols rows offset : ℤ) (n : ℕ) (state : EdmaState) :
    List (ℤ × UInt8) :=
  roundStores (prefetched source cols rows offset n state).memory (n % 4) ((n + 1) % 4) ((n + 2) % 4)
    ((offset + n) * cols) (cols / 8).toNat

include ring

/-- The lines a round computes with are those it has found. -/
theorem Ring.line (j : ℕ) (below : j < 3) (p : ℤ) (first : 0 ≤ p) (last : p ≤ cols + 1) :
    (prefetched source cols rows offset n state).memory ((n + j) % 4, p) =
      paddedRow source cols (fetched rows offset (n + j)) p := by
  rw [memory_prefetched, if_neg (by omega)]
  by_cases interior : 1 ≤ p ∧ p ≤ cols
  · exact ring.lines j below p interior.1 interior.2
  · have guard := ring.guards ((n + j) % 4) (by omega)
    rw [paddedRow, if_neg interior]
    obtain rfl | rfl : p = 0 ∨ p = cols + 1 := by omega
    · exact guard.1
    · exact guard.2

/-- The columns are computed from the lines the round has found. -/
theorem Ring.columnEvents (aligned : cols % 8 = 0) (nonneg : 0 ≤ cols) (dest_ptr : ℤ) :
    columnEvents (prefetched source cols rows offset n state).memory (n % 4) ((n + 1) % 4)
        ((n + 2) % 4) dest_ptr (cols / 8).toNat =
      TiDsp.columnEvents (ringLines source cols rows offset n) (n % 4) ((n + 1) % 4)
        ((n + 2) % 4) dest_ptr (cols / 8).toNat := by
  apply columnEvents_congr
  intro line which p lower upper
  obtain ⟨j, below, rfl⟩ := exists_slot which
  have slot : ((n + j) % 4 + 4 - n % 4) % 4 = j := by omega
  rw [ring.line j below p lower (by omega), ringLines, slot]

variable (aligned : cols % 8 = 0) (nonneg : 0 ≤ cols)
  (computes : Computes cols (prefetched source cols rows offset n state) after
    (rowStores source cols rows offset n state))

include aligned nonneg in
/-- A round paints its row. -/
theorem Ring.paints :
    Paints (rowStores source cols rows offset n state) cols
      {pixel | (0 ≤ pixel.1 ∧ pixel.1 < cols) ∧ pixel.2 = offset + n}
      (rowValue source cols rows offset) := by
  refine paints_roundStores aligned nonneg fun x left right => ?_
  have round : (offset + n - offset).toNat = n := by omega
  rw [rowValue, round]
  exact nineMin_congr left right (ring.line 0 (by decide)) (ring.line 1 (by decide))
    (ring.line 2 (by decide))

include computes

include aligned nonneg in
/-- A round adds its row to what has been computed. -/
theorem Ring.computed_next : Computed source cols rows offset (n + 1) after.log := by
  refine ⟨?_, ?_, computes.inside (inside_prefetched ring.computed.inside)⟩
  · rw [computes.stores, stores_prefetched]
    refine (ring.computed.stores.append (ring.paints aligned nonneg)).region_congr
      (Set.ext fun pixel => ?_)
    simp only [Set.mem_union, Set.mem_ofPred_eq]
    push_cast
    omega
  · rw [computes.copies, copies_prefetched, ring.computed.copies]
    simp [issued, List.range_succ]

/-- The row fetched in a round becomes the last of the next round's lines. -/
theorem Ring.lines_next (j : ℕ) (below : j < 3) (p : ℤ) (lower : 1 ≤ p) (upper : p ≤ cols) :
    after.memory ((n + 1 + j) % 4, p) =
      paddedRow source cols (fetched rows offset (n + 1 + j)) p := by
  rw [computes.memory, memory_prefetched]
  by_cases last : j = 2
  · subst last
    rw [if_pos ⟨by omega, lower, upper⟩]
  · rw [if_neg (by omega), show n + 1 + j = n + (j + 1) by omega]
    exact ring.lines (j + 1) (by omega) p lower upper

theorem Ring.guards_next (line : ℕ) (below : line < 4) :
    after.memory (line, 0) = 255 ∧ after.memory (line, cols + 1) = 255 := by
  rw [computes.memory, memory_prefetched, memory_prefetched, if_neg (by omega), if_neg (by omega)]
  exact ring.guards line below

omit computes

include aligned nonneg

/-- **A round of the row loop keeps the lines rotating.** -/
theorem wp_rowRound :
    wp source (rowRound cols rows offset n carried)
      (fun carried after => Ring source cols rows offset (n + 1) carried after ∧
        after.log = state.log ++ rowEvents source cols rows offset n) state := by
  have slot1 : (n % 4 + 1) % 4 = (n + 1) % 4 := by omega
  have slot2 : ((n + 1) % 4 + 1) % 4 = (n + 2) % 4 := by omega
  have slot3 : ((n + 2) % 4 + 1) % 4 = (n + 3) % 4 := by omega
  have clear : ∀ line, line = n % 4 ∨ line = (n + 1) % 4 ∨ line = (n + 2) % 4 →
      ∀ p, 0 ≤ p → p ≤ cols + 1 →
        (line, p) ∉ (prefetched source cols rows offset n state).inFlight := by
    intro line which p _ _ waiting
    rw [inFlight_prefetched] at waiting
    omega
  have computes := computes_columns (prefetched source cols rows offset n state) (n % 4)
    ((n + 1) % 4) ((n + 2) % 4) ⟨by omega, by omega, by omega⟩ ((offset + n) * cols) aligned nonneg
  rw [ring.carried]
  simp only [rowRound, EdmaMgr_wait, EdmaMgr_copyFast, and_three, slot1, slot2, slot3]
  rw [wp_bind, wp_await, wp_bind, wp_issue]
  refine ⟨by simpa [State.afterWait] using transfer_nodup, ?_⟩
  rw [wp_bind]
  refine wp_mono (wp_columns clear ((offset + n) * cols) aligned) ?_
  rintro _ after rfl
  refine (wp_pure _).mpr ⟨⟨?_, ring.lines_next computes, ring.guards_next computes,
    ring.computed_next aligned nonneg computes⟩, ?_⟩
  · rw [Prod.mk.injEq, Prod.mk.injEq]
    refine ⟨?_, rfl, ?_⟩
    · push_cast
      ring
    · simp only [fetched, fetchRow]
      split <;> ring
  · rw [State.performed_log, ring.columnEvents aligned nonneg]
    simp [rowEvents, prefetched, State.afterCopy, State.afterWait]

end Ring

/-! ## The start-up -/

/-- The lines once the first three copies are issued and the guard bytes of the first
`k` lines are written. -/
structure Started (source : ℤ → UInt8) (cols rows offset : ℤ) (k : ℕ) (state : EdmaState) :
    Prop where
  lines : ∀ j < 3, ∀ p, 1 ≤ p → p ≤ cols →
    state.memory (j, p) = paddedRow source cols (fetched rows offset j) p
  guards : ∀ line < k, state.memory (line, 0) = 255 ∧ state.memory (line, cols + 1) = 255
  inFlight : ∀ address ∈ state.inFlight, 1 ≤ address.2 ∧ address.2 ≤ cols
  computed : Computed source cols rows offset 0 state.log

/-- The copies before the row loop. -/
def startEvents (cols rows offset : ℤ) : List EdmaEvent :=
  [.copy (transfer (fetched rows offset 0 * cols) (0, 1) cols),
    .copy (transfer (fetched rows offset 1 * cols) (1, 1) cols),
    .copy (transfer (fetched rows offset 2 * cols) (2, 1) cols)]

/-- The guard bytes of a line. -/
def guardEvents (cols : ℤ) (line : ℕ) : List EdmaEvent :=
  [.write (line, 0) 255, .write (line, cols + 1) 255]

/-- The events of a work-item from its start-up copies on. -/
def computeEvents (source : ℤ → UInt8) (cols rows offset : ℤ) (n : ℕ) : List EdmaEvent :=
  startEvents cols rows offset ++ [0, 1, 2, 3].flatMap (guardEvents cols) ++
    (List.range n).flatMap (rowEvents source cols rows offset) ++ [.wait, .emit .free]

section StartUp

variable {source : ℤ → UInt8} {cols rows offset : ℤ} {state : EdmaState}

/-- Nothing has been issued or stored, and no copy is in flight. -/
structure Fresh (state : EdmaState) : Prop where
  inFlight : state.inFlight = []
  stores : stores state.log = []
  copies : copies state.log = []
  inside : ∀ cols, ∀ event ∈ state.log, InsideLine cols event

/-- The start-up copies fill the first three lines. -/
theorem wp_startCopies (fresh : Fresh state) :
    wp source (EdmaMgr_copy1D1DLinked
        [(fetched rows offset 0 * cols, (0, 1)), (fetched rows offset 1 * cols, (1, 1)),
          (fetched rows offset 2 * cols, (2, 1))] cols)
      (fun _ after => Started source cols rows offset 0 after ∧
        after.log = state.log ++ startEvents cols rows offset) state := by
  simp only [EdmaMgr_copy1D1DLinked, List.forM_cons, List.forM_nil, wp_bind, wp_issue, wp_pure,
    State.afterCopy, fresh.inFlight, List.nil_append]
  refine ⟨transfer_nodup, transfers_nodup zero_ne_one, ?_, ?_, by simp [startEvents]⟩
  · exact List.nodup_append'.mpr ⟨transfers_nodup zero_ne_one, transfer_nodup,
      List.disjoint_append_left.mpr ⟨transfer_disjoint (by decide), transfer_disjoint (by decide)⟩⟩
  · refine ⟨fun j below p lower upper => ?_, fun line below => by omega, ?_, ?_, ?_, ?_⟩
    · simp only [replay_transfer, lower, upper, and_true]
      obtain rfl | rfl | rfl : j = 0 ∨ j = 1 ∨ j = 2 := by omega
      all_goals simp
    · rintro ⟨l, p⟩ waiting
      simp only [List.mem_append, mem_transfer_fst] at waiting
      dsimp only
      omega
    · intro k v
      have none := fresh.stores
      simp only [TiDsp.stores] at none
      simp only [TiDsp.stores, List.filterMap_append, none, List.filterMap_cons, store?,
        List.filterMap_nil, List.nil_append, List.not_mem_nil, Nat.cast_zero, add_zero, false_iff]
      rintro ⟨pixel, ⟨_, above, below⟩, _⟩
      omega
    · have none := fresh.copies
      simp only [TiDsp.copies] at none
      simp [TiDsp.copies, none, copy?, issued]
    · intro event listed
      simp only [List.mem_append, List.mem_singleton] at listed
      rcases listed with ((old | rfl) | rfl) | rfl
      · exact fresh.inside cols event old
      all_goals exact insideLine_transfer (by decide)

/-- The guard bytes of a line are written while the copies are in flight. -/
theorem wp_writeGuard {k : ℕ} (started : Started source cols rows offset k state) (below : k < 4)
    (nonneg : 0 ≤ cols) :
    wp source (do
        Program.writeAt (k, 0) 255
        Program.writeAt (k, cols + 1) 255)
      (fun _ after => Started source cols rows offset (k + 1) after ∧
        after.log = state.log ++ guardEvents cols k) state := by
  rw [wp_bind, wp_writeAt, wp_writeAt]
  refine ⟨fun waiting => ?_, fun waiting => ?_, ?_, by simp [State.afterWrite, guardEvents]⟩
  · have := (started.inFlight _ waiting).1
    dsimp only at this
    omega
  · have := (started.inFlight _ waiting).2
    dsimp only at this
    omega
  · refine ⟨fun j inside p lower upper => ?_, fun line inside => ?_, started.inFlight, ?_⟩
    · simp only [State.afterWrite]
      rw [Function.update_of_ne (by simp; omega), Function.update_of_ne (by simp; omega)]
      exact started.lines j inside p lower upper
    · simp only [State.afterWrite]
      by_cases new : line = k
      · subst new
        rw [Function.update_self, Function.update_of_ne (by simp; omega), Function.update_self]
        exact ⟨rfl, rfl⟩
      · rw [Function.update_of_ne (by simp [new]), Function.update_of_ne (by simp [new]),
          Function.update_of_ne (by simp [new]), Function.update_of_ne (by simp [new])]
        exact started.guards line (by omega)
    · simp only [State.afterWrite, List.append_assoc]
      refine started.computed.append_quiet fun event listed => ?_
      simp only [List.mem_append, List.mem_singleton] at listed
      rcases listed with rfl | rfl
      · exact ⟨rfl, rfl, below, le_rfl, by omega⟩
      · exact ⟨rfl, rfl, below, by omega, le_rfl⟩

theorem wp_writeGuards (started : Started source cols rows offset 0 state) (nonneg : 0 ≤ cols) :
    wp source (writeGuards cols)
      (fun _ after => Started source cols rows offset 4 after ∧
        after.log = state.log ++ [0, 1, 2, 3].flatMap (guardEvents cols)) state := by
  simp only [writeGuards, List.forM_cons, List.forM_nil]
  rw [wp_bind]
  refine wp_mono (wp_writeGuard started (by decide) nonneg) ?_
  rintro _ _ ⟨started, first⟩
  rw [wp_bind]
  refine wp_mono (wp_writeGuard started (by decide) nonneg) ?_
  rintro _ _ ⟨started, second⟩
  rw [wp_bind]
  refine wp_mono (wp_writeGuard started (by decide) nonneg) ?_
  rintro _ _ ⟨started, third⟩
  rw [wp_bind]
  refine wp_mono (wp_writeGuard started (by decide) nonneg) ?_
  rintro _ _ ⟨started, fourth⟩
  refine (wp_pure _).mpr ⟨started, ?_⟩
  simp [fourth, third, second, first]

/-- **A work-item computes its rows** and stays inside its lines. -/
theorem wp_computeRows (aligned : cols % 8 = 0) (nonneg : 0 ≤ cols) (fresh : Fresh state)
    (mLocal : ℤ) :
    wp source (computeRows cols rows mLocal offset)
      (fun _ after => Computed source cols rows offset mLocal.toNat after.log ∧
        after.log = state.log ++ computeEvents source cols rows offset mLocal.toNat) state := by
  simp only [computeRows, startUp_eq]
  rw [wp_bind]
  refine wp_mono (wp_startCopies fresh) ?_
  rintro _ _ ⟨started, copied⟩
  rw [wp_bind]
  refine wp_mono (wp_writeGuards started nonneg) ?_
  rintro _ base ⟨started, guarded⟩
  rw [wp_bind]
  refine wp_mono (wp_forLoop 0 mLocal one_pos _ (fun n carried after =>
    Ring source cols rows offset n carried after ∧
      after.log = base.log ++ (List.range n).flatMap (rowEvents source cols rows offset)) ?_ ?_) ?_
  · refine ⟨⟨?_, fun j below p lower upper => ?_, started.guards, started.computed⟩, by simp⟩
    · simp only [Nat.cast_zero, add_zero, Nat.zero_mod, fetched]
    · rw [Nat.zero_add, Nat.mod_eq_of_lt (by omega)]
      exact started.lines j below p lower upper
  · rintro n carried state _ ⟨ring, before⟩
    rw [zero_add, mul_one]
    refine wp_mono (wp_rowRound ring aligned nonneg) ?_
    rintro _ after ⟨ring, round⟩
    exact ⟨ring, by simp [round, before, List.range_succ]⟩
  · rintro result after ⟨_, ring, rounds⟩
    rw [trips_one, sub_zero] at ring rounds
    rw [wp_bind, EdmaMgr_wait, wp_await, EdmaMgr_free, wp_output]
    simp only [State.afterWait, State.record, List.append_assoc]
    refine ⟨ring.computed.append_quiet fun event listed => ?_, ?_⟩
    · simp only [List.mem_append, List.mem_singleton] at listed
      rcases listed with rfl | rfl <;> exact ⟨rfl, rfl, trivial⟩
    · simp [rounds, guarded, copied, computeEvents]

end StartUp

/-! ## Runs -/

section Exits

variable (source : ℤ → UInt8) {cols rows chunks id : ℤ} (lines : LineAddress → UInt8)

/-- Without a handle a work-item complains and returns. -/
theorem wp_denied :
    wp source (tidsp_morph_erode false cols rows id chunks)
      (fun _ after => after.log =
        [.emit (.alloc false), .emit (.printf "Failed to alloc edmaIN handle.\n")])
      ⟨lines, [], []⟩ := by
  simp only [tidsp_morph_erode, wp_bind, wp_output, Bool.not_false, if_true]
  rfl

theorem wp_surplus (surplus : Surplus rows chunks id) :
    wp source (tidsp_morph_erode true cols rows id chunks)
      (fun _ after => after.log = [.emit (.alloc true)]) ⟨lines, [], []⟩ := by
  simp only [tidsp_morph_erode, wp_bind, wp_output, Bool.not_true, Bool.false_eq_true, if_false,
    if_pos surplus]
  exact (wp_pure _).mpr rfl

theorem wp_active (active : ¬ Surplus rows chunks id) (aligned : cols % 8 = 0)
    (nonneg : 0 ≤ cols) :
    wp source (tidsp_morph_erode true cols rows id chunks)
      (fun _ after => Computed source cols rows (offset rows chunks id)
          (mLocal rows chunks id).toNat after.log ∧
        after.log = .emit (.alloc true) :: computeEvents source cols rows (offset rows chunks id)
          (mLocal rows chunks id).toNat) ⟨lines, [], []⟩ := by
  simp only [tidsp_morph_erode, wp_bind, wp_output, Bool.not_true, Bool.false_eq_true, if_false,
    if_neg active]
  refine wp_computeRows aligned nonneg ⟨rfl, rfl, rfl, fun cols event listed => ?_⟩ _
  rw [State.record, List.nil_append, List.mem_singleton] at listed
  exact listed ▸ trivial

end Exits

/-- What a work-item whose handle is granted does, from the lines it finds on and under a
timing of the copies. -/
def workItem (source : ℤ → UInt8) (cols rows chunks : ℤ) (lines : LineAddress → UInt8)
    (schedule : Schedule) (id : ℤ) : List EdmaEvent :=
  ((tidsp_morph_erode true cols rows id chunks).run source schedule ⟨lines, [], []⟩).2.log

section Runs

variable (source : ℤ → UInt8) {cols rows chunks id : ℤ} (lines : LineAddress → UInt8)
  (schedule : Schedule)

theorem workItem_surplus (surplus : Surplus rows chunks id) :
    workItem source cols rows chunks lines schedule id = [.emit (.alloc true)] := by
  obtain ⟨final, same, done⟩ := wp_sound (wp_surplus source lines surplus) schedule
  exact same.trans done

/-- **Every timing of the copies** leads to the rows of the work-item. -/
theorem workItem_computed (active : ¬ Surplus rows chunks id) (aligned : cols % 8 = 0)
    (nonneg : 0 ≤ cols) :
    Computed source cols rows (offset rows chunks id) (mLocal rows chunks id).toNat
        (workItem source cols rows chunks lines schedule id) ∧
      workItem source cols rows chunks lines schedule id =
        .emit (.alloc true) ::
          computeEvents source cols rows (offset rows chunks id) (mLocal rows chunks id).toNat := by
  obtain ⟨final, same, done⟩ := wp_sound (wp_active source lines active aligned nonneg) schedule
  rw [← same] at done
  exact done

end Runs

end ErodeTest.TiDsp
