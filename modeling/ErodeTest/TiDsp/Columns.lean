import ErodeTest.Foundation.Raster
import ErodeTest.TiDsp.Kernel

/-! # The column loop of the TI DSP kernel

The loop over the columns of a row reads three lines and stores at each column the
minimum of nine bytes of them. It changes neither the lines nor what is in flight.
-/

namespace ErodeTest.TiDsp

open AsyncCopy BufferProgram Packed

/-! ## What a run has done -/

def store? : EdmaEvent → Option (ℤ × UInt8)
  | .emit (.store address value) => some (address, value)
  | _ => none

def copy? : EdmaEvent → Option (List (LineAddress × ℤ))
  | .copy transfer => some transfer
  | _ => none

/-- The stores to the destination image, in program order. -/
def stores (log : List EdmaEvent) : List (ℤ × UInt8) := log.filterMap store?

/-- The copies issued, in program order. -/
def copies (log : List EdmaEvent) : List (List (LineAddress × ℤ)) := log.filterMap copy?

/-- The event stays inside a line: the bytes of a row and the guard bytes around them are
read and written, copies fill the bytes of a row. -/
def InsideLine (cols : ℤ) : EdmaEvent → Prop
  | .read (line, position) _ => line < 4 ∧ 0 ≤ position ∧ position ≤ cols + 1
  | .write (line, position) _ => line < 4 ∧ 0 ≤ position ∧ position ≤ cols + 1
  | .copy transfer => ∃ line < 4, ∀ entry ∈ transfer,
      entry.1.1 = line ∧ 1 ≤ entry.1.2 ∧ entry.1.2 ≤ cols
  | _ => True

/-- From one state to the other only stores to the destination image and reads happened. -/
structure Computes (cols : ℤ) (before after : EdmaState) (stored : List (ℤ × UInt8)) : Prop where
  memory : after.memory = before.memory
  inFlight : after.inFlight = before.inFlight
  stores : stores after.log = stores before.log ++ stored
  copies : copies after.log = copies before.log
  inside : (∀ event ∈ before.log, InsideLine cols event) →
    ∀ event ∈ after.log, InsideLine cols event

namespace Computes

variable {cols : ℤ} {before after : EdmaState} {stored : List (ℤ × UInt8)}

/-- Events that read lines and store to the destination image. -/
theorem performed {events : List EdmaEvent} (state : EdmaState)
    (quiet : ∀ event ∈ events, copy? event = none ∧ InsideLine cols event) :
    Computes cols state (state.performed events) (TiDsp.stores events) where
  memory := rfl
  inFlight := rfl
  stores := List.filterMap_append
  copies := by
    have none : events.filterMap copy? = [] :=
      List.filterMap_eq_nil_iff.mpr fun event listed => (quiet event listed).1
    rw [State.performed_log, TiDsp.copies, List.filterMap_append, none, List.append_nil]
    rfl
  inside earlier event listed := by
    rcases List.mem_append.mp listed with old | new
    · exact earlier event old
    · exact (quiet event new).2

end Computes

/-- The minimum of nine bytes, three of each of three sequences. -/
def nineMin (first second third : ℤ → UInt8) (p : ℤ) : UInt8 :=
  let column (p : ℤ) : UInt8 := min (min (first p) (second p)) (third p)
  min (min (column p) (column (p + 1))) (column (p + 2))

theorem nineMin_congr {first second third first' second' third' : ℤ → UInt8} {cols x : ℤ}
    (lower : 0 ≤ x) (upper : x < cols)
    (sameFirst : ∀ p, 0 ≤ p → p ≤ cols + 1 → first p = first' p)
    (sameSecond : ∀ p, 0 ≤ p → p ≤ cols + 1 → second p = second' p)
    (sameThird : ∀ p, 0 ≤ p → p ≤ cols + 1 → third p = third' p) :
    nineMin first second third x = nineMin first' second' third' x := by
  simp (disch := omega) only [nineMin, sameFirst, sameSecond, sameThird]

/-- The minimum of nine bytes of three lines. -/
def linesMin (memory : LineAddress → UInt8) (yprev_ptr y_ptr ynext_ptr : ℕ) : ℤ → UInt8 :=
  nineMin (fun p => memory (yprev_ptr, p)) (fun p => memory (y_ptr, p))
    fun p => memory (ynext_ptr, p)

/-! ## The events of the loop -/

/-- The reads of consecutive bytes of a line. -/
def readEvents (memory : LineAddress → UInt8) (line : ℕ) (position : ℤ) (n : ℕ) :
    List EdmaEvent :=
  (List.range n).map fun k : ℕ =>
    Event.read (line, position + k) (memory (line, position + k))

/-- The stores of eight bytes. -/
def storeEvents (address : ℤ) (value : ℕ → UInt8) : List EdmaEvent :=
  (List.range 8).map fun k : ℕ => Event.emit (.store (address + k) (value k))

/-- A round reads eight and two bytes of each of three lines and stores eight minima. -/
def roundEvents (memory : LineAddress → UInt8) (yprev_ptr y_ptr ynext_ptr : ℕ)
    (dest_ptr i : ℤ) : List EdmaEvent :=
  (readEvents memory yprev_ptr i 8 ++ readEvents memory y_ptr i 8 ++
      readEvents memory ynext_ptr i 8) ++
    (readEvents memory yprev_ptr (i + 8) 2 ++ readEvents memory y_ptr (i + 8) 2 ++
      readEvents memory ynext_ptr (i + 8) 2) ++
    storeEvents (dest_ptr + i) fun k => linesMin memory yprev_ptr y_ptr ynext_ptr (i + k)

/-- The events of a number of rounds. -/
def columnEvents (memory : LineAddress → UInt8) (yprev_ptr y_ptr ynext_ptr : ℕ) (dest_ptr : ℤ)
    (n : ℕ) : List EdmaEvent :=
  (List.range n).flatMap fun round : ℕ =>
    roundEvents memory yprev_ptr y_ptr ynext_ptr dest_ptr (round * 8)

section Events

variable {memory : LineAddress → UInt8} {yprev_ptr y_ptr ynext_ptr : ℕ} {dest_ptr : ℤ} {n : ℕ}

theorem mem_readEvents {line m : ℕ} {position : ℤ} {event : EdmaEvent} :
    event ∈ readEvents memory line position m ↔
      ∃ p, (position ≤ p ∧ p < position + m) ∧ event = .read (line, p) (memory (line, p)) := by
  simp only [readEvents, List.mem_map, List.mem_range]
  constructor
  · rintro ⟨k, below, rfl⟩
    exact ⟨position + k, by omega, rfl⟩
  · rintro ⟨p, bounds, rfl⟩
    have offset : position + ((p - position).toNat : ℤ) = p := by omega
    exact ⟨(p - position).toNat, by omega, by rw [offset]⟩

theorem mem_storeEvents {address : ℤ} {value : ℕ → UInt8} {event : EdmaEvent}
    (listed : event ∈ storeEvents address value) :
    ∃ k v, event = .emit (.store k v) := by
  obtain ⟨k, _, rfl⟩ := List.mem_map.mp listed
  exact ⟨_, _, rfl⟩

/-- The loop reads the three lines up to two bytes past its columns, and stores. -/
theorem mem_columnEvents {event : EdmaEvent}
    (listed : event ∈ columnEvents memory yprev_ptr y_ptr ynext_ptr dest_ptr n) :
    (∃ (line : ℕ) (p : ℤ), (line = yprev_ptr ∨ line = y_ptr ∨ line = ynext_ptr) ∧
        (0 ≤ p ∧ p < 8 * n + 2) ∧ event = .read (line, p) (memory (line, p))) ∨
      ∃ k v, event = .emit (.store k v) := by
  obtain ⟨round, counted, performed⟩ := List.mem_flatMap.mp listed
  rw [List.mem_range] at counted
  simp only [roundEvents, List.mem_append, mem_readEvents] at performed
  rcases performed with (((read | read) | read) | (read | read) | read) | written
  all_goals first
    | exact Or.inr (mem_storeEvents written)
    | obtain ⟨p, bounds, rfl⟩ := read
      exact Or.inl ⟨_, p, by simp, by omega, rfl⟩

/-- The events depend on the three lines up to two bytes past the columns. -/
theorem columnEvents_congr {other : LineAddress → UInt8}
    (same : ∀ line, line = yprev_ptr ∨ line = y_ptr ∨ line = ynext_ptr →
      ∀ p, 0 ≤ p → p < 8 * (n : ℤ) + 2 → memory (line, p) = other (line, p)) :
    columnEvents memory yprev_ptr y_ptr ynext_ptr dest_ptr n =
      columnEvents other yprev_ptr y_ptr ynext_ptr dest_ptr n := by
  have first := same yprev_ptr (Or.inl rfl)
  have second := same y_ptr (Or.inr (Or.inl rfl))
  have third := same ynext_ptr (Or.inr (Or.inr rfl))
  have reads {line : ℕ}
      (agree : ∀ p, 0 ≤ p → p < 8 * (n : ℤ) + 2 → memory (line, p) = other (line, p))
      {position : ℤ} {m : ℕ} (lower : 0 ≤ position) (upper : position + m ≤ 8 * n + 2) :
      readEvents memory line position m = readEvents other line position m := by
    apply List.map_congr_left
    intro k listed
    have below := List.mem_range.mp listed
    rw [agree _ (by omega) (by omega)]
  unfold columnEvents
  apply List.flatMap_congr
  intro round counted
  have below := List.mem_range.mp counted
  have stored : (storeEvents (dest_ptr + round * 8) fun k =>
        linesMin memory yprev_ptr y_ptr ynext_ptr (round * 8 + k)) =
      storeEvents (dest_ptr + round * 8) fun k =>
        linesMin other yprev_ptr y_ptr ynext_ptr (round * 8 + k) := by
    apply List.map_congr_left
    intro k listed
    have inside := List.mem_range.mp listed
    simp (disch := omega) only [linesMin, nineMin, first, second, third]
  unfold roundEvents
  rw [reads first (by omega) (by omega), reads second (by omega) (by omega),
    reads third (by omega) (by omega), reads first (by omega) (by omega),
    reads second (by omega) (by omega), reads third (by omega) (by omega), stored]

theorem stores_readEvents (line : ℕ) (position : ℤ) (m : ℕ) :
    stores (readEvents memory line position m) = [] := by
  apply List.filterMap_eq_nil_iff.mpr
  intro event listed
  obtain ⟨p, _, rfl⟩ := mem_readEvents.mp listed
  rfl

theorem stores_storeEvents (address : ℤ) (value : ℕ → UInt8) :
    stores (storeEvents address value) =
      (List.range 8).map fun k : ℕ => (address + k, value k) := by
  simp [stores, storeEvents, List.filterMap_map, Function.comp_def, store?]

end Events

section Columns

variable {source : ℤ → UInt8} {cols : ℤ} {base : EdmaState} (events : List EdmaEvent)

section Line

variable {line : ℕ} {position : ℤ}

/-- Bytes of a line that are not in flight are read as they are. -/
theorem wp_readBytes (n : ℕ) (clear : ∀ k < n, (line, position + (k : ℕ)) ∉ base.inFlight) :
    wp source (readBytes line position n)
      (fun bytes after => (∀ k < n, bytes k = base.memory (line, position + (k : ℕ))) ∧
        after = base.performed (events ++ readEvents base.memory line position n))
      (base.performed events) := by
  induction n with
  | zero => exact ⟨trivial, fun k below => by omega, by simp [readEvents]; rfl⟩
  | succ n ih =>
      rw [readBytes, wp_bind]
      refine wp_mono (ih fun k below => clear k (by omega)) ?_
      rintro bytes after ⟨values, rfl⟩
      rw [wp_bind, wp_readAt, State.performed_inFlight, State.performed_memory,
        State.record_eq_performed, State.performed_performed]
      refine ⟨clear n (by omega), (wp_pure _).mpr ⟨fun k below => ?_, ?_⟩⟩
      · by_cases last : k = n
        · subst last
          exact Function.update_self _ _ _
        · rw [Function.update_of_ne last]
          exact values k (by omega)
      · simp [readEvents, List.range_succ]

theorem wp_amem8_const (clear : ∀ k < 8, (line, position + (k : ℕ)) ∉ base.inFlight) :
    wp source (amem8_const line position)
      (fun word after => (∀ k < 8, byte word k = base.memory (line, position + (k : ℕ))) ∧
        after = base.performed (events ++ readEvents base.memory line position 8))
      (base.performed events) := by
  rw [amem8_const, wp_bind]
  refine wp_mono (wp_readBytes events 8 clear) ?_
  rintro bytes after ⟨values, reads⟩
  refine (wp_pure _).mpr ⟨fun k below => ?_, reads⟩
  rw [← values k below]
  exact byte_ofBytes bytes below

theorem wp_amem2_const (clear : ∀ k < 2, (line, position + (k : ℕ)) ∉ base.inFlight) :
    wp source (amem2_const line position)
      (fun word after => (∀ k < 2, byte word k = base.memory (line, position + (k : ℕ))) ∧
        after = base.performed (events ++ readEvents base.memory line position 2))
      (base.performed events) := by
  rw [amem2_const, wp_bind]
  refine wp_mono (wp_readBytes events 2 clear) ?_
  rintro bytes after ⟨values, reads⟩
  refine (wp_pure _).mpr ⟨fun k below => ?_, reads⟩
  rw [← values k below, byte_setWidth _ (by omega)]
  exact byte_ofBytes bytes below

end Line

theorem wp_amem8 (address : ℤ) (value : BitVec 64) :
    wp source (amem8 address value)
      (fun _ after => after =
        base.performed (events ++ storeEvents address fun k => byte value k))
      (base.performed events) := by
  rw [amem8, storeEvents]
  induction List.range 8 generalizing events with
  | nil => exact (wp_pure _).mpr (by simp)
  | cons k rest ih =>
      rw [List.forM_cons, wp_bind, wp_output, State.record_eq_performed,
        State.performed_performed, List.map_cons]
      refine wp_mono (ih _) ?_
      rintro _ _ rfl
      rw [List.append_assoc, List.singleton_append]

/-- The bytes of a line the words of a round hold. -/
theorem lineByte_eq {memory : LineAddress → UInt8} {low : BitVec 64} {high : BitVec 32} {line : ℕ}
    {i : ℤ} (lows : ∀ k < 8, byte low k = memory (line, i + (k : ℕ)))
    (highs : ∀ k < 2, byte high k = memory (line, i + 8 + (k : ℕ))) (k : ℕ) (inside : k < 10) :
    lineByte low high k = memory (line, i + (k : ℕ)) := by
  unfold lineByte
  split
  · exact lows k ‹_›
  · rw [highs (k - 8) (by omega), show i + 8 + ((k - 8 : ℕ) : ℤ) = i + (k : ℕ) by omega]

/-- The eight bytes of a round are the minima of the bytes its words hold. -/
theorem storeEvents_columnMin {memory : LineAddress → UInt8} {yprev_ptr y_ptr ynext_ptr : ℕ}
    {r0_76543210 r1_76543210 r2_76543210 : BitVec 64} {r0_98 r1_98 r2_98 : BitVec 32} {i : ℤ}
    (first : ∀ k < 10, lineByte r0_76543210 r0_98 k = memory (yprev_ptr, i + (k : ℕ)))
    (second : ∀ k < 10, lineByte r1_76543210 r1_98 k = memory (y_ptr, i + (k : ℕ)))
    (third : ∀ k < 10, lineByte r2_76543210 r2_98 k = memory (ynext_ptr, i + (k : ℕ)))
    (address : ℤ) :
    (storeEvents address fun k =>
        byte (columnMin r0_76543210 r1_76543210 r2_76543210 r0_98 r1_98 r2_98) k) =
      storeEvents address fun k => linesMin memory yprev_ptr y_ptr ynext_ptr (i + (k : ℕ)) := by
  apply List.map_congr_left
  intro k listed
  have below := List.mem_range.mp listed
  dsimp only
  rw [byte_columnMin _ _ _ _ _ _ below]
  simp (disch := omega) only [linesMin, nineMin, first, second, third, Nat.cast_add, Nat.cast_one,
    Nat.cast_ofNat, add_assoc]

/-- **One round of the column loop** stores at eight columns the minima of nine bytes. -/
theorem wp_columnRound {yprev_ptr y_ptr ynext_ptr : ℕ} (dest_ptr : ℤ) {i : ℤ}
    (clear : ∀ line, line = yprev_ptr ∨ line = y_ptr ∨ line = ynext_ptr →
      ∀ p, i ≤ p → p < i + 10 → (line, p) ∉ base.inFlight) :
    wp source (columnRound yprev_ptr y_ptr ynext_ptr dest_ptr i)
      (fun _ after => after = base.performed
        (events ++ roundEvents base.memory yprev_ptr y_ptr ynext_ptr dest_ptr i))
      (base.performed events) := by
  have low (line : ℕ) (listed : line = yprev_ptr ∨ line = y_ptr ∨ line = ynext_ptr) (k : ℕ)
      (below : k < 8) : (line, i + (k : ℤ)) ∉ base.inFlight :=
    clear line listed _ (by omega) (by omega)
  have high (line : ℕ) (listed : line = yprev_ptr ∨ line = y_ptr ∨ line = ynext_ptr) (k : ℕ)
      (below : k < 2) : (line, i + 8 + (k : ℤ)) ∉ base.inFlight :=
    clear line listed _ (by omega) (by omega)
  rw [columnRound, wp_bind]
  refine wp_mono (wp_amem8_const _ (low yprev_ptr (Or.inl rfl))) ?_
  rintro r0_76543210 _ ⟨low0, rfl⟩
  rw [wp_bind]
  refine wp_mono (wp_amem8_const _ (low y_ptr (Or.inr (Or.inl rfl)))) ?_
  rintro r1_76543210 _ ⟨low1, rfl⟩
  rw [wp_bind]
  refine wp_mono (wp_amem8_const _ (low ynext_ptr (Or.inr (Or.inr rfl)))) ?_
  rintro r2_76543210 _ ⟨low2, rfl⟩
  rw [wp_bind]
  refine wp_mono (wp_amem2_const _ (high yprev_ptr (Or.inl rfl))) ?_
  rintro r0_98 _ ⟨high0, rfl⟩
  rw [wp_bind]
  refine wp_mono (wp_amem2_const _ (high y_ptr (Or.inr (Or.inl rfl)))) ?_
  rintro r1_98 _ ⟨high1, rfl⟩
  rw [wp_bind]
  refine wp_mono (wp_amem2_const _ (high ynext_ptr (Or.inr (Or.inr rfl)))) ?_
  rintro r2_98 _ ⟨high2, rfl⟩
  refine wp_mono (wp_amem8 _ _ _) ?_
  rintro _ _ rfl
  rw [storeEvents_columnMin (lineByte_eq low0 high0) (lineByte_eq low1 high1)
    (lineByte_eq low2 high2)]
  simp only [roundEvents, List.append_assoc]

/-- **The column loop** reads three lines from left to right and stores the minima. -/
theorem wp_columns {yprev_ptr y_ptr ynext_ptr : ℕ}
    (clear : ∀ line, line = yprev_ptr ∨ line = y_ptr ∨ line = ynext_ptr →
      ∀ p, 0 ≤ p → p ≤ cols + 1 → (line, p) ∉ base.inFlight)
    (dest_ptr : ℤ) (aligned : cols % 8 = 0) :
    wp source (forRange 0 cols 8 (columnRound yprev_ptr y_ptr ynext_ptr dest_ptr))
      (fun _ after => after = base.performed
        (columnEvents base.memory yprev_ptr y_ptr ynext_ptr dest_ptr (cols / 8).toNat)) base := by
  have rounds : trips 0 cols 8 = (cols / 8).toNat := by
    unfold trips
    omega
  rw [forRange, wp_bind]
  refine wp_mono (wp_forLoop 0 cols (by decide) _ (fun n (_ : Unit) after => after =
    base.performed (columnEvents base.memory yprev_ptr y_ptr ynext_ptr dest_ptr n)) ?_ ?_) ?_
  · exact base.performed_nil.symm
  · rintro n _ _ below rfl
    rw [zero_add] at below ⊢
    refine wp_mono (wp_columnRound _ dest_ptr fun line listed p lower upper =>
      clear line listed p (by omega) (by omega)) ?_
    rintro _ _ rfl
    simp [columnEvents, List.range_succ]
  · rintro result after ⟨_, computes⟩
    rw [← rounds]
    exact (wp_pure _).mpr computes

/-- The stores of a number of rounds of the column loop. -/
def roundStores (memory : LineAddress → UInt8) (yprev_ptr y_ptr ynext_ptr : ℕ) (dest_ptr : ℤ)
    (n : ℕ) : List (ℤ × UInt8) :=
  (List.range n).flatMap fun round : ℕ => (List.range 8).map fun k : ℕ =>
    (dest_ptr + round * 8 + k, linesMin memory yprev_ptr y_ptr ynext_ptr (round * 8 + k))

theorem stores_columnEvents (memory : LineAddress → UInt8) (yprev_ptr y_ptr ynext_ptr : ℕ)
    (dest_ptr : ℤ) (n : ℕ) :
    stores (columnEvents memory yprev_ptr y_ptr ynext_ptr dest_ptr n) =
      roundStores memory yprev_ptr y_ptr ynext_ptr dest_ptr n := by
  have append (first second : List EdmaEvent) :
      stores (first ++ second) = stores first ++ stores second := List.filterMap_append
  have round (i : ℤ) : stores (roundEvents memory yprev_ptr y_ptr ynext_ptr dest_ptr i) =
      (List.range 8).map fun k : ℕ =>
        (dest_ptr + i + k, linesMin memory yprev_ptr y_ptr ynext_ptr (i + k)) := by
    simp only [roundEvents, append, stores_readEvents, stores_storeEvents, List.nil_append]
  rw [stores, columnEvents, List.filterMap_flatMap]
  exact congrArg (fun f => (List.range n).flatMap f) (funext fun n : ℕ => round (n * 8))

/-- What the column loop adds to what has been done. -/
theorem computes_columns {cols : ℤ} (state : EdmaState) (yprev_ptr y_ptr ynext_ptr : ℕ)
    (linesInside : yprev_ptr < 4 ∧ y_ptr < 4 ∧ ynext_ptr < 4) (dest_ptr : ℤ)
    (aligned : cols % 8 = 0) (nonneg : 0 ≤ cols) :
    Computes cols state
      (state.performed
        (columnEvents state.memory yprev_ptr y_ptr ynext_ptr dest_ptr (cols / 8).toNat))
      (roundStores state.memory yprev_ptr y_ptr ynext_ptr dest_ptr (cols / 8).toNat) := by
  rw [← stores_columnEvents]
  apply Computes.performed
  intro event listed
  rcases mem_columnEvents listed with ⟨line, p, which, bounds, rfl⟩ | ⟨k, v, rfl⟩
  · exact ⟨rfl, by omega, by omega, by omega⟩
  · exact ⟨rfl, trivial⟩

/-- The column loop paints a row. -/
theorem paints_roundStores {memory : LineAddress → UInt8} {yprev_ptr y_ptr ynext_ptr : ℕ}
    {row : ℤ} {value : ℤ × ℤ → UInt8} (aligned : cols % 8 = 0) (nonneg : 0 ≤ cols)
    (values : ∀ x, 0 ≤ x → x < cols →
      linesMin memory yprev_ptr y_ptr ynext_ptr x = value (x, row)) :
    Paints (roundStores memory yprev_ptr y_ptr ynext_ptr (row * cols) (cols / 8).toNat) cols
      {pixel | (0 ≤ pixel.1 ∧ pixel.1 < cols) ∧ pixel.2 = row} value := by
  intro k v
  simp only [roundStores, List.mem_flatMap, List.mem_map, List.mem_range, Prod.mk.injEq]
  constructor
  · rintro ⟨round, counted, j, small, rfl, rfl⟩
    refine ⟨(round * 8 + j, row), ⟨⟨by omega, by omega⟩, rfl⟩, ?_, values _ (by omega) (by omega)⟩
    simp only [address]
    ring
  · rintro ⟨⟨x, _⟩, ⟨⟨lower, upper⟩, rfl⟩, rfl, rfl⟩
    dsimp only at lower upper
    have column : ((x / 8).toNat : ℤ) * 8 + ((x % 8).toNat : ℤ) = x := by omega
    refine ⟨(x / 8).toNat, by omega, (x % 8).toNat, by omega, ?_, ?_⟩
    · simp only [address]
      omega
    · rw [column, values x lower upper]

end Columns

end ErodeTest.TiDsp
