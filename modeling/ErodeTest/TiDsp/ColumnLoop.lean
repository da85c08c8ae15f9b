import ErodeTest.TiDsp.Lines

/-! # The column loop on arbitrary lines

Run on its own, the column loop of `tidsp_morph_erode` stores the bytes of a row from
left to right, each the minimum of nine bytes of three lines. Its accesses of eight
bytes are at multiples of eight. Guard bytes of value 255 around a row leave the
minimum of the row with its ends repeated.
-/

namespace ErodeTest.TiDsp

open AsyncCopy BufferProgram Morphology

/-- What the column loop does on lines of arbitrary bytes. -/
def columnLoop (source : ℤ → UInt8) (cols : ℤ) (yprev_ptr y_ptr ynext_ptr : ℕ) (dest_ptr : ℤ)
    (memory : LineAddress → UInt8) (schedule : Schedule) : List EdmaEvent :=
  ((forRange 0 cols 8 (columnRound yprev_ptr y_ptr ynext_ptr dest_ptr)).run source schedule
    ⟨memory, [], []⟩).2.log

/-- The bytes of three lines at three positions. -/
def nineBytes (memory : LineAddress → UInt8) (yprev_ptr y_ptr ynext_ptr : ℕ) (position : ℤ → ℤ) :
    Set UInt8 :=
  {b | ∃ line ∈ ({yprev_ptr, y_ptr, ynext_ptr} : Set ℕ), ∃ k ∈ ({0, 1, 2} : Set ℤ),
    b = memory (line, position k)}

section Minima

variable (memory : LineAddress → UInt8) (yprev_ptr y_ptr ynext_ptr : ℕ)

theorem isLeast_linesMin (p : ℤ) :
    IsLeast (nineBytes memory yprev_ptr y_ptr ynext_ptr fun k => p + k)
      (linesMin memory yprev_ptr y_ptr ynext_ptr p) := by
  have column (q : ℤ) := ((MinOver.single memory (yprev_ptr, q)).min
    (MinOver.single memory (y_ptr, q))).min (MinOver.single memory (ynext_ptr, q))
  have least := ((column p).min (column (p + 1))).min (column (p + 2))
  have bytes : nineBytes memory yprev_ptr y_ptr ynext_ptr (fun k => p + k) =
      memory '' (({(yprev_ptr, p)} ∪ {(y_ptr, p)} ∪ {(ynext_ptr, p)}) ∪
        ({(yprev_ptr, p + 1)} ∪ {(y_ptr, p + 1)} ∪ {(ynext_ptr, p + 1)}) ∪
          ({(yprev_ptr, p + 2)} ∪ {(y_ptr, p + 2)} ∪ {(ynext_ptr, p + 2)})) := by
    ext b
    simp only [nineBytes, Set.mem_ofPred_eq, Set.mem_insert_iff, Set.mem_singleton_iff,
      exists_eq_or_imp, exists_eq_left, Set.image_union, Set.image_singleton, Set.mem_union,
      add_zero]
    tauto
  rw [bytes]
  exact least

/-- A position at the ends repeated is one of the three, or the one left out is a guard. -/
theorem clamp_window {cols p k : ℤ} (left : 0 ≤ p) (right : p < cols)
    (listed : k ∈ ({0, 1, 2} : Set ℤ)) :
    (∃ j ∈ ({0, 1, 2} : Set ℤ), clamp cols (p + (k - 1)) + 1 = p + j) ∧
      (clamp cols (p + (k - 1)) + 1 = p + k ∨ p + k = 0 ∨ p + k = cols + 1) := by
  simp only [Set.mem_insert_iff, Set.mem_singleton_iff] at listed ⊢
  unfold clamp
  refine ⟨⟨_, ?_, (add_sub_cancel p _).symm⟩, ?_⟩
  · omega
  · omega

/-- **Guard bytes repeat the ends of a row.** -/
theorem isLeast_of_guards {cols p : ℤ} (left : 0 ≤ p) (right : p < cols) {b : UInt8}
    (guards : ∀ line ∈ ({yprev_ptr, y_ptr, ynext_ptr} : Set ℕ),
      memory (line, 0) = 255 ∧ memory (line, cols + 1) = 255)
    (least : IsLeast (nineBytes memory yprev_ptr y_ptr ynext_ptr fun k => p + k) b) :
    IsLeast (nineBytes memory yprev_ptr y_ptr ynext_ptr
      fun k => clamp cols (p + (k - 1)) + 1) b := by
  obtain ⟨⟨line, which, k, offset, rfl⟩, lowest⟩ := least
  have below : ∀ other ∈ ({yprev_ptr, y_ptr, ynext_ptr} : Set ℕ), ∀ j ∈ ({0, 1, 2} : Set ℤ),
      memory (line, p + k) ≤ memory (other, clamp cols (p + (j - 1)) + 1) := by
    intro other member j listed
    obtain ⟨⟨k', inside, same⟩, _⟩ := clamp_window left right listed
    rw [same]
    exact lowest ⟨other, member, k', inside, rfl⟩
  refine ⟨?_, ?_⟩
  · rcases (clamp_window left right offset).2 with interior | ends
    · exact ⟨line, which, k, offset, congrArg (fun q => memory (line, q)) interior.symm⟩
    · have guard : memory (line, p + k) = 255 := by
        rcases ends with first | last
        · rw [first]
          exact (guards line which).1
        · rw [last]
          exact (guards line which).2
      refine ⟨line, which, 1, by simp, le_antisymm (below line which 1 (by simp)) ?_⟩
      rw [guard]
      exact UInt8.le_255 _
  · rintro _ ⟨other, member, j, listed, rfl⟩
    exact below other member j listed

end Minima

section Loop

variable (source : ℤ → UInt8) {cols : ℤ} (yprev_ptr y_ptr ynext_ptr : ℕ) (dest_ptr : ℤ)
  (memory : LineAddress → UInt8) (schedule : Schedule)

theorem columnLoop_eq (aligned : cols % 8 = 0) :
    columnLoop source cols yprev_ptr y_ptr ynext_ptr dest_ptr memory schedule =
      columnEvents memory yprev_ptr y_ptr ynext_ptr dest_ptr (cols / 8).toNat := by
  have holds : wp source (forRange 0 cols 8 (columnRound yprev_ptr y_ptr ynext_ptr dest_ptr))
      (fun _ after => after = State.performed ⟨memory, [], []⟩
        (columnEvents memory yprev_ptr y_ptr ynext_ptr dest_ptr (cols / 8).toNat))
      ⟨memory, [], []⟩ :=
    wp_columns (fun _ _ _ _ _ => List.not_mem_nil) dest_ptr aligned
  obtain ⟨final, same, rfl⟩ := wp_sound holds schedule
  exact same

/-- The rounds store the columns from left to right. -/
theorem roundStores_eq (n : ℕ) :
    roundStores memory yprev_ptr y_ptr ynext_ptr dest_ptr n =
      (counters 0 (n * 8) 1).map fun p =>
        (dest_ptr + p, linesMin memory yprev_ptr y_ptr ynext_ptr p) := by
  have round (i : ℤ) : counters i (i + 8) 1 = (List.range 8).map fun k : ℕ => i + k := by
    simp [counters]
  induction n with
  | zero => rfl
  | succ n ih =>
      have next : ((n + 1 : ℕ) : ℤ) * 8 = n * 8 + 8 := by
        push_cast
        ring
      rw [roundStores] at ih ⊢
      rw [List.range_succ (n := n), List.flatMap_append, ih, next,
        ← counters_one_append (by omega : (0 : ℤ) ≤ n * 8) (by omega : (n : ℤ) * 8 ≤ n * 8 + 8),
        List.map_append, round]
      simp only [List.flatMap_cons, List.flatMap_nil, List.append_nil, List.map_map,
        Function.comp_def, add_assoc]

theorem stores_columnLoop (aligned : cols % 8 = 0) (nonneg : 0 ≤ cols) :
    stores (columnLoop source cols yprev_ptr y_ptr ynext_ptr dest_ptr memory schedule) =
      (counters 0 cols 1).map fun p =>
        (dest_ptr + p, linesMin memory yprev_ptr y_ptr ynext_ptr p) := by
  have whole : ((cols / 8).toNat : ℤ) * 8 = cols := by omega
  rw [columnLoop_eq _ _ _ _ _ _ _ aligned, stores_columnEvents, roundStores_eq, whole]

/-- **The column loop takes minima of nine bytes.** It stores every byte of the row once,
from left to right, reads the three lines within the guard bytes, and makes its accesses of
eight bytes at multiples of eight; with guard bytes of value 255 a byte stored is the
minimum of the row with its ends repeated. -/
theorem columnLoop_minima (positive : 0 < cols) (aligned : cols % 8 = 0) :
    columnLoop source cols yprev_ptr y_ptr ynext_ptr dest_ptr memory schedule =
        ((List.range (cols / 8).toNat).flatMap fun n : ℕ =>
          roundEvents memory yprev_ptr y_ptr ynext_ptr dest_ptr (n * 8)) ∧
      (stores (columnLoop source cols yprev_ptr y_ptr ynext_ptr dest_ptr memory
          schedule)).map Prod.fst = counters dest_ptr (dest_ptr + cols) 1 ∧
      (∀ p b, (dest_ptr + p, b) ∈
          stores (columnLoop source cols yprev_ptr y_ptr ynext_ptr dest_ptr memory schedule) →
        IsLeast (nineBytes memory yprev_ptr y_ptr ynext_ptr fun k => p + k) b ∧
          ((∀ line ∈ ({yprev_ptr, y_ptr, ynext_ptr} : Set ℕ),
              memory (line, 0) = 255 ∧ memory (line, cols + 1) = 255) →
            IsLeast (nineBytes memory yprev_ptr y_ptr ynext_ptr
              fun k => clamp cols (p + (k - 1)) + 1) b)) ∧
      ∀ line p b, .read (line, p) b ∈
          columnLoop source cols yprev_ptr y_ptr ynext_ptr dest_ptr memory schedule →
        (line = yprev_ptr ∨ line = y_ptr ∨ line = ynext_ptr) ∧ (0 ≤ p ∧ p ≤ cols + 1) ∧
          b = memory (line, p) := by
  refine ⟨columnLoop_eq _ _ _ _ _ _ _ aligned, ?_, ?_, ?_⟩
  · rw [stores_columnLoop _ _ _ _ _ _ _ aligned positive.le, List.map_map, counters_shift]
    rfl
  · intro p b stored
    rw [stores_columnLoop _ _ _ _ _ _ _ aligned positive.le] at stored
    obtain ⟨q, counted, same⟩ := List.mem_map.mp stored
    obtain ⟨place, rfl⟩ := Prod.mk.inj same
    obtain rfl : q = p := by omega
    rw [mem_counters_one] at counted
    have least := isLeast_linesMin memory yprev_ptr y_ptr ynext_ptr q
    exact ⟨least, fun guards =>
      isLeast_of_guards memory yprev_ptr y_ptr ynext_ptr counted.1 counted.2 guards least⟩
  · intro line p b read
    rw [columnLoop_eq _ _ _ _ _ _ _ aligned] at read
    rcases mem_columnEvents read with ⟨line', p', which, bounds, same⟩ | ⟨k, v, same⟩
    · obtain ⟨place, rfl⟩ := Event.read.inj same
      obtain ⟨rfl, rfl⟩ := Prod.mk.inj place
      exact ⟨which, by omega, rfl⟩
    · cases same

end Loop

theorem columnLoop_minima_eight_columns :
    ((stores (columnLoop (fun _ => 0) 8 0 1 2 100 (fun address => UInt8.ofNat address.2.toNat)
      fun _ => [])).map Prod.fst) = counters 100 (100 + 8) 1 :=
  (columnLoop_minima (fun _ => 0) 0 1 2 100 (fun address => UInt8.ofNat address.2.toNat)
    (fun _ => []) (by decide : (0 : ℤ) < 8) (by decide)).2.1

end ErodeTest.TiDsp
