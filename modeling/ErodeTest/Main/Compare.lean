import ErodeTest.Foundation.Program

/-! # The comparisons of the test program

`main` of `main.cc` compares the image of each back end with that of the scalar
implementation, pixel by pixel, and ends at the first pixel that differs. The
comparisons differ in the range of rows and columns only.
-/

namespace ErodeTest.Main

open BufferProgram

variable {ε : Type}

/-- A counted loop whose body may end the program comes to its end when no round does. -/
theorem exists_forRange_ok_iff (start stop : ℤ) {step : ℤ} (positive : 0 < step)
    (body : ℤ → Except ε Unit) :
    (∃ i, forRange start stop step body = .ok i) ↔
      ∀ i ∈ counters start stop step, body i = .ok () := by
  suffices loop : (∃ state, forLoop start stop step () (fun i _ => body i) = .ok state) ↔
      ∀ i ∈ counters start stop step, body i = .ok () by
    rw [← loop, forRange]
    cases forLoop start stop step () fun i _ => body i <;>
      simp [bind, Except.bind, pure, Except.pure]
  obtain ⟨count, counted⟩ : ∃ count, trips start stop step = count := ⟨_, rfl⟩
  induction count generalizing start with
  | zero =>
      have done : stop ≤ start := by
        by_contra below
        rw [trips_of_lt positive (by omega)] at counted
        omega
      simp [forLoop_unfold _ _ _ positive, counters_of_le positive done, not_lt.mpr done, pure,
        Except.pure]
  | succ count ih =>
      have below : start < stop := by
        by_contra done
        rw [trips_of_le positive (by omega)] at counted
        omega
      rw [forLoop_unfold _ _ _ positive, if_pos below, counters_of_lt positive below,
        List.forall_mem_cons]
      cases first : body start with
      | error stopped => simp [bind, Except.bind]
      | ok _ =>
          simpa [bind, Except.bind] using
            ih (start + step) (by rw [trips_of_lt positive below] at counted; omega)

/-- A counted loop whose body may end the program is ended by the first round that does. -/
theorem forRange_eq_error_iff (start stop : ℤ) {step : ℤ} (positive : 0 < step)
    (body : ℤ → Except ε Unit) (stopped : ε) :
    forRange start stop step body = .error stopped ↔
      ∃ i ∈ counters start stop step, body i = .error stopped ∧
        ∀ j ∈ counters start stop step, j < i → body j = .ok () := by
  suffices loop : forLoop start stop step () (fun i _ => body i) = .error stopped ↔
      ∃ i ∈ counters start stop step, body i = .error stopped ∧
        ∀ j ∈ counters start stop step, j < i → body j = .ok () by
    rw [← loop, forRange]
    cases forLoop start stop step () fun i _ => body i <;>
      simp [bind, Except.bind, pure, Except.pure]
  obtain ⟨count, counted⟩ : ∃ count, trips start stop step = count := ⟨_, rfl⟩
  induction count generalizing start with
  | zero =>
      have done : stop ≤ start := by
        by_contra below
        rw [trips_of_lt positive (by omega)] at counted
        omega
      simp [forLoop_unfold _ _ _ positive, counters_of_le positive done, not_lt.mpr done, pure,
        Except.pure]
  | succ count ih =>
      have below : start < stop := by
        by_contra done
        rw [trips_of_le positive (by omega)] at counted
        omega
      have later : ∀ i ∈ counters (start + step) stop step, start < i := by
        intro i listed
        obtain ⟨n, rfl, _⟩ := (mem_counters positive).mp listed
        have := mul_nonneg (Int.natCast_nonneg n) positive.le
        omega
      have rest := ih (start + step) (by rw [trips_of_lt positive below] at counted; omega)
      rw [forLoop_unfold _ _ _ positive, if_pos below, counters_of_lt positive below]
      cases first : body start with
      | error other =>
          simp only [bind, Except.bind, Except.error.injEq]
          constructor
          · rintro rfl
            refine ⟨start, List.mem_cons_self, first, fun j listed earlier => ?_⟩
            rcases List.mem_cons.mp listed with rfl | further
            · exact absurd earlier (lt_irrefl j)
            · exact absurd earlier (later j further).le.not_gt
          · rintro ⟨i, listed, failed, earlier⟩
            rcases List.mem_cons.mp listed with rfl | further
            · rw [first] at failed
              exact Except.error.inj failed
            · have passed := earlier start List.mem_cons_self (later i further)
              rw [first] at passed
              cases passed
      | ok _ =>
          simp only [bind, Except.bind, rest]
          constructor
          · rintro ⟨i, listed, failed, earlier⟩
            refine ⟨i, List.mem_cons_of_mem _ listed, failed, fun j further before => ?_⟩
            rcases List.mem_cons.mp further with rfl | further
            · exact first
            · exact earlier j further before
          · rintro ⟨i, listed, failed, earlier⟩
            rcases List.mem_cons.mp listed with rfl | further
            · rw [first] at failed
              cases failed
            · exact ⟨i, further, failed, fun j later before =>
                earlier j (List.mem_cons_of_mem _ later) before⟩

theorem discard_eq_error_iff {α : Type} (program : Except ε α) (stopped : ε) :
    (do let _ ← program; pure () : Except ε Unit) = .error stopped ↔ program = .error stopped := by
  cases program <;> simp [bind, Except.bind, pure, Except.pure]

theorem discard_eq_ok_iff {α : Type} (program : Except ε α) :
    (do let _ ← program; pure () : Except ε Unit) = .ok () ↔ ∃ value, program = .ok value := by
  cases program <;> simp [bind, Except.bind, pure, Except.pure]

/-- The comparison of rows `jStart` to `jStop` and columns `iStart` to `iStop`;
`main` returns at the first pixel that differs. -/
def compare (w jStart jStop iStart iStop : ℤ) (h_b h_c : ℤ → UInt8) :
    Except (ℤ × ℤ) Unit := do
  let _ ← forRange jStart jStop 1 fun j => do
    let _ ← forRange iStart iStop 1 fun i =>
      if h_b (j * w + i) ≠ h_c (j * w + i) then throw (i, j) else pure ()
  pure ()

/-- The comparison of the scalar and the OpenCL implementation, without the edges. -/
def compareCl (w h : ℤ) : (ℤ → UInt8) → (ℤ → UInt8) → Except (ℤ × ℤ) Unit :=
  compare w 1 (h - 1) 1 (Int.tdiv (w - 2) 8 * 8 + 1)

section Compare

variable (w jStart jStop iStart iStop : ℤ) (h_b h_c : ℤ → UInt8)

theorem pixel_eq_ok_iff (i j : ℤ) :
    (if h_b (j * w + i) ≠ h_c (j * w + i) then throw (i, j) else pure () :
      Except (ℤ × ℤ) Unit) = .ok () ↔ h_b (j * w + i) = h_c (j * w + i) := by
  split
  · simp_all [throw, throwThe, MonadExceptOf.throw]
  · simp_all [pure, Except.pure]

/-- A comparison passes when the images agree in its range. -/
theorem compare_eq_ok_iff :
    compare w jStart jStop iStart iStop h_b h_c = .ok () ↔
      ∀ x y, iStart ≤ x → x < iStop → jStart ≤ y → y < jStop →
        h_b (y * w + x) = h_c (y * w + x) := by
  simp only [compare, discard_eq_ok_iff, exists_forRange_ok_iff _ _ one_pos, pixel_eq_ok_iff,
    mem_counters_one, and_imp]
  constructor
  · exact fun agree x y left right top bottom => agree y top bottom x left right
  · exact fun agree y top bottom x left right => agree x y left right top bottom

/-- **The difference a comparison reports is the first one**, row by row and in a row from
left to right. -/
theorem compare_eq_error_iff (x y : ℤ) :
    compare w jStart jStop iStart iStop h_b h_c = .error (x, y) ↔
      (iStart ≤ x ∧ x < iStop ∧ jStart ≤ y ∧ y < jStop) ∧
        h_b (y * w + x) ≠ h_c (y * w + x) ∧
          ∀ i j, iStart ≤ i → i < iStop → jStart ≤ j → j < jStop → j < y ∨ (j = y ∧ i < x) →
            h_b (j * w + i) = h_c (j * w + i) := by
  have different (i j : ℤ) :
      (if h_b (j * w + i) ≠ h_c (j * w + i) then throw (i, j) else pure () :
        Except (ℤ × ℤ) Unit) = .error (x, y) ↔
          (i = x ∧ j = y) ∧ h_b (j * w + i) ≠ h_c (j * w + i) := by
    split
    · simp_all [throw, throwThe, MonadExceptOf.throw]
    · simp_all [pure, Except.pure]
  simp only [compare, discard_eq_error_iff, discard_eq_ok_iff,
    forRange_eq_error_iff _ _ one_pos, exists_forRange_ok_iff _ _ one_pos, pixel_eq_ok_iff, different,
    mem_counters_one]
  constructor
  · rintro ⟨_, row, ⟨_, column, ⟨⟨rfl, rfl⟩, differs⟩, before⟩, above⟩
    refine ⟨⟨column.1, column.2, row⟩, differs, fun i j left right top bottom earlier => ?_⟩
    rcases earlier with higher | ⟨rfl, lefter⟩
    · exact above j ⟨top, bottom⟩ higher i ⟨left, right⟩
    · exact before i ⟨left, right⟩ lefter
  · rintro ⟨⟨left, right, top, bottom⟩, differs, earlier⟩
    refine ⟨y, ⟨top, bottom⟩, ⟨x, ⟨left, right⟩, ⟨⟨rfl, rfl⟩, differs⟩, fun i column before => ?_⟩,
      fun j row above i column => ?_⟩
    · exact earlier i y column.1 column.2 top bottom (Or.inr ⟨rfl, before⟩)
    · exact earlier i j column.1 column.2 row.1 row.2 (Or.inl above)

end Compare

end ErodeTest.Main
