import ErodeTest.OpenCl.Erode

/-! # The test program

`main` of `main.cc` runs the back ends one after the other on one output buffer `h_c`
and compares that buffer with the image `h_b` of the scalar implementation after each
of them. A back end is whatever it stores; its return code is ignored and, with one
exception, the buffer is not cleared before it runs.

A pixel a back end did not store is compared all the same. It passes when an earlier
back end, or the heap, has left the right byte there. `reports_justified_iff` says for
which stores and which heap that misleads no report.
-/

namespace ErodeTest.Main

open BufferProgram BufferProgram.Program Morphology

/-- The macros that choose the back ends. -/
structure Platform where
  clMemUseMsmcTi : Bool
  android : Bool
  x86_64 : Bool
  armNeon : Bool
  aarch64 : Bool
  withOpengles : Bool

inductive BackEnd where
  | cl
  | tidsp
  | rs
  | sse
  | neon
  | halide
  | gl
  deriving DecidableEq, Repr

namespace BackEnd

/-- The back ends in the order in which `main` runs them. -/
def all : List BackEnd := [cl, tidsp, rs, sse, neon, halide, gl]

def isBuilt (platform : Platform) : BackEnd → Bool
  | cl => true
  | tidsp => platform.clMemUseMsmcTi
  | rs => platform.android
  | sse => platform.x86_64
  | neon => platform.armNeon || platform.aarch64
  | halide => platform.armNeon && !platform.aarch64 && !platform.android
  | gl => platform.withOpengles

/-- The buffer as a back end finds it: `main` clears it for one of them. -/
def prepare (w h : ℤ) : BackEnd → (ℤ → UInt8) → ℤ → UInt8
  | tidsp, h_c => fun k => if 0 ≤ k ∧ k < w * h then 0 else h_c k
  | _, h_c => h_c

/-- The stores that clear the buffer for a back end. -/
def cleared (w h : ℤ) : BackEnd → List (ℤ × UInt8)
  | tidsp => (counters 0 (w * h) 1).map fun k => (k, 0)
  | _ => []

theorem prepare_eq_replay (w h : ℤ) (backEnd : BackEnd) (h_c : ℤ → UInt8) :
    backEnd.prepare w h h_c = replay (backEnd.cleared w h) h_c := by
  cases backEnd with
  | tidsp =>
      funext k
      simp only [prepare, cleared]
      split
      · next inside =>
          refine (replay_of_stored _ _ _ _ ?_ ?_).symm
          · exact List.mem_map.mpr ⟨k, mem_counters_one.mpr inside, rfl⟩
          · intro other stored
            obtain ⟨_, _, same⟩ := List.mem_map.mp stored
            exact (congrArg Prod.snd same).symm
      · next outside =>
          refine (replay_of_not_stored _ _ _ fun value stored => outside ?_).symm
          obtain ⟨_, listed, same⟩ := List.mem_map.mp stored
          have here := congrArg Prod.fst same
          dsimp only at here
          exact here ▸ mem_counters_one.mp listed
  | cl | rs | sse | neon | halide | gl => rfl

/-- The comparison after a back end. -/
def check (w h : ℤ) : BackEnd → (ℤ → UInt8) → (ℤ → UInt8) → Except (ℤ × ℤ) Unit
  | cl | rs => compareCl w h
  | _ => compare w 0 h 0 w

/-- The pixels compared. -/
def window (w h : ℤ) : BackEnd → Set (ℤ × ℤ)
  | cl | rs => {pixel | (1 ≤ pixel.1 ∧ pixel.1 < Int.tdiv (w - 2) 8 * 8 + 1) ∧
      1 ≤ pixel.2 ∧ pixel.2 < h - 1}
  | _ => frame w h

theorem check_eq_ok_iff (w h : ℤ) (backEnd : BackEnd) (h_b h_c : ℤ → UInt8) :
    backEnd.check w h h_b h_c = .ok () ↔
      ∀ pixel ∈ backEnd.window w h, h_b (address w pixel) = h_c (address w pixel) := by
  cases backEnd <;>
    simp only [check, window, compareCl, compare_eq_ok_iff, Prod.forall, Set.mem_ofPred_eq,
      mem_frame, address, and_imp]

end BackEnd

/-- A back end and what it stores. -/
structure Stage where
  backEnd : BackEnd
  stores : List (ℤ × UInt8)

namespace Stage

variable (w h : ℤ) (reference : ℤ → UInt8)

/-- Every pixel compared is stored. -/
def Whole (stage : Stage) : Prop :=
  ∀ pixel ∈ stage.backEnd.window w h, (lastStored stage.stores (address w pixel)).isSome

/-- A wrong byte is stored at a pixel compared. -/
def Wrong (stage : Stage) : Prop :=
  ∃ pixel ∈ stage.backEnd.window w h, ∃ b,
    lastStored stage.stores (address w pixel) = some b ∧ b ≠ reference (address w pixel)

/-- Everything stored to the buffer by the end of some stages, with what clears it. -/
def written (stages : List Stage) : List (ℤ × UInt8) :=
  stages.flatMap fun stage => stage.backEnd.cleared w h ++ stage.stores

/-- A pixel compared is not stored, and the last of the earlier stages to store it, or the
heap where none of them did, has left a wrong byte there. -/
def LeftWrong (heap : ℤ → UInt8) (earlier : List Stage) (stage : Stage) : Prop :=
  ∃ pixel ∈ stage.backEnd.window w h,
    lastStored stage.stores (address w pixel) = none ∧
      (lastStored (written w h earlier ++ stage.backEnd.cleared w h) (address w pixel)).getD
        (heap (address w pixel)) ≠ reference (address w pixel)

/-- The first stage that leaves a pixel unwritten, if there is one, comes at or after one
that stores a wrong byte, or leaves a wrong byte as it is. -/
def Telling (stages : List Stage) (heap : ℤ → UInt8) : Prop :=
  ∀ earlier stage later, stages = earlier ++ stage :: later →
    (∀ before ∈ earlier, before.Whole w h) → ¬ stage.Whole w h →
      (∃ wrong ∈ earlier ++ [stage], wrong.Wrong w h reference) ∨
        stage.LeftWrong w h reference heap earlier

variable {w h reference}

/-- Stages that were run before can be taken as part of the heap. -/
theorem leftWrong_cons {heap : ℤ → UInt8} {first : Stage} {earlier : List Stage} {stage : Stage} :
    stage.LeftWrong w h reference heap (first :: earlier) ↔
      stage.LeftWrong w h reference (replay (first.backEnd.cleared w h ++ first.stores) heap)
        earlier := by
  simp only [LeftWrong, ← replay_eq_lastStored, ← replay_append, written, List.flatMap_cons,
    List.append_assoc]

/-- Behind a stage that stores all pixels compared. -/
theorem telling_cons_of_whole {stage : Stage} (whole : stage.Whole w h) (stages : List Stage)
    (heap : ℤ → UInt8) :
    Telling w h reference (stage :: stages) heap ↔ stage.Wrong w h reference ∨
      Telling w h reference stages
        (replay (stage.backEnd.cleared w h ++ stage.stores) heap) := by
  constructor
  · intro telling
    by_cases wrong : stage.Wrong w h reference
    · exact Or.inl wrong
    · right
      intro earlier next later split before partly
      rcases telling (stage :: earlier) next later (by rw [split, List.cons_append])
        (List.forall_mem_cons.mpr ⟨whole, before⟩) partly with ⟨found, listed, bad⟩ | left
      · rcases List.mem_cons.mp listed with rfl | listed
        · exact absurd bad wrong
        · exact Or.inl ⟨found, listed, bad⟩
      · exact Or.inr (leftWrong_cons.mp left)
  · intro condition earlier next later split before partly
    cases earlier with
    | nil =>
        obtain ⟨rfl, _⟩ := List.cons.inj split
        exact absurd whole partly
    | cons first earlier =>
        obtain ⟨rfl, rest⟩ := List.cons.inj split
        rcases condition with wrong | telling
        · exact Or.inl ⟨stage, List.mem_cons_self, wrong⟩
        · rcases telling earlier next later rest (List.forall_mem_cons.mp before).2 partly with
            ⟨found, listed, bad⟩ | left
          · exact Or.inl ⟨found, List.mem_cons_of_mem _ listed, bad⟩
          · exact Or.inr (leftWrong_cons.mpr left)

/-- A stage that does not store all of them decides by itself. -/
theorem telling_cons_of_not_whole {stage : Stage} (partly : ¬ stage.Whole w h)
    (stages : List Stage) (heap : ℤ → UInt8) :
    Telling w h reference (stage :: stages) heap ↔
      stage.Wrong w h reference ∨ stage.LeftWrong w h reference heap [] := by
  constructor
  · intro telling
    rcases telling [] stage stages rfl (by simp) partly with ⟨found, listed, bad⟩ | left
    · rw [List.nil_append, List.mem_singleton] at listed
      exact Or.inl (listed ▸ bad)
    · exact Or.inr left
  · intro condition earlier next later split before _
    cases earlier with
    | nil =>
        obtain ⟨rfl, _⟩ := List.cons.inj split
        exact condition.imp_left fun wrong => ⟨stage, List.mem_singleton_self _, wrong⟩
    | cons first earlier =>
        obtain ⟨rfl, _⟩ := List.cons.inj split
        exact absurd (before stage List.mem_cons_self) partly

end Stage

/-- A call of a back end and the buffer it found. -/
structure Call where
  stage : Stage
  before : ℤ → UInt8

namespace Call

/-- The buffer after the call. -/
def after (call : Call) : ℤ → UInt8 := replay call.stage.stores call.before

/-- The call is reported to equal the scalar implementation. -/
def Reported (w h : ℤ) (h_b : ℤ → UInt8) (call : Call) : Prop :=
  call.stage.backEnd.check w h h_b call.after = .ok ()

/-- The call itself stored the byte of the scalar implementation at every pixel compared. -/
def Justified (w h : ℤ) (h_b : ℤ → UInt8) (call : Call) : Prop :=
  ∀ pixel ∈ call.stage.backEnd.window w h,
    lastStored call.stage.stores (address w pixel) = some (h_b (address w pixel))

theorem reported_iff (w h : ℤ) (h_b : ℤ → UInt8) (call : Call) :
    call.Reported w h h_b ↔ ∀ pixel ∈ call.stage.backEnd.window w h,
      h_b (address w pixel) =
        (lastStored call.stage.stores (address w pixel)).getD (call.before (address w pixel)) := by
  simp only [Reported, BackEnd.check_eq_ok_iff, after, replay_eq_lastStored]

/-- A call is not reported when it stores a wrong byte or leaves one as it is. -/
theorem not_reported_iff {w h : ℤ} {reference : ℤ → UInt8} (stage : Stage) (heap : ℤ → UInt8) :
    ¬ Reported w h reference ⟨stage, stage.backEnd.prepare w h heap⟩ ↔
      stage.Wrong w h reference ∨ stage.LeftWrong w h reference heap [] := by
  have held (pixel : ℤ × ℤ) : stage.backEnd.prepare w h heap (address w pixel) =
      (lastStored (Stage.written w h [] ++ stage.backEnd.cleared w h) (address w pixel)).getD
        (heap (address w pixel)) := by
    rw [BackEnd.prepare_eq_replay, replay_eq_lastStored]
    rfl
  simp only [reported_iff, held]
  push Not
  constructor
  · rintro ⟨pixel, member, different⟩
    cases last : lastStored stage.stores (address w pixel) with
    | none =>
        rw [last, Option.getD_none] at different
        exact Or.inr ⟨pixel, member, last, different.symm⟩
    | some b =>
        rw [last, Option.getD_some] at different
        exact Or.inl ⟨pixel, member, b, last, different.symm⟩
  · rintro (⟨pixel, member, b, last, wrong⟩ | ⟨pixel, member, last, wrong⟩)
    · exact ⟨pixel, member, by rw [last, Option.getD_some]; exact wrong.symm⟩
    · exact ⟨pixel, member, by rw [last, Option.getD_none]; exact wrong.symm⟩

/-- What a stage stores at all pixels compared is right when it is reported. -/
theorem justified_of_whole {w h : ℤ} {reference : ℤ → UInt8} {call : Call}
    (reported : call.Reported w h reference) (whole : call.stage.Whole w h) :
    call.Justified w h reference := by
  intro pixel member
  have same := (call.reported_iff w h reference).mp reported pixel member
  obtain ⟨b, last⟩ := Option.isSome_iff_exists.mp (whole pixel member)
  rw [last, Option.getD_some] at same
  rw [last, same]

/-- What is justified was stored. -/
theorem Justified.whole {w h : ℤ} {reference : ℤ → UInt8} {call : Call}
    (justified : call.Justified w h reference) : call.stage.Whole w h := by
  intro pixel member
  rw [justified pixel member, Option.isSome_some]

end Call

/-- The calls of a run and its exit status. -/
structure Outcome where
  calls : List Call
  status : ℤ

/-- Run the stages one after the other; the first that differs ends the program. -/
def runStages (w h : ℤ) (h_b : ℤ → UInt8) : List Stage → (ℤ → UInt8) → Outcome
  | [], _ => { calls := [], status := 0 }
  | stage :: stages, h_c =>
      let call : Call := { stage := stage, before := stage.backEnd.prepare w h h_c }
      match stage.backEnd.check w h h_b call.after with
      | .error _ => { calls := [call], status := 1 }
      | .ok () =>
          let rest := runStages w h h_b stages call.after
          { rest with calls := call :: rest.calls }

/-- The stages of a platform, for what its back ends store. -/
def stages (platform : Platform) (stores : BackEnd → List (ℤ × UInt8)) : List Stage :=
  (BackEnd.all.filter (BackEnd.isBuilt platform)).map fun backEnd =>
    { backEnd := backEnd, stores := stores backEnd }

/-- The test image. -/
def h_a : ℤ → UInt8 := fun i => UInt8.ofNat (i % 256).toNat

/-- What the scalar implementation leaves of an image. -/
def h_b (w h : ℤ) (image heap : ℤ → UInt8) : ℤ → UInt8 :=
  replay ((Scalar.erode3x3 0 0 w h).stores image) heap

/-- `main` of `main.cc`. New memory holds arbitrary bytes. -/
def main (platform : Platform) (stores : BackEnd → List (ℤ × UInt8)) (heapB heapC : ℤ → UInt8) :
    Outcome :=
  let w := 320
  let h := 240
  runStages w h (h_b w h h_a heapB) (stages platform stores) heapC

section Run

variable {w h : ℤ} {reference : ℤ → UInt8}

/-- A run goes on after a call that is reported equal. -/
theorem runStages_of_reported {stage : Stage} {h_c : ℤ → UInt8} (rest : List Stage)
    (reported : Call.Reported w h reference ⟨stage, stage.backEnd.prepare w h h_c⟩) :
    runStages w h reference (stage :: rest) h_c =
      { runStages w h reference rest (Call.after ⟨stage, stage.backEnd.prepare w h h_c⟩) with
        calls := ⟨stage, stage.backEnd.prepare w h h_c⟩ ::
          (runStages w h reference rest
            (Call.after ⟨stage, stage.backEnd.prepare w h h_c⟩)).calls } := by
  rw [Call.Reported] at reported
  simp only [runStages, reported]

/-- A run ends after a call that is not. -/
theorem runStages_of_not_reported {stage : Stage} {h_c : ℤ → UInt8} (rest : List Stage)
    (differs : ¬ Call.Reported w h reference ⟨stage, stage.backEnd.prepare w h h_c⟩) :
    runStages w h reference (stage :: rest) h_c =
      { calls := [⟨stage, stage.backEnd.prepare w h h_c⟩], status := 1 } := by
  rw [Call.Reported] at differs
  simp only [runStages]
  split
  · rfl
  · contradiction

/-- Back ends that store every pixel compared are told apart: the program succeeds when all
of them store the image of the scalar implementation. -/
theorem status_eq_zero_iff (stages : List Stage) (h_c : ℤ → UInt8)
    (stored : ∀ stage ∈ stages, stage.Whole w h) :
    (runStages w h reference stages h_c).status = 0 ↔
      ∀ stage ∈ stages, ∀ pixel ∈ stage.backEnd.window w h,
        lastStored stage.stores (address w pixel) = some (reference (address w pixel)) := by
  induction stages generalizing h_c with
  | nil => simp [runStages]
  | cons stage stages ih =>
      rw [List.forall_mem_cons] at stored ⊢
      by_cases reported : Call.Reported w h reference ⟨stage, stage.backEnd.prepare w h h_c⟩
      · rw [runStages_of_reported stages reported, ih _ stored.2]
        exact (and_iff_right (Call.justified_of_whole reported stored.1)).symm
      · rw [runStages_of_not_reported stages reported]
        refine iff_of_false one_ne_zero fun right => reported ?_
        rw [Call.reported_iff]
        intro pixel member
        rw [right.1 pixel member, Option.getD_some]

/-- **When reports of equality are justified.** In a run of any stages every report means
that the back end stored the image itself, exactly when the first stage that leaves a pixel
of its window unwritten comes at or after one that stores a wrong byte, or leaves a wrong
byte as it is. -/
theorem reports_justified_iff (w h : ℤ) (reference : ℤ → UInt8) (stages : List Stage)
    (heap : ℤ → UInt8) :
    (∀ call ∈ (runStages w h reference stages heap).calls,
        call.Reported w h reference → call.Justified w h reference) ↔
      Stage.Telling w h reference stages heap := by
  induction stages generalizing heap with
  | nil =>
      refine iff_of_true (fun call listed => absurd listed List.not_mem_nil) ?_
      intro earlier stage later split
      exact absurd split.symm (by simp)
  | cons stage stages ih =>
      have decided : _ ↔ stage.Wrong w h reference ∨ _ := Call.not_reported_iff stage heap
      by_cases reported : Call.Reported w h reference ⟨stage, stage.backEnd.prepare w h heap⟩
      · rw [runStages_of_reported stages reported, List.forall_mem_cons, ih]
        by_cases whole : stage.Whole w h
        · have right : ¬ stage.Wrong w h reference := fun wrong =>
            decided.mpr (Or.inl wrong) reported
          have justified := Call.justified_of_whole reported whole
          rw [Stage.telling_cons_of_whole whole, or_iff_right right, replay_append,
            ← BackEnd.prepare_eq_replay]
          exact and_iff_right fun _ => justified
        · refine iff_of_false (fun all => whole (all.1 reported).whole) ?_
          rw [Stage.telling_cons_of_not_whole whole]
          exact fun wrong => decided.mpr wrong reported
      · rw [runStages_of_not_reported stages reported, List.forall_mem_singleton]
        refine iff_of_true (fun other => absurd other reported) ?_
        by_cases whole : stage.Whole w h
        · rw [Stage.telling_cons_of_whole whole]
          left
          rcases decided.mp reported with wrong | ⟨pixel, member, unwritten, _⟩
          · exact wrong
          · have stored := whole pixel member
            rw [unwritten] at stored
            cases stored
        · rw [Stage.telling_cons_of_not_whole whole]
          exact decided.mp reported

end Run

/-! ## A platform with two back ends -/

def androidPlatform : Platform where
  clMemUseMsmcTi := false
  android := true
  x86_64 := false
  armNeon := false
  aarch64 := false
  withOpengles := false

/-- The OpenCL back end works, the others store nothing. -/
def onlyCl : BackEnd → List (ℤ × UInt8)
  | .cl => (OpenCl.enqueueNDRangeKernel (OpenCl.erodeRange 320 240).workItems 320).stores h_a
  | _ => []

/-- Where the OpenCL back end has run, the comparison without the edges passes. -/
theorem onlyCl_eq_h_b (heap content : ℤ → UInt8) {pixel : ℤ × ℤ}
    (member : pixel ∈ BackEnd.cl.window 320 240) :
    h_b 320 240 h_a heap (address 320 pixel) = replay (onlyCl .cl) content (address 320 pixel) := by
  obtain ⟨column, row⟩ := member
  rw [OpenCl.tdiv_width (by omega)] at column
  have inside : pixel ∈ OpenCl.inner 320 240 := by
    simp only [OpenCl.mem_inner]
    omega
  have framed : pixel ∈ frame 320 240 := by
    simp only [mem_frame]
    omega
  have computed := (Scalar.paints_erode3x3 (by omega) (by omega) h_a).replay_inside
    (fun other member => ⟨member.1, member.2.1⟩) heap framed
  have launched := OpenCl.paints_enqueueNDRangeKernel (w := 320) (h := 240) (by omega) h_a
    (List.Perm.refl _)
  have stored := launched.replay_inside
    (fun other member => by
      obtain ⟨column, row⟩ := member
      omega) content inside
  exact computed.trans stored.symm

/-- The two calls of the platform are reported equal. -/
theorem onlyCl_reported (heap content : ℤ → UInt8) :
    Call.Reported 320 240 (h_b 320 240 h_a heap)
        ⟨⟨.cl, onlyCl .cl⟩, BackEnd.cl.prepare 320 240 content⟩ ∧
      Call.Reported 320 240 (h_b 320 240 h_a heap)
        ⟨⟨.rs, onlyCl .rs⟩, BackEnd.rs.prepare 320 240
          (Call.after ⟨⟨.cl, onlyCl .cl⟩, BackEnd.cl.prepare 320 240 content⟩)⟩ := by
  have unchanged (before : ℤ → UInt8) :
      Call.after ⟨⟨.rs, onlyCl .rs⟩, BackEnd.rs.prepare 320 240 before⟩ = before := rfl
  constructor
  · exact (BackEnd.check_eq_ok_iff _ _ _ _ _).mpr fun _ member => onlyCl_eq_h_b heap _ member
  · apply (BackEnd.check_eq_ok_iff _ _ _ _ _).mpr
    intro pixel member
    rw [unchanged]
    exact onlyCl_eq_h_b heap _ member

/-- The RenderScript back end stores nothing and is reported equal. -/
theorem main_reports_unstored_image :
    ∃ call ∈ (main androidPlatform onlyCl (fun _ => 0) fun _ => 0).calls,
      call.Reported 320 240 (h_b 320 240 h_a fun _ => 0) ∧
        ¬ call.Justified 320 240 (h_b 320 240 h_a fun _ => 0) := by
  have reported := onlyCl_reported (fun _ => 0) fun _ => 0
  have built : stages androidPlatform onlyCl = [⟨.cl, onlyCl .cl⟩, ⟨.rs, onlyCl .rs⟩] := rfl
  rw [main, built, runStages_of_reported _ reported.1, runStages_of_reported _ reported.2]
  refine ⟨_, List.mem_cons_of_mem _ List.mem_cons_self, reported.2, fun justified => ?_⟩
  have stored := justified (1, 1) (by simp [BackEnd.window])
  cases stored

end ErodeTest.Main
