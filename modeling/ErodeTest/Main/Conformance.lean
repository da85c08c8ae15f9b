import ErodeTest.Main.BackEnds

/-! # What the test program reports of its back ends

With the back ends as they are, for images of suitable sizes, `main` reports every back end
whose calls to its platform succeed, on the strength of what that back end stored itself and
whatever the failing ones store; it comes to its end unless one of these is found to differ
(`runStages_conforms`). When no call to a platform fails only the TI DSP can be found to
differ: the exit status is zero exactly when it is not built or its image does not show the
row after the input (`main_status_eq_zero_iff`).
-/

namespace ErodeTest.Main

open BufferProgram BufferProgram.Program Morphology

/-! ## Stages that store the right image -/

section Right

variable {w h : ℤ} {reference : ℤ → UInt8}

/-- A call that stored the right bytes is reported. -/
theorem Call.Justified.reported {call : Call} (justified : call.Justified w h reference) :
    call.Reported w h reference := by
  rw [Call.reported_iff]
  intro pixel member
  rw [justified pixel member, Option.getD_some]

/-- Stages that store the right bytes are reported, whatever the faulty ones among them
store, and only a faulty one can end the run. -/
theorem runStages_of_right {faulty : Stage → Prop} {stages : List Stage}
    (right : ∀ stage ∈ stages, ¬ faulty stage → ∀ pixel ∈ stage.backEnd.window w h,
      lastStored stage.stores (address w pixel) = some (reference (address w pixel)))
    (h_c : ℤ → UInt8) :
    (∀ call ∈ (runStages w h reference stages h_c).calls, ¬ faulty call.stage →
        call.Reported w h reference ∧ call.Justified w h reference) ∧
      (((runStages w h reference stages h_c).calls.map Call.stage = stages ∧
          (runStages w h reference stages h_c).status = 0) ∨
        ∃ call ∈ (runStages w h reference stages h_c).calls, faulty call.stage ∧
          ¬ call.Reported w h reference) := by
  induction stages generalizing h_c with
  | nil => exact ⟨fun call listed => absurd listed List.not_mem_nil, Or.inl ⟨rfl, rfl⟩⟩
  | cons stage stages ih =>
      rw [List.forall_mem_cons] at right
      have justified (sound : ¬ faulty stage) :
          Call.Justified w h reference ⟨stage, stage.backEnd.prepare w h h_c⟩ := right.1 sound
      by_cases reported : Call.Reported w h reference ⟨stage, stage.backEnd.prepare w h h_c⟩
      · obtain ⟨reports, ended⟩ :=
          ih right.2 (Call.after ⟨stage, stage.backEnd.prepare w h h_c⟩)
        rw [runStages_of_reported stages reported, List.forall_mem_cons]
        refine ⟨⟨fun sound => ⟨reported, justified sound⟩, reports⟩, ?_⟩
        rcases ended with ⟨ran, status⟩ | ⟨call, listed, differs⟩
        · exact Or.inl ⟨by rw [List.map_cons, ran], status⟩
        · exact Or.inr ⟨call, List.mem_cons_of_mem _ listed, differs⟩
      · have fault : faulty stage := by
          by_contra sound
          exact reported (justified sound).reported
        rw [runStages_of_not_reported stages reported, List.forall_mem_singleton]
        exact ⟨fun sound => absurd fault sound,
          Or.inr ⟨_, List.mem_singleton_self _, fault, reported⟩⟩

end Right

theorem mem_stages {platform : Platform} {stores : BackEnd → List (ℤ × UInt8)} {stage : Stage} :
    stage ∈ stages platform stores ↔
      stage.backEnd.isBuilt platform = true ∧ stage.stores = stores stage.backEnd := by
  rw [stages, List.mem_map]
  constructor
  · rintro ⟨backEnd, listed, rfl⟩
    exact ⟨(List.mem_filter.mp listed).2, rfl⟩
  · rintro ⟨built, same⟩
    obtain ⟨backEnd, stored⟩ := stage
    refine ⟨backEnd, List.mem_filter.mpr ⟨?_, built⟩, congrArg (Stage.mk backEnd) same.symm⟩
    cases backEnd <;> decide

/-! ## The back ends as they are -/

namespace Environment

variable {w h : ℤ} (env : Environment w h) (image : ℤ → UInt8) (wide : 2 ≤ w) (tall : 2 ≤ h)

include wide tall

omit env in
theorem h_b_eq (heap : ℤ → UInt8) {pixel : ℤ × ℤ} (inside : pixel ∈ frame w h) :
    h_b w h image heap (address w pixel) = erosion (raster image w) w h pixel :=
  (Scalar.paints_erode3x3 wide tall image).replay_inside
    (fun _ member => ⟨member.1, member.2.1⟩) heap inside

/-- What is stored last at a pixel compared. -/
theorem lastStored_stores {backEnd : BackEnd} (suited : Suited w h backEnd) {pixel : ℤ × ℤ}
    (member : pixel ∈ backEnd.window w h) :
    lastStored (env.stores image backEnd) (address w pixel) =
      some (env.value image pixel backEnd) := by
  have paints := env.paints_stores image wide tall suited
  have stored := window_subset wide member
  apply lastStored_of_stored
  · exact (paints _ _).mpr ⟨pixel, stored, rfl, rfl⟩
  · intro other found
    obtain ⟨q, within, same, rfl⟩ := (paints _ _).mp found
    have framed := region_subset stored
    have framedOther := region_subset within
    rw [address_injective framed.1 framed.2.1 framedOther.1 framedOther.2.1 same]

/-- What is stored last there is what the scalar implementation leaves. -/
theorem lastStored_stores_eq_h_b {backEnd : BackEnd} (suited : Suited w h backEnd)
    (regular : backEnd = .tidsp → env.Regular image) (heap : ℤ → UInt8) {pixel : ℤ × ℤ}
    (member : pixel ∈ backEnd.window w h) :
    lastStored (env.stores image backEnd) (address w pixel) =
      some (h_b w h image heap (address w pixel)) := by
  have inside := region_subset (window_subset wide member)
  rw [env.lastStored_stores image wide tall suited member, h_b_eq image wide tall heap inside,
    env.value_eq_erosion image wide suited regular inside]

/-- What the back ends store when some of them, whose calls to a platform fail, store
something else. -/
def storesUnless (failed : BackEnd → Option (List (ℤ × UInt8))) (backEnd : BackEnd) :
    List (ℤ × UInt8) :=
  (failed backEnd).getD (env.stores image backEnd)

/-- The exit status tells whether the DSP, if there is one, is regular. -/
theorem runStages_status_eq_zero_iff {platform : Platform} (heapB heapC : ℤ → UInt8)
    (suited : ∀ backEnd, BackEnd.isBuilt platform backEnd = true → Suited w h backEnd) :
    (runStages w h (h_b w h image heapB) (stages platform (env.stores image))
        heapC).status = 0 ↔ (platform.clMemUseMsmcTi = true → env.Regular image) := by
  rw [status_eq_zero_iff]
  · constructor
    · intro right dsp
      have built : BackEnd.isBuilt platform .tidsp = true := dsp
      rw [← env.value_dsp_eq_iff image wide (suited _ built)]
      intro pixel inside
      have same := right ⟨.tidsp, env.stores image .tidsp⟩ (mem_stages.mpr ⟨built, rfl⟩) pixel
        inside
      rw [env.lastStored_stores image wide tall (suited _ built) inside,
        h_b_eq image wide tall heapB inside] at same
      exact Option.some.inj same
    · intro regular stage listed pixel member
      obtain ⟨built, stored⟩ := mem_stages.mp listed
      rw [stored]
      exact env.lastStored_stores_eq_h_b image wide tall (suited _ built)
        (fun dsp => regular (by rw [dsp] at built; exact built)) heapB member
  · intro stage listed pixel member
    obtain ⟨built, stored⟩ := mem_stages.mp listed
    rw [stored, env.lastStored_stores image wide tall (suited _ built) member, Option.isSome_some]

end Environment

theorem main_eq_runStages (platform : Platform) (stores : BackEnd → List (ℤ × UInt8))
    (heapB heapC : ℤ → UInt8) :
    main platform stores heapB heapC =
      runStages 320 240 (h_b 320 240 h_a heapB) (stages platform stores) heapC := rfl

/-- The image of `main` suits all back ends. -/
theorem suited_main (backEnd : BackEnd) : Environment.Suited 320 240 backEnd := by
  cases backEnd <;> simp [Environment.Suited]

/-- **When the test program succeeds.** On every platform no call to which fails, with every
order of the work-items and whatever memory held before, the exit status is zero exactly
when there is no DSP, or each of its compute units gets at least three or at most one of the
240 rows, or what follows the image is harmless. -/
theorem main_status_eq_zero_iff (platform : Platform) (env : Environment 320 240)
    (heapB heapC : ℤ → UInt8) :
    (main platform (env.stores h_a) heapB heapC).status = 0 ↔
      (platform.clMemUseMsmcTi = true →
        (env.chunks ≤ 80 ∨ 120 < env.chunks) ∨
          TiDsp.HarmlessBelow (env.dspSource h_a) 320 240) := by
  have several := env.several
  have pair : 240 / env.chunks ≠ 2 ↔ env.chunks ≤ 80 ∨ 120 < env.chunks := by
    have quotient : 240 / env.chunks = 2 ↔ 2 * env.chunks ≤ 240 ∧ 240 < 3 * env.chunks := by
      rw [Int.ediv_eq_iff_of_pos (by omega)]
      omega
    rw [ne_eq, quotient]
    omega
  have status := env.runStages_status_eq_zero_iff h_a (by decide) (by decide) heapB heapC
    fun backEnd (_ : BackEnd.isBuilt platform backEnd = true) => suited_main backEnd
  rw [main_eq_runStages, status, Environment.Regular, pair]

end ErodeTest.Main
