import MoltenPour.RigReport

/-! The tilt of an honest pour. Tilt adds up over capped frames, the hold over
raw ones, and the report drops the fraction of a millisecond. -/
namespace MoltenPour.RigTilt
open NumberFormat Artifact ClientPipeline MetaballRig RigReport
variable {K : Type} [Field K] [LinearOrder K] [FloorRing K] [SquareRoot K]

def taken : K → List (Frame K) → List (Frame K)
  | _,[] => []
  | held,f::rest =>
      if f.pouring ∧ held < SIM.maxPourMs then f::taken (held + f.dtMs) rest else taken held rest

def totalMs (frames : List (Frame K)) : K := (frames.map Frame.dtMs).sum

def leanedMs (f : Frame K) : K := min |f.lean| 1 * min f.dtMs MAX_FRAME_MS

def sparedMs (frames : List (Frame K)) : K := (frames.map fun f => f.dtMs - leanedMs f).sum

/- What the report drops: the last fraction, and any overshoot of the hard stop. -/
def droppedMs (frames : List (Frame K)) : K := totalMs frames - ⌊min (totalMs frames) SIM.maxPourMs⌋

variable [IsStrictOrderedRing K]

structure Clocked (rig : Rig K) (held : K) : Prop where
  hold : rig.holdMs = min held 15000
  finished : rig.finished = decide (15000 ≤ held)

omit [FloorRing K] [SquareRoot K] in
theorem clockedStart (tier : Tier K) (random : Stream' K) : Clocked (createRig tier random) 0 := by
  constructor <;> norm_num [createRig]

omit [IsStrictOrderedRing K] [FloorRing K] [SquareRoot K] in
theorem takesIff {rig : Rig K} {held : K} (clocked : Clocked rig held) (f : Frame K) :
    takes rig f = true ↔ f.pouring = true ∧ held < SIM.maxPourMs := by
  have stop : ((SIM.maxPourMs : ℚ) : K) = 15000 := by norm_num [SIM.maxPourMs]
  simp [takes,clocked.finished,stop]

theorem clockedStep {rig : Rig K} {held : K} (clocked : Clocked rig held) {f : Frame K}
    (forward : 0 < f.dtMs) :
    (takes rig f = true → Clocked (stepRig rig f) (held + f.dtMs) ∧
      (stepRig rig f).tiltEnergy = rig.tiltEnergy + 6 * leanedMs f / 1000) ∧
    (takes rig f = false → Clocked (stepRig rig f) held ∧
      (stepRig rig f).tiltEnergy = rig.tiltEnergy) := by
  have stop : ((SIM.maxPourMs : ℚ) : K) = 15000 := by norm_num [SIM.maxPourMs]
  obtain ⟨hold,tilt⟩ := stepClocks rig f
  have finished := stepFinished rig f
  rw [stop] at finished
  constructor
  · intro opened
    rw [if_pos opened] at hold tilt
    have added : (stepRig rig f).holdMs = min (held + f.dtMs) 15000 := by
      rw [hold]
      change min (rig.holdMs + f.dtMs) SIM.maxPourMs = _
      rw [clocked.hold,stop]
      rcases le_total held 15000 with before | after
      · rw [min_eq_left before]
      · rw [min_eq_right after,min_eq_right (by linarith),min_eq_right (by linarith)]
    refine ⟨⟨added,?_⟩,?_⟩
    · simp [finished,added]
    · rw [tilt]
      change rig.tiltEnergy + min |f.lean| 1 * SIM.maxTiltRate * frameS f = _
      rw [leanedMs,frameS,SIM.maxTiltRate]
      push_cast
      ring
  · intro shut
    rw [if_neg (by simp [shut])] at hold tilt
    refine ⟨⟨hold.trans clocked.hold,?_⟩,tilt⟩
    simp [finished,hold,clocked.hold]

theorem clockedPlay {rig : Rig K} {held : K} (clocked : Clocked rig held) {frames : List (Frame K)}
    (forward : ∀ f ∈ frames, 0 < f.dtMs) :
    (play frames rig).holdMs = min (held + totalMs (taken held frames)) 15000 ∧
    (play frames rig).tiltEnergy =
      rig.tiltEnergy + 6 * ((taken held frames).map leanedMs).sum / 1000 := by
  induction frames generalizing rig held with
  | nil => simp [play,taken,totalMs,clocked.hold]
  | cons f rest ih =>
    have step := clockedStep clocked (forward f (by simp))
    have later : ∀ g ∈ rest, 0 < g.dtMs := fun g mem => forward g (by simp [mem])
    by_cases opened : takes rig f = true
    · obtain ⟨next,tilt⟩ := step.1 opened
      obtain ⟨hold,sum⟩ := ih next later
      rw [taken,if_pos ((takesIff clocked f).mp opened)]
      constructor
      · rw [play,List.foldl_cons,← play,hold,totalMs,totalMs,List.map_cons,List.sum_cons,add_assoc]
      · rw [play,List.foldl_cons,← play,sum,tilt,List.map_cons,List.sum_cons]
        ring
    · obtain ⟨next,tilt⟩ := step.2 (by simpa using opened)
      obtain ⟨hold,sum⟩ := ih next later
      rw [taken,if_neg (fun both => opened ((takesIff clocked f).mpr both))]
      constructor
      · rw [play,List.foldl_cons,← play,hold]
      · rw [play,List.foldl_cons,← play,sum,tilt]

omit [FloorRing K] [SquareRoot K] [IsStrictOrderedRing K] in
theorem leanedAndSpared (frames : List (Frame K)) :
    (frames.map leanedMs).sum = totalMs frames - sparedMs frames := by
  induction frames with
  | nil => simp [totalMs,sparedMs]
  | cons f rest ih =>
    simp only [totalMs,sparedMs,List.map_cons,List.sum_cons] at ih ⊢
    rw [ih]
    ring

theorem tiltWithinHold (tier : Tier K) (random : Stream' K) {frames : List (Frame K)}
    (forward : ∀ f ∈ frames, 0 < f.dtMs) :
    let rig := play frames (createRig tier random)
    rig.tiltEnergy ≤ SIM.maxTiltRate * ⌊rig.holdMs⌋ / 1000 ↔
      droppedMs (taken 0 frames) ≤ sparedMs (taken 0 frames) := by
  intro rig
  obtain ⟨hold,tilt⟩ := clockedPlay (clockedStart tier random) forward
  have stop : ((SIM.maxPourMs : ℚ) : K) = 15000 := by norm_num [SIM.maxPourMs]
  have rate : ((SIM.maxTiltRate : ℚ) : K) = 6 := by norm_num [SIM.maxTiltRate]
  have start : (createRig tier random).tiltEnergy = 0 := rfl
  rw [zero_add] at hold
  rw [start,zero_add,leanedAndSpared] at tilt
  rw [hold,tilt,droppedMs,stop,rate,div_le_div_iff_of_pos_right (by norm_num),
    mul_le_mul_iff_right₀ (by norm_num),sub_le_comm]

theorem tiltIff (tierIndex : Fin 6) (random : Stream' K) (frames : List (Frame K))
    (forward : ∀ f ∈ frames, 0 < f.dtMs) :
    let rig := play frames (createRig (TIERS tierIndex) random)
    (rig.tiltEnergy ≤ SIM.maxTiltRate * ⌊rig.holdMs⌋ / 1000 ↔
      droppedMs (taken 0 frames) ≤ sparedMs (taken 0 frames)) ∧
    ∀ wallClockMs : Num K, (telemetryOf rig).holdMs ≤ wallClockMs →
      (.tiltEnergy ∉ (clampTelemetry (telemetryOf rig) tierIndex wallClockMs).violations ↔
        droppedMs (taken 0 frames) ≤ sparedMs (taken 0 frames)) := by
  intro rig
  have within : rig.tiltEnergy ≤ SIM.maxTiltRate * ⌊rig.holdMs⌋ / 1000 ↔
      droppedMs (taken 0 frames) ≤ sparedMs (taken 0 frames) :=
    tiltWithinHold (TIERS tierIndex) random forward
  refine ⟨within,fun wallClockMs covered => ?_⟩
  have held : Held rig := heldPlay (heldStart ..) forward
  have rate : (SIM.maxTiltRate : K) * ⌊rig.holdMs⌋ / 1000 = 6 * reportedS rig := by
    rw [reportedS,SIM.maxTiltRate]
    push_cast
    ring
  rw [tiltListed held tierIndex covered,not_lt,← within,rate]

def swayed : List (Frame ℚ) :=
  [(true,16.5,0.5),(true,33.25,-0.75),(false,40,1),(true,50.5,1),(true,80,-1)].map
    fun (pouring,dtMs,lean) => ⟨⟨pouring,lean,TIERS 1⟩,dtMs,506,900,fun _ _ => 1⟩

theorem tiltSwayed :
    let rig := play swayed (createRig (TIERS 1) (makeRandom DEFAULT_SEED))
    rig.tiltEnergy = 0.799125 ∧
    .tiltEnergy ∉ (clampTelemetry (telemetryOf rig) 1 (.fin 200)).violations := by
  intro rig
  have forward : ∀ f ∈ swayed, 0 < f.dtMs := by decide +kernel
  have clocks := clockedPlay (clockedStart (TIERS 1) (makeRandom DEFAULT_SEED)) forward
  refine ⟨clocks.2.trans ?tilt,((tiltIff 1 (makeRandom DEFAULT_SEED) swayed forward).2 (.fin 200) ?covered).mpr
    ?within⟩
  case tilt => decide +kernel
  case covered =>
    have hold : rig.holdMs = 180.25 := clocks.1.trans (by decide +kernel)
    rw [telemetryOf,hold]
    exact (Num.leFin ..).mpr (by norm_num)
  case within => decide +kernel

def leaning : Frame ℚ := ⟨⟨true,1,TIERS 0⟩,16.5,506,900,fun _ _ => 1⟩

theorem tiltLeaning :
    let rig := play [leaning] (createRig (TIERS 0) (makeRandom DEFAULT_SEED))
    (0 < leaning.dtMs ∧ leaning.dtMs ≤ 100 ∧ |leaning.lean| ≤ 1) ∧
    ¬ rig.tiltEnergy ≤ SIM.maxTiltRate * ⌊rig.holdMs⌋ / 1000 ∧
    .tiltEnergy ∈ (clampTelemetry (telemetryOf rig) 0 (.fin 16)).violations := by
  intro rig
  have honest : 0 < leaning.dtMs ∧ leaning.dtMs ≤ 100 ∧ |leaning.lean| ≤ 1 := by
    norm_num [leaning]
  have forward : ∀ f ∈ [leaning], 0 < f.dtMs := by simpa using honest.1
  have clocks := clockedPlay (clockedStart (TIERS 0) (makeRandom DEFAULT_SEED)) forward
  have hold : rig.holdMs = 16.5 :=
    clocks.1.trans (by norm_num [totalMs,taken,leaning,SIM.maxPourMs])
  have tilt : rig.tiltEnergy = 0.099 :=
    clocks.2.trans (by norm_num [createRig,taken,leaning,SIM.maxPourMs,leanedMs,MAX_FRAME_MS])
  have whole : ⌊rig.holdMs⌋ = 16 := by
    rw [hold]
    norm_num
  refine ⟨honest,?bound,?listed⟩
  case bound => norm_num [tilt,whole,SIM.maxTiltRate]
  case listed =>
    have covered : (telemetryOf rig).holdMs ≤ (.fin 16 : Num ℚ) := by
      rw [telemetryOf,whole]
      exact (Num.leFin ..).mpr (by norm_num)
    have held : Held rig := heldPlay (heldStart ..) forward
    refine (tiltListed held 0 covered).mpr ?_
    norm_num [reportedS,tilt,whole]

end MoltenPour.RigTilt
