import MoltenPour.ClampAgreement
import MoltenPour.RigSettling

/-! A pour that is over. Settled, with the stream shut, its whole telemetry
stands; past the hard stop, all of it but the droplets still falling. -/
namespace MoltenPour.RigFrozen
open NumberFormat Artifact MetaballRig RigWatch RigSettling

section Field
variable {K : Type} [Field K] [LinearOrder K] [FloorRing K] [SquareRoot K]

inductive Act (K : Type) where
  | step (f : Frame K)
  | reset

def act (rig : Rig K) : Act K → Rig K
  | .step f => stepRig rig f
  | .reset => resetRig rig

def drive (acts : List (Act K)) (rig : Rig K) : Rig K := acts.foldl act rig

structure Spent (before after : Rig K) : Prop where
  hold : after.holdMs = before.holdMs
  tilt : after.tiltEnergy = before.tiltEnergy
  peak : after.peakVelocity = before.peakVelocity

def Honest (rig : Rig K) : Prop := rig.finished = true → ClientPipeline.SIM.maxPourMs ≤ rig.holdMs

theorem honestStep (rig : Rig K) (f : Frame K) : Honest (stepRig rig f) := by
  intro finished
  rw [stepFinished,decide_eq_true_iff] at finished
  exact finished

theorem honestDrive {rig : Rig K} (start : Honest rig) (acts : List (Act K)) : Honest (drive acts rig) := by
  induction acts generalizing rig with
  | nil => exact start
  | cons first rest ih =>
    cases first with
    | step f => exact ih (honestStep rig f)
    | reset => exact ih fun finished => absurd finished Bool.false_ne_true

omit [FloorRing K] [SquareRoot K] in
theorem honestStart (tier : Tier K) (random : Stream' K) : Honest (createRig tier random) :=
  fun finished => absurd finished Bool.false_ne_true

theorem shutSpent {rig : Rig K} {f : Frame K} (shut : takes rig f = false) : Spent rig (stepRig rig f) := by
  obtain ⟨hold,tilt⟩ := stepClocks rig f
  rw [shut,if_neg Bool.false_ne_true] at hold tilt
  have peak := stepSlotsKeep Rig.peakVelocity f (takes rig f)
    (fun t i => if_neg fun sampled => absurd (shut ▸ sampled.2.1) Bool.false_ne_true) (pour f (ease f rig))
  refine ⟨hold,tilt,peak.trans ?_⟩
  rw [pourShut shut]
  rfl

theorem finishedStep {rig : Rig K} (honest : Honest rig) (finished : rig.finished = true) (f : Frame K) :
    Spent rig (stepRig rig f) ∧ (stepRig rig f).finished = true := by
  have shut : takes rig f = false := by simp [takes,finished]
  have spent := shutSpent shut
  refine ⟨spent,?_⟩
  rw [stepFinished,decide_eq_true_iff,spent.hold]
  exact honest finished

theorem finishedSpent {rig : Rig K} (honest : Honest rig) (finished : rig.finished = true)
    (frames : List (Frame K)) : Spent rig (play frames rig) ∧ (play frames rig).finished = true := by
  induction frames generalizing rig with
  | nil => exact ⟨⟨rfl,rfl,rfl⟩,finished⟩
  | cons f rest ih =>
    obtain ⟨first,still⟩ := finishedStep honest finished f
    obtain ⟨later,last⟩ := ih (honestStep rig f) still
    exact ⟨⟨later.hold.trans first.hold,later.tilt.trans first.tilt,later.peak.trans first.peak⟩,last⟩

theorem stillPlay {rig : Rig K} (still : Still rig) {frames : List (Frame K)}
    (shut : ∀ f ∈ frames, f.pouring = false) :
    Still (play frames rig) ∧ telemetryOf (play frames rig) = telemetryOf rig := by
  induction frames generalizing rig with
  | nil => exact ⟨still,rfl⟩
  | cons f rest ih =>
    have closed : takes rig f = false := by simp [takes,shut f (by simp)]
    have next := groundedSettles still.grounded still.held closed
    obtain ⟨last,report⟩ := ih next fun g mem => shut g (by simp [mem])
    exact ⟨last,report.trans (stillReport still closed)⟩

end Field

section Exact
variable {K : Type} [Field K] [LinearOrder K] [IsStrictOrderedRing K] [FloorRing K] [SquareRoot K]

structure Frozen (before after : Rig K) : Prop where
  settled : isSettled after false = true
  telemetry : telemetryOf after = telemetryOf before
  seed : ∀ tierIndex amountCents timestampMs : ℤ,
    ClientPipeline.hashSeed ⟨tierIndex,amountCents,timestampMs,telemetryOf after⟩ =
      ClientPipeline.hashSeed ⟨tierIndex,amountCents,timestampMs,telemetryOf before⟩
  rarity : ∀ tierIndex : ℤ, ClientPipeline.classify (telemetryOf after) tierIndex =
    ClientPipeline.classify (telemetryOf before) tierIndex

theorem pourFrozen (tier : Tier K) (random : Stream' K) (acts : List (Act K)) :
    (∀ f, isSettled (stepRig (drive acts (createRig tier random)) f) false = true →
      ∀ frames : List (Frame K), (∀ g ∈ frames, g.pouring = false) →
        Frozen (stepRig (drive acts (createRig tier random)) f)
          (play frames (stepRig (drive acts (createRig tier random)) f))) ∧
    ((drive acts (createRig tier random)).finished = true →
      ∀ frames : List (Frame K), Spent (drive acts (createRig tier random))
        (play frames (drive acts (createRig tier random)))) := by
  refine ⟨?settled,?finished⟩
  case settled =>
    intro f settled frames shut
    obtain ⟨still,report⟩ := stillPlay (settledStill settled).2 shut
    refine ⟨stillSettled still,report,fun _ _ _ => ?_,fun _ => ?_⟩
    · rw [report]
    · rw [report]
  case finished =>
    intro finished frames
    exact (finishedSpent (honestDrive (honestStart tier random) acts) finished frames).1

end Exact

attribute [ext] Rig

def leaned (pouring : Bool) (dtMs : ℚ) : Frame ℚ := ⟨⟨pouring,1/4,TIERS 1⟩,dtMs,506,900,fun _ _ => 1⟩

def evenDraws : Stream' ℚ := fun _ => 1/2

def newRig : Rig ℚ := createRig (TIERS 1) evenDraws

def acts (pouring : Bool) (count : ℕ) : List (Act ℚ) := List.replicate count (.step (leaned pouring 50))

def midair : Rig ℚ :=
  { newRig with
    blobs := fun i => [⟨279.99,489,11.25,900,22,false⟩,⟨279.4275,444,11.25,830,22,false⟩,
      ⟨278.865,402.5,11.25,760,22,false⟩,⟨278.3025,364.5,11.25,690,22,false⟩].getD i freeSlot
    cursor := ⟨4,by decide⟩
    holdMs := 300
    peakVelocity := 410
    tiltEnergy := 9/20
    alive := 4
    airborne := 4
    random := (drive (acts true 6 ++ acts false 7) newRig).random }

theorem midairReached : drive (acts true 6 ++ acts false 7) newRig = midair := by
  apply Rig.ext
  case random => simp only [midair]
  all_goals decide +kernel

/- Four droplets are in the air when the stream shuts and land after it; sixty leaning frames later
   nothing has moved. The other pour runs into the hard stop, its stream still open. -/
theorem longFrozen :
    ((drive (acts true 6) newRig).dropletsLanded = 0 ∧
      let rig := stepRig (drive (acts true 6 ++ acts false 15) newRig) (leaned false 50)
      rig.dropletsLanded = 4 ∧ Frozen rig (play (List.replicate 60 (leaned false 50)) rig)) ∧
    let rig := drive [.step (leaned true 15000)] newRig
    rig.finished = true ∧ Spent rig (play (List.replicate 60 (leaned true 50)) rig) := by
  have whole : drive (acts true 6 ++ acts false 15) newRig = drive (acts false 8) midair := by
    have more : acts true 6 ++ acts false 15 = (acts true 6 ++ acts false 7) ++ acts false 8 := rfl
    rw [more,← midairReached]
    exact List.foldl_append
  refine ⟨⟨by decide +kernel,?landed,?settled⟩,?finished⟩
  case landed =>
    rw [whole]
    decide +kernel
  case settled =>
    refine (pourFrozen (TIERS 1) evenDraws (acts true 6 ++ acts false 15)).1 (leaned false 50) ?_ _ ?_
    · change isSettled (stepRig (drive (acts true 6 ++ acts false 15) newRig) (leaned false 50)) false = true
      rw [whole]
      decide +kernel
    · intro g mem
      rw [List.eq_of_mem_replicate mem]
      rfl
  case finished =>
    have finished : (drive [.step (leaned true 15000)] newRig).finished = true := by decide +kernel
    exact ⟨finished,(pourFrozen (TIERS 1) evenDraws _).2 finished _⟩

end MoltenPour.RigFrozen
