import MoltenPour.ClampAgreement
import MoltenPour.MetaballRig

/-! What a rig reports, against the ceilings of the clamp that reads it. The
clamp sees the hold in whole milliseconds. -/
namespace MoltenPour.RigReport
open NumberFormat Artifact ClampAgreement MetaballRig
variable {K : Type} [Field K] [LinearOrder K] [IsStrictOrderedRing K] [FloorRing K] [SquareRoot K]

def reportedS (rig : Rig K) : K := ⌊rig.holdMs⌋ / 1000

structure Held (rig : Rig K) : Prop where
  nonneg : 0 ≤ rig.holdMs
  stop : rig.holdMs ≤ 15000

omit [SquareRoot K] in
theorem Held.reported {rig : Rig K} (held : Held rig) : (0 : K) ≤ ⌊rig.holdMs⌋ :=
  Int.cast_nonneg (Int.floor_nonneg.mpr held.nonneg)

omit [SquareRoot K] in
theorem Held.reportedNonneg {rig : Rig K} (held : Held rig) : 0 ≤ reportedS rig :=
  div_nonneg held.reported (by norm_num)

omit [FloorRing K] [SquareRoot K] in
theorem heldStart (tier : Tier K) (random : Stream' K) : Held (createRig tier random) := by
  constructor <;> norm_num [createRig]

theorem heldStep {rig : Rig K} {f : Frame K} (held : Held rig) (forward : 0 < f.dtMs) :
    Held (stepRig rig f) := by
  have clocks := (stepClocks rig f).1
  split at clocks
  · have hold : (stepRig rig f).holdMs = min (rig.holdMs + f.dtMs) 15000 := by
      rw [clocks,takeStream,ClientPipeline.SIM.maxPourMs]
      norm_num
    constructor
    · rw [hold]
      exact le_min (add_nonneg held.nonneg forward.le) (by norm_num)
    · rw [hold]
      exact min_le_right ..
  · exact ⟨clocks ▸ held.nonneg,clocks ▸ held.stop⟩

theorem holdGrows {rig : Rig K} {f : Frame K} (held : Held rig) (forward : 0 < f.dtMs) :
    reportedS rig ≤ reportedS (stepRig rig f) := by
  have longer : rig.holdMs ≤ (stepRig rig f).holdMs := by
    rw [(stepClocks rig f).1]
    split
    · refine le_min (le_add_of_nonneg_right forward.le) (held.stop.trans ?_)
      norm_num [ClientPipeline.SIM.maxPourMs]
    · rfl
  exact div_le_div_of_nonneg_right (Int.cast_le.mpr (Int.floor_le_floor longer)) (by norm_num)

theorem heldPlay {rig : Rig K} (held : Held rig) {frames : List (Frame K)}
    (forward : ∀ f ∈ frames, 0 < f.dtMs) : Held (play frames rig) := by
  induction frames generalizing rig with
  | nil => exact held
  | cons f rest ih =>
    have first := heldStep held (forward f (by simp))
    exact ih first fun g mem => forward g (by simp [mem])

theorem coveredHold {rig : Rig K} (held : Held rig) {wallClockMs : Num K}
    (covered : (telemetryOf rig).holdMs ≤ wallClockMs) :
    0 ≤ wallClockMs ∧ ServerPipeline.heldS (telemetryOf rig) wallClockMs = reportedS rig := by
  have stop : (⌊rig.holdMs⌋ : K) ≤ 15000 := (Int.floor_le _).trans held.stop
  have hard : Format.literal ServerPipeline.simMaxPourMs = (15000 : K) := by
    change ((ServerPipeline.simMaxPourMs : ℚ) : K) = _
    norm_num [ServerPipeline.simMaxPourMs]
  have claim : (telemetryOf rig).holdMs = .fin (⌊rig.holdMs⌋ : K) := rfl
  obtain ⟨clock,-,whole⟩ := ServerPipeline.heldGranted claim held.reported (stop.trans hard.ge) covered
  refine ⟨clock,?_⟩
  unfold ServerPipeline.heldS
  rw [whole]
  change (⌊rig.holdMs⌋ : K) / ((1000 : ℚ) : K) = _
  norm_num [reportedS]

omit [IsStrictOrderedRing K] [FloorRing K] [SquareRoot K] in
theorem claimListed {x ceiling : K} (nonneg : 0 ≤ ceiling) : ceiling < sane (.fin x) ↔ ceiling < x := by
  rw [show sane (.fin x) = max 0 x from rfl,lt_max_iff,or_iff_right nonneg.not_gt]

section Listed
variable {rig : Rig K} (held : Held rig) (tierIndex : ℤ) {wallClockMs : Num K}
  (covered : (telemetryOf rig).holdMs ≤ wallClockMs)
include held covered

theorem tiltListed :
    .tiltEnergy ∈ (ClientPipeline.clampTelemetry (telemetryOf rig) tierIndex wallClockMs).violations ↔
      6 * reportedS rig < rig.tiltEnergy := by
  obtain ⟨clock,reported⟩ := coveredHold held covered
  have ceiling : ServerPipeline.tiltCeiling (reportedS rig) = 6 * reportedS rig := by
    change ((ServerPipeline.simMaxTiltRate : ℚ) : K) * _ = _
    norm_num [ServerPipeline.simMaxTiltRate]
  rw [listedIff squaresAlike _ tierIndex clock,ceilingOf,reported,ceiling]
  exact claimListed (mul_nonneg (by norm_num) held.reportedNonneg)

theorem velocityListed :
    .peakVelocity ∈ (ClientPipeline.clampTelemetry (telemetryOf rig) tierIndex wallClockMs).violations ↔
      ServerPipeline.speedCeiling (reportedS rig) < rig.peakVelocity := by
  obtain ⟨clock,reported⟩ := coveredHold held covered
  rw [listedIff squaresAlike _ tierIndex clock,ceilingOf,reported]
  exact claimListed (ServerPipeline.speedCeilingNonneg held.reportedNonneg)

theorem dropletsListed :
    .dropletsLanded ∈ (ClientPipeline.clampTelemetry (telemetryOf rig) tierIndex wallClockMs).violations ↔
      ⌈(ClientPipeline.tierFlow (ClientPipeline.clampTierIndex tierIndex) : K) * reportedS rig * 1.15⌉ <
        (rig.dropletsLanded : ℤ) := by
  obtain ⟨clock,reported⟩ := coveredHold held covered
  have tolerance : ((ServerPipeline.simDropletTolerar : ℚ) : K) = 1.15 := by
    norm_num [ServerPipeline.simDropletTolerar]
  have ceiling := dropletCeilingWhole tierIndex (reportedS rig)
  have whole := ServerPipeline.dropletCeilingNonneg held.reportedNonneg exactCeil tierIndex
  rw [tolerance,← tierAgrees] at ceiling
  rw [listedIff squaresAlike _ tierIndex clock,ceilingOf,reported,
    show (telemetryOf rig).claim .dropletsLanded = .fin (rig.dropletsLanded : K) from rfl,
    claimListed whole,ceiling,← Int.cast_natCast,Int.cast_lt]
  rfl

end Listed
end MoltenPour.RigReport
