import MoltenPour.ReachableRarity

/-! The clamp as a projection. What it returns is legal, finite values under the
ceilings of their own hold; whatever is legal it returns, and lists nothing. -/
namespace MoltenPour.ClampProjection
open NumberFormat Artifact ClampAgreement ReachableRarity

structure Reading (K : Type) where
  droplets : K
  velocity : K
  tilt : K
  hold : K

def Reading.report {K : Type} (r : Reading K) : Telemetry K :=
  ⟨.fin r.droplets,.fin r.velocity,.fin r.tilt,.fin r.hold⟩

section Definitions
variable {K : Type} [LinearOrder K] [Zero K] [Format K]

def seconds (ms : K) : K := Format.div ms (Format.literal 1000)

structure Legal (tierIndex : ℤ) (r : Reading K) : Prop where
  droplets : 0 ≤ r.droplets ∧ r.droplets ≤ ServerPipeline.dropletCeiling tierIndex (seconds r.hold)
  velocity : 0 ≤ r.velocity ∧ r.velocity ≤ ServerPipeline.speedCeiling (seconds r.hold)
  tilt : 0 ≤ r.tilt ∧ r.tilt ≤ ServerPipeline.tiltCeiling (seconds r.hold)
  hold : 0 ≤ r.hold ∧ r.hold ≤ Format.literal ServerPipeline.simMaxPourMs

def clamped (raw : Telemetry K) (tierIndex : ℤ) (wallClockMs : Num K) : Reading K :=
  let h := ServerPipeline.heldS raw wallClockMs
  ⟨min (sane raw.dropletsLanded) (ServerPipeline.dropletCeiling tierIndex h),
    min (sane raw.peakVelocity) (ServerPipeline.speedCeiling h),
    min (sane raw.tiltEnergy) (ServerPipeline.tiltCeiling h),
    ServerPipeline.heldMs raw wallClockMs⟩

/- The ceiling a field is cut to: the hold has the clock's, the others the hold's. -/
def bound (ceilings : Ceilings K) (hold : Num K) : Field → Num K
  | .dropletsLanded => ceilings.maxDroplets
  | .peakVelocity => ceilings.maxSpeed
  | .tiltEnergy => ceilings.maxTilt
  | .holdMs => hold

structure Projected {L : Type} (name : Field → L) (raw out : Telemetry K) (ceiling : Field → Num K)
    (listed : List L) : Prop where
  low : ∀ key, 0 ≤ out.claim key
  high : ∀ key, out.claim key ≤ ceiling key
  excess : ∀ key, name key ∈ listed ↔ ceiling key < .fin (sane (raw.claim key))
  moved : ∀ key, name key ∈ listed ↔ out.claim key ≠ .fin (sane (raw.claim key))
  once : listed.Nodup
  fields : ∀ l ∈ listed, ∃ key, l = name key

theorem clampedReport (raw : Telemetry K) (tierIndex : ℤ) {wallClockMs : Num K}
    (nonneg : 0 ≤ wallClockMs) :
    (ServerPipeline.clampTelemetry raw tierIndex wallClockMs).telemetry =
      (clamped raw tierIndex wallClockMs).report := ServerPipeline.clampTelemetryFin raw tierIndex nonneg

theorem legalHeld {tierIndex : ℤ} {r : Reading K} (legal : Legal tierIndex r) {later : Num K}
    (covered : .fin r.hold ≤ later) :
    0 ≤ later ∧ r.hold ≤ ServerPipeline.allowance later ∧
      ServerPipeline.heldMs r.report later = r.hold := by
  have claim : r.report.holdMs = .fin r.hold := rfl
  exact ServerPipeline.heldGranted claim legal.hold.1 legal.hold.2 covered

theorem takeKept (key : String) {x m : K} (nonneg : 0 ≤ x) (under : x ≤ m)
    (violations : Option (List String)) :
    ServerPipeline.take key (.fin x) (.fin m) violations = (.fin x,violations) := by
  have claimed : sane (.fin x) = x := max_eq_right nonneg
  rw [ServerPipeline.takeFin,claimed,min_eq_left under,if_neg under.not_gt]

theorem legalKept {tierIndex : ℤ} {r : Reading K} (legal : Legal tierIndex r) {later : Num K}
    (covered : .fin r.hold ≤ later) :
    ServerPipeline.clampTelemetry r.report tierIndex later = ⟨r.report,none⟩ := by
  obtain ⟨nonneg,granted,held⟩ := legalHeld legal covered
  have second : ServerPipeline.heldS r.report later = seconds r.hold := by
    unfold ServerPipeline.heldS
    rw [held]
    rfl
  rw [ServerPipeline.clampFin r.report tierIndex nonneg,second]
  simp only [Reading.report]
  rw [takeKept "holdMs" legal.hold.1 granted,
    takeKept "dropletsLanded" legal.droplets.1 legal.droplets.2,
    takeKept "peakVelocity" legal.velocity.1 legal.velocity.2,
    takeKept "tiltEnergy" legal.tilt.1 legal.tilt.2]

section Settled
variable (ceils : ∀ x : K, 0 ≤ x → 0 ≤ Format.ceil x) (raw : Telemetry K) (tierIndex : ℤ)
  {wallClockMs later : Num K} (nonneg : 0 ≤ wallClockMs)
include ceils nonneg

theorem clampedLegal : Legal tierIndex (clamped raw tierIndex wallClockMs) := by
  have second := ServerPipeline.heldSNonneg raw nonneg
  refine ⟨⟨le_min (saneNonneg _) ?_,min_le_right ..⟩,⟨le_min (saneNonneg _) ?_,min_le_right ..⟩,
    ⟨le_min (saneNonneg _) ?_,min_le_right ..⟩,ServerPipeline.heldMsNonneg raw nonneg,
    ServerPipeline.heldStopped ..⟩
  · exact ServerPipeline.dropletCeilingNonneg second ceils tierIndex
  · exact ServerPipeline.speedCeilingNonneg second
  · exact ServerPipeline.tiltCeilingNonneg second

theorem clampSettled
    (covered : (ServerPipeline.clampTelemetry raw tierIndex wallClockMs).telemetry.holdMs ≤ later) :
    ServerPipeline.clampTelemetry (ServerPipeline.clampTelemetry raw tierIndex wallClockMs).telemetry
      tierIndex later = ⟨(ServerPipeline.clampTelemetry raw tierIndex wallClockMs).telemetry,none⟩ := by
  rw [clampedReport raw tierIndex nonneg] at covered ⊢
  exact legalKept (clampedLegal ceils raw tierIndex nonneg) covered

end Settled

end Definitions

section Listed
variable {K : Type} [LinearOrder K] [Zero K] [Format K]

theorem takeOnce {key : Field} {value : Num K} {m : K} {violations : List Field}
    (once : violations.Nodup) (fresh : key ∉ violations) :
    (ClientPipeline.take key value (.fin m) violations).2.Nodup := by
  rw [ClientPipeline.takeFin]
  split
  · exact List.nodup_append.mpr ⟨once,List.nodup_singleton key,fun a mem b here same =>
      fresh (List.mem_singleton.mp here ▸ same ▸ mem)⟩
  · exact once

theorem listedOnce (squares : SquaresAlike K) (raw : Telemetry K) (tierIndex : ℤ) {wallClockMs : Num K}
    (nonneg : 0 ≤ wallClockMs) :
    (ClientPipeline.clampTelemetry raw tierIndex wallClockMs).violations.Nodup := by
  rw [clientClamp squares raw tierIndex nonneg]
  refine takeOnce (takeOnce (takeOnce (takeOnce List.nodup_nil ?_) ?_) ?_) ?_
  all_goals simp [takeListed]

omit [Zero K] [Format K] in
theorem keysNamed (violations : List Field) :
    (keys violations).getD [] = violations.map Field.name := by
  cases violations with
  | nil => rfl
  | cons first rest => rfl

theorem nameInj : Function.Injective Field.name := by
  intro a b same
  cases a <;> cases b <;> first | rfl | exact absurd same (by decide)

theorem projectedNamed {raw out : Telemetry K} {ceiling : Field → Num K} {listed : List Field}
    (client : Projected id raw out ceiling listed) :
    Projected Field.name raw out ceiling (listed.map Field.name) := by
  have named : ∀ key, key.name ∈ listed.map Field.name ↔ id key ∈ listed :=
    fun key => List.mem_map_of_injective nameInj
  refine ⟨client.low,client.high,?excess,?moved,client.once.map nameInj,?fields⟩
  case excess => exact fun key => (named key).trans (client.excess key)
  case moved => exact fun key => (named key).trans (client.moved key)
  case fields =>
    intro l mem
    obtain ⟨key,-,rfl⟩ := List.mem_map.mp mem
    exact ⟨key,rfl⟩

end Listed

section Exact
variable {K : Type} [Field K] [LinearOrder K] [IsStrictOrderedRing K] [FloorRing K] [SquareRoot K]

theorem clampedClaim (raw : Telemetry K) (tierIndex : ℤ) {wallClockMs : Num K}
    (nonneg : 0 ≤ wallClockMs) (key : Field) :
    (ServerPipeline.clampTelemetry raw tierIndex wallClockMs).telemetry.claim key =
      .fin (min (sane (raw.claim key)) (ceilingOf raw tierIndex wallClockMs key)) := by
  rw [clampedReport raw tierIndex nonneg]
  cases key <;> rfl

theorem ceilingNonneg (raw : Telemetry K) (tierIndex : ℤ) {wallClockMs : Num K}
    (nonneg : 0 ≤ wallClockMs) (key : Field) : 0 ≤ ceilingOf raw tierIndex wallClockMs key := by
  have second := ServerPipeline.heldSNonneg raw nonneg
  cases key with
  | dropletsLanded => exact ServerPipeline.dropletCeilingNonneg second exactCeil tierIndex
  | peakVelocity => exact ServerPipeline.speedCeilingNonneg second
  | tiltEnergy => exact ServerPipeline.tiltCeilingNonneg second
  | holdMs =>
    have room := ServerPipeline.heldMsNonneg (⟨0,0,0,.fin (ServerPipeline.allowance wallClockMs)⟩) nonneg
    exact (le_min_iff.mp room).2

theorem clampProjected (raw : Telemetry K) (tierIndex : ℤ) {wallClockMs : Num K}
    (nonneg : 0 ≤ wallClockMs) :
    Projected id raw (ServerPipeline.clampTelemetry raw tierIndex wallClockMs).telemetry
      (fun key => .fin (ceilingOf raw tierIndex wallClockMs key))
      (ClientPipeline.clampTelemetry raw tierIndex wallClockMs).violations := by
  have listed := listedIff squaresAlike raw tierIndex nonneg
  refine ⟨?low,?high,?excess,?moved,listedOnce squaresAlike raw tierIndex nonneg,fun l _ => ⟨l,rfl⟩⟩
  case low =>
    intro key
    rw [clampedClaim raw tierIndex nonneg,Num.zeroFin,Num.leFin]
    exact le_min (saneNonneg _) (ceilingNonneg raw tierIndex nonneg key)
  case high =>
    intro key
    rw [clampedClaim raw tierIndex nonneg,Num.leFin]
    exact min_le_right ..
  case excess =>
    intro key
    rw [Num.ltFin]
    exact listed key
  case moved =>
    intro key
    rw [clampedClaim raw tierIndex nonneg,Ne,Num.fin.injEq,min_eq_left_iff,not_le]
    exact listed key

theorem boundServer (raw : Telemetry K) (tierIndex : ℤ) {wallClockMs : Num K}
    (nonneg : 0 ≤ wallClockMs) :
    bound (ServerPipeline.telemetryCeilings tierIndex
        ((ServerPipeline.clampTelemetry raw tierIndex wallClockMs).telemetry.holdMs / 1000))
      (ServerPipeline.mathMin wallClockMs (Num.literal ServerPipeline.simMaxPourMs)) =
      fun key => .fin (ceilingOf raw tierIndex wallClockMs key) := by
  have second : (Num.fin (ServerPipeline.heldMs raw wallClockMs) / 1000 : Num K) =
      .fin (ServerPipeline.heldS raw wallClockMs) := ServerPipeline.perSecond _
  rw [clampedReport raw tierIndex nonneg,ServerPipeline.allowanceFin nonneg]
  simp only [Reading.report,clamped,second]
  rw [ServerPipeline.ceilingsFin tierIndex (ServerPipeline.heldSNonneg raw nonneg)]
  funext key
  cases key <;> rfl

theorem boundClient (raw : Telemetry K) (tierIndex : ℤ) {wallClockMs : Num K}
    (nonneg : 0 ≤ wallClockMs) :
    bound (ClientPipeline.telemetryCeilings tierIndex
        ((ServerPipeline.clampTelemetry raw tierIndex wallClockMs).telemetry.holdMs / 1000))
      (Num.min wallClockMs (Num.literal ClientPipeline.SIM.maxPourMs)) =
      fun key => .fin (ceilingOf raw tierIndex wallClockMs key) := by
  have second : (Num.fin (ServerPipeline.heldMs raw wallClockMs) / 1000 : Num K) =
      .fin (ServerPipeline.heldS raw wallClockMs) := ServerPipeline.perSecond _
  have server := boundServer raw tierIndex nonneg
  rw [ServerPipeline.allowanceFin nonneg] at server
  rw [clampedReport raw tierIndex nonneg] at server ⊢
  rw [allowanceAgrees nonneg]
  simp only [Reading.report,clamped,second] at server ⊢
  rw [ceilingsAgree squaresAlike]
  exact server

theorem sameTelemetry (raw : Telemetry K) (tierIndex : ℤ) {wallClockMs : Num K}
    (nonneg : 0 ≤ wallClockMs) :
    (ClientPipeline.clampTelemetry raw tierIndex wallClockMs).telemetry =
      (ServerPipeline.clampTelemetry raw tierIndex wallClockMs).telemetry :=
  (congrArg ServerPipeline.ClampResult.telemetry (clampsAgree squaresAlike raw tierIndex nonneg)).symm

omit [Field K] [IsStrictOrderedRing K] [FloorRing K] [SquareRoot K] in
theorem keysNone {violations : List Field} (none : keys violations = none) : violations = [] := by
  cases violations with
  | nil => rfl
  | cons first rest => contradiction

theorem clientKept {t : Telemetry K} {tierIndex : ℤ} {wallClockMs : Num K} (nonneg : 0 ≤ wallClockMs)
    (kept : ServerPipeline.clampTelemetry t tierIndex wallClockMs = ⟨t,none⟩) :
    ClientPipeline.clampTelemetry t tierIndex wallClockMs = ⟨t,[]⟩ := by
  have agree := clampsAgree squaresAlike t tierIndex nonneg
  rw [kept,ServerPipeline.ClampResult.mk.injEq] at agree
  obtain ⟨telemetry,listed⟩ := agree
  rw [ClientPipeline.ClampResult.mk.injEq]
  exact ⟨telemetry.symm,keysNone listed.symm⟩

end Exact

section Reals

theorem oneSecond : seconds (1000 : ℝ) = 1 := by
  have quotient : (1000 : ℝ) / ((1000 : ℚ) : ℝ) = 1 := by norm_num
  exact quotient

theorem secondLegal {tierIndex : ℤ} {droplets tilt : ℝ}
    (landed : 0 ≤ droplets ∧ droplets ≤ ServerPipeline.dropletCeiling tierIndex 1)
    (shaken : 0 ≤ tilt ∧ tilt ≤ 6) : Legal tierIndex ⟨droplets,0,tilt,1000⟩ := by
  have rate : ServerPipeline.tiltCeiling (1 : ℝ) = 6 := by
    have value : ((ServerPipeline.simMaxTiltRate : ℚ) : ℝ) * 1 = 6 := by
      norm_num [ServerPipeline.simMaxTiltRate]
    exact value
  have stop : (1000 : ℝ) ≤ ((ServerPipeline.simMaxPourMs : ℚ) : ℝ) := by
    norm_num [ServerPipeline.simMaxPourMs]
  refine ⟨?droplets,?velocity,?tilt,⟨by norm_num,stop⟩⟩
  case droplets => rwa [oneSecond]
  case velocity => exact ⟨le_rfl,oneSecond ▸ ServerPipeline.speedCeilingNonneg zero_le_one⟩
  case tilt => rwa [oneSecond,rate]

theorem clampProjects (raw : Telemetry ℝ) (tierIndex : ℤ) {wallClockMs : Num ℝ}
    (nonneg : 0 ≤ wallClockMs) :
    let client := ClientPipeline.clampTelemetry raw tierIndex wallClockMs
    let server := ServerPipeline.clampTelemetry raw tierIndex wallClockMs
    client.telemetry = server.telemetry ∧
    Projected id raw client.telemetry
      (bound (ClientPipeline.telemetryCeilings tierIndex (client.telemetry.holdMs / 1000))
        (Num.min wallClockMs (Num.literal ClientPipeline.SIM.maxPourMs))) client.violations ∧
    Projected Field.name raw server.telemetry
      (bound (ServerPipeline.telemetryCeilings tierIndex (server.telemetry.holdMs / 1000))
        (ServerPipeline.mathMin wallClockMs (Num.literal ServerPipeline.simMaxPourMs)))
      (server.violations.getD []) ∧
    ∀ later, client.telemetry.holdMs ≤ later →
      ClientPipeline.clampTelemetry client.telemetry tierIndex later = ⟨client.telemetry,[]⟩ ∧
      ServerPipeline.clampTelemetry client.telemetry tierIndex later = ⟨client.telemetry,none⟩ := by
  intro client server
  have same : client.telemetry = server.telemetry := sameTelemetry raw tierIndex nonneg
  have projected := clampProjected raw tierIndex nonneg
  have listed : server.violations.getD [] = client.violations.map Field.name := by
    have agree := congrArg ServerPipeline.ClampResult.violations
      (clampsAgree squaresAlike raw tierIndex nonneg)
    exact (congrArg (Option.getD · []) agree).trans (keysNamed client.violations)
  refine ⟨same,?client,?server,?again⟩
  case client =>
    rw [same,boundClient raw tierIndex nonneg]
    exact projected
  case server =>
    rw [listed,boundServer raw tierIndex nonneg]
    exact projectedNamed projected
  case again =>
    intro later covered
    rw [same] at covered ⊢
    have kept := clampSettled exactCeil raw tierIndex nonneg covered
    have clock : 0 ≤ later := by
      rw [clampedReport raw tierIndex nonneg] at covered
      exact (legalHeld (clampedLegal exactCeil raw tierIndex nonneg) covered).1
    exact ⟨clientKept clock kept,kept⟩

theorem nonsenseProjects :
    let out := (ServerPipeline.clampTelemetry ⟨.inf false,9000,.nan,20000⟩ 9 (2000 : Num ℝ)).telemetry
    ServerPipeline.clampTelemetry out 9 (.inf false) = ⟨out,none⟩ := by
  intro out
  have nonneg : (0 : Num ℝ) ≤ 2000 := Num.literalAtLeast (Nat.cast_nonneg 2000)
  obtain ⟨same,-,-,again⟩ := clampProjects ⟨.inf false,9000,.nan,20000⟩ 9 nonneg
  rw [same] at again
  refine (again (.inf false) ?_).2
  rw [clampedReport _ 9 nonneg]
  rfl

end Reals
end MoltenPour.ClampProjection
