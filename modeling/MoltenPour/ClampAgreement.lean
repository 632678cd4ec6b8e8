import MoltenPour.ClientPipeline
import MoltenPour.ServerPipeline

/-! The two clamps, over any format in which both spellings of the squared
sideways speed come to the same value, and the two conversions to a word. -/
namespace MoltenPour.ClampAgreement
open NumberFormat Artifact
variable {K : Type} [LinearOrder K] [Zero K] [Format K]

/- The client multiplies, the server has the constant folded. -/
def SquaresAlike (K : Type) [LinearOrder K] [Zero K] [Format K] : Prop :=
  (Num.literal ClientPipeline.SIM.spawnVxMax * Num.literal ClientPipeline.SIM.spawnVxMax : Num K) =
    Num.literal (ServerPipeline.simSpawnVxMax * ServerPipeline.simSpawnVxMax)

section Exact
variable {K : Type} [Field K] [LinearOrder K] [IsStrictOrderedRing K] [FloorRing K] [SquareRoot K]

theorem squaresAlike : SquaresAlike K := congrArg Num.fin (Rat.cast_mul ..).symm

theorem exactCeil (a : K) (nonneg : 0 ≤ a) : 0 ≤ Format.ceil a := Int.ceil_nonneg nonneg

theorem dropletCeilingWhole (tierIndex : ℤ) (h : K) :
    ServerPipeline.dropletCeiling tierIndex h =
      (⌈(ServerPipeline.tierFlow (ServerPipeline.clampTierIndex tierIndex) : K) * h *
        (ServerPipeline.simDropletTolerar : ℚ)⌉ : ℤ) := Rat.cast_intCast _

end Exact

theorem tierAgrees (tierIndex : ℤ) :
    ClientPipeline.clampTierIndex tierIndex = ServerPipeline.clampTierIndex tierIndex := by
  unfold ClientPipeline.clampTierIndex ServerPipeline.clampTierIndex
  split
  · rfl
  · split
    · rw [dif_neg (by omega)]
    · rw [dif_pos (by omega)]

theorem toUint32Agrees (v : Num K) : ClientPipeline.toUint32 v = ServerPipeline.toUint32 v := by
  cases v with
  | nan => rfl
  | inf s => rfl
  | fin x =>
    have residue : ∀ t : ℤ, (if t.tmod 4294967296 < 0 then t.tmod 4294967296 + 4294967296
        else t.tmod 4294967296) = t % 4294967296 := by
      intro t
      cases le_or_gt 0 t with
      | inl nonneg =>
        rw [Int.tmod_eq_emod_of_nonneg nonneg]
        omega
      | inr negative =>
        have mirrored : t.tmod 4294967296 = -((-t) % 4294967296) := by
          rw [← Int.tmod_eq_emod_of_nonneg (by omega : 0 ≤ -t),Int.neg_tmod,neg_neg]
        rw [mirrored]
        omega
    have wraps : ∀ t : ℤ, UInt32.ofInt (t % 4294967296) = UInt32.ofInt t := by
      intro t
      simp [UInt32.ofInt]
    simp only [ClientPipeline.toUint32,ServerPipeline.toUint32,residue,wraps]

omit [Zero K] [Format K] in
theorem minAgrees (a b : K) : Num.min (.fin a) (.fin b) = ServerPipeline.mathMin (.fin a) (.fin b) := by
  rw [Num.minFin,ServerPipeline.mathMinFin]

def keys (violations : List Field) : Option (List String) :=
  if violations = [] then none else some (violations.map Field.name)

theorem takeAgrees (key : Field) (value : Num K) (m : K) (violations : List Field) :
    ServerPipeline.take key.name value (.fin m) (keys violations) =
      ((ClientPipeline.take key value (.fin m) violations).1,
        keys (ClientPipeline.take key value (.fin m) violations).2) := by
  rw [ServerPipeline.takeFin,ClientPipeline.takeFin]
  by_cases claimed : m < sane value
  · cases violations with
    | nil => simp [claimed,keys,ServerPipeline.append]
    | cons first rest => simp [claimed,keys,ServerPipeline.append]
  · simp only [claimed,if_false]

theorem ceilingsAgree (squares : SquaresAlike K) (tierIndex : ℤ) (h : K) :
    ClientPipeline.telemetryCeilings tierIndex (.fin h) =
      ServerPipeline.telemetryCeilings tierIndex (.fin h) := by
  have reach : Num.min (.fin h) 1.2 = ServerPipeline.mathMin (.fin h) (1.2 : Num K) := minAgrees h _
  unfold ClientPipeline.telemetryCeilings ServerPipeline.telemetryCeilings
  unfold SquaresAlike at squares
  rw [tierAgrees,reach,squares]
  rfl

theorem allowanceAgrees {wallClockMs : Num K} (nonneg : 0 ≤ wallClockMs) :
    Num.min wallClockMs (Num.literal ClientPipeline.SIM.maxPourMs) =
      .fin (ServerPipeline.allowance wallClockMs) := by
  cases wallClockMs with
  | fin w => exact Num.minFin w _
  | nan => contradiction
  | inf s =>
    cases s with
    | false => rfl
    | true => contradiction

theorem clientClamp (squares : SquaresAlike K) (raw : Telemetry K) (tierIndex : ℤ) {wallClockMs : Num K}
    (nonneg : 0 ≤ wallClockMs) :
    ClientPipeline.clampTelemetry raw tierIndex wallClockMs =
      let h := ServerPipeline.heldS raw wallClockMs
      let hold := ClientPipeline.take .holdMs raw.holdMs (.fin (ServerPipeline.allowance wallClockMs)) []
      let droplets := ClientPipeline.take .dropletsLanded raw.dropletsLanded
        (.fin (ServerPipeline.dropletCeiling tierIndex h)) hold.2
      let velocity := ClientPipeline.take .peakVelocity raw.peakVelocity
        (.fin (ServerPipeline.speedCeiling h)) droplets.2
      let tilt := ClientPipeline.take .tiltEnergy raw.tiltEnergy
        (.fin (ServerPipeline.tiltCeiling h)) velocity.2
      ⟨⟨droplets.1,velocity.1,tilt.1,hold.1⟩,tilt.2⟩ := by
  have held : (ClientPipeline.take .holdMs raw.holdMs
      (.fin (ServerPipeline.allowance wallClockMs)) []).1 =
      .fin (ServerPipeline.heldMs raw wallClockMs) := congrArg Prod.fst (ClientPipeline.takeFin ..)
  have second : (Num.fin (ServerPipeline.heldMs raw wallClockMs) / 1000 : Num K) =
      .fin (ServerPipeline.heldS raw wallClockMs) := ServerPipeline.perSecond _
  unfold ClientPipeline.clampTelemetry
  simp only [allowanceAgrees nonneg,held,second]
  rw [ceilingsAgree squares,ServerPipeline.ceilingsFin tierIndex (ServerPipeline.heldSNonneg raw nonneg)]

theorem takeListed {key other : Field} {value : Num K} {m : K} {violations : List Field} :
    key ∈ (ClientPipeline.take other value (.fin m) violations).2 ↔
      key ∈ violations ∨ key = other ∧ m < sane value := by
  rw [ClientPipeline.takeFin]
  split
  · next claimed => simp [claimed]
  · next kept => simp [kept]

def ceilingOf (raw : Telemetry K) (tierIndex : ℤ) (wallClockMs : Num K) : Field → K
  | .holdMs => ServerPipeline.allowance wallClockMs
  | .dropletsLanded => ServerPipeline.dropletCeiling tierIndex (ServerPipeline.heldS raw wallClockMs)
  | .peakVelocity => ServerPipeline.speedCeiling (ServerPipeline.heldS raw wallClockMs)
  | .tiltEnergy => ServerPipeline.tiltCeiling (ServerPipeline.heldS raw wallClockMs)

theorem listedIff (squares : SquaresAlike K) (raw : Telemetry K) (tierIndex : ℤ) {wallClockMs : Num K}
    (nonneg : 0 ≤ wallClockMs) (key : Field) :
    key ∈ (ClientPipeline.clampTelemetry raw tierIndex wallClockMs).violations ↔
      ceilingOf raw tierIndex wallClockMs key < sane (raw.claim key) := by
  rw [clientClamp squares raw tierIndex nonneg]
  cases key <;> simp [takeListed,ceilingOf,Telemetry.claim]

theorem clampsAgree (squares : SquaresAlike K) (raw : Telemetry K) (tierIndex : ℤ) {wallClockMs : Num K}
    (nonneg : 0 ≤ wallClockMs) :
    ServerPipeline.clampTelemetry raw tierIndex wallClockMs =
      ⟨(ClientPipeline.clampTelemetry raw tierIndex wallClockMs).telemetry,
        keys (ClientPipeline.clampTelemetry raw tierIndex wallClockMs).violations⟩ := by
  have hold : ServerPipeline.take "holdMs" raw.holdMs (.fin (ServerPipeline.allowance wallClockMs)) none =
      _ := takeAgrees .holdMs raw.holdMs (ServerPipeline.allowance wallClockMs) []
  rw [ServerPipeline.clampFin raw tierIndex nonneg,clientClamp squares raw tierIndex nonneg]
  simp only [hold]
  have droplets := takeAgrees .dropletsLanded raw.dropletsLanded
    (ServerPipeline.dropletCeiling tierIndex (ServerPipeline.heldS raw wallClockMs))
  have velocity := takeAgrees .peakVelocity raw.peakVelocity
    (ServerPipeline.speedCeiling (ServerPipeline.heldS raw wallClockMs))
  have tilt := takeAgrees .tiltEnergy raw.tiltEnergy
    (ServerPipeline.tiltCeiling (ServerPipeline.heldS raw wallClockMs))
  simp only [Field.name] at droplets velocity tilt
  simp only [droplets,velocity,tilt]

end MoltenPour.ClampAgreement
