import MoltenPour.Pour
import MoltenPour.BinaryFormat

/-! Two pour-starts for one report. The classifier does not read the hash, but
the timestamp also decides how long a hold the clamp grants. -/
namespace MoltenPour.ClockGrinding
open NumberFormat BinaryFormat Artifact Pour
variable {K : Type} [LinearOrder K] [Zero K] [Format K]

def available (timestampMs : ℤ) (now : Time) : K :=
  ServerPipeline.allowance (wallClock timestampMs now)

structure SameWorth (a b : Record K) : Prop where
  rarity : a.rarity = b.rarity
  score : a.rarityScore = b.rarityScore
  telemetry : a.telemetry = b.telemetry
  violations : a.violations = b.violations
  tier : a.tierIndex = b.tierIndex
  price : a.amountCents = b.amountCents
  mass : a.massGrams = b.massGrams
  owner : a.ownerId = b.ownerId
  place : a.ledgerPosition = b.ledgerPosition
  issued : a.issued = b.issued

omit [Zero K] [Format K] in
theorem cutsAgree {claim a b : K} :
    min claim a = min claim b ↔ (claim ≤ a ∧ claim ≤ b) ∨ a = b := by
  constructor
  · intro same
    cases le_total claim a with
    | inl kept =>
      rw [min_eq_left kept] at same
      exact .inl ⟨kept,same ▸ min_le_right claim b⟩
    | inr cut =>
      rw [min_eq_right cut] at same
      cases le_total claim b with
      | inl kept =>
        rw [min_eq_left kept] at same
        exact .inl ⟨same.ge,kept⟩
      | inr both =>
        rw [min_eq_right both] at same
        exact .inr same
  · rintro (⟨left,right⟩ | rfl)
    · rw [min_eq_left left,min_eq_left right]
    · rfl

section Clamp
variable (raw : Telemetry K) (tierIndex : ℤ) {early late : Num K} (first : 0 ≤ early) (second : 0 ≤ late)
include first second

theorem heldApart (same : (ServerPipeline.clampTelemetry raw tierIndex early).telemetry =
    (ServerPipeline.clampTelemetry raw tierIndex late).telemetry) :
    ServerPipeline.heldMs raw early = ServerPipeline.heldMs raw late := by
  rw [ServerPipeline.clampTelemetryFin raw tierIndex first,
    ServerPipeline.clampTelemetryFin raw tierIndex second] at same
  exact Num.fin.inj (congrArg Telemetry.holdMs same)

theorem clampsAlike (alike : (sane raw.holdMs ≤ ServerPipeline.allowance early ∧
      sane raw.holdMs ≤ ServerPipeline.allowance late) ∨
      ServerPipeline.allowance early = ServerPipeline.allowance late) :
    ServerPipeline.clampTelemetry raw tierIndex early =
      ServerPipeline.clampTelemetry raw tierIndex late := by
  -- The wall clock enters a clamp through the hold alone.
  have held : ServerPipeline.heldMs raw early = ServerPipeline.heldMs raw late := cutsAgree.mpr alike
  have seconds : ServerPipeline.heldS raw early = ServerPipeline.heldS raw late := by
    unfold ServerPipeline.heldS
    rw [held]
  have hold : ServerPipeline.take "holdMs" raw.holdMs (.fin (ServerPipeline.allowance early)) none =
      ServerPipeline.take "holdMs" raw.holdMs (.fin (ServerPipeline.allowance late)) none := by
    cases alike with
    | inr same => rw [same]
    | inl kept =>
      rw [ServerPipeline.takeFin,ServerPipeline.takeFin,if_neg kept.1.not_gt,if_neg kept.2.not_gt,
        min_eq_left kept.1,min_eq_left kept.2]
  rw [ServerPipeline.clampFin raw tierIndex first,ServerPipeline.clampFin raw tierIndex second]
  simp only [hold,seconds]

end Clamp

section Mint
variable {req : Request K} {other : ℤ} {position : ℕ} {ownerId : String} {now : Time} {a b : Record K}
  (first : mint req position ownerId now = .ok a)
  (second : mint {req with timestampMs := other} position ownerId now = .ok b)
include first second

theorem clockNeutralIff :
    SameWorth a b ↔
      (sane req.telemetry.holdMs ≤ available req.timestampMs now ∧
        sane req.telemetry.holdMs ≤ available other now) ∨
      (available req.timestampMs now : K) = available other now := by
  have left := mintMinted first
  have right := mintMinted second
  have early := wallClockNonneg (K := K) req.timestampMs now
  have late := wallClockNonneg (K := K) other now
  constructor
  · intro worth
    have same := worth.telemetry
    rw [left.telemetry,right.telemetry] at same
    exact cutsAgree.mp (heldApart req.telemetry req.tierIndex early late same)
  · intro alike
    have clamps := clampsAlike req.telemetry req.tierIndex early late alike
    have telemetry : a.telemetry = b.telemetry := by rw [left.telemetry,right.telemetry,clamps]
    have tier : a.tierIndex = b.tierIndex := left.tier.trans right.tier.symm
    refine ⟨?rarity,?score,telemetry,?violations,tier,?price,?mass,?owner,?place,?issued⟩
    case rarity => rw [left.rarity,right.rarity,telemetry,tier]
    case score => rw [left.score,right.score,telemetry,tier]
    case violations => rw [left.violations,right.violations,clamps]
    case price => exact left.price.trans right.price.symm
    case mass => rw [left.mass,right.mass,telemetry]
    case owner => exact left.owner.trans right.owner.symm
    case place => exact left.place.trans right.place.symm
    case issued => exact left.issued.trans right.issued.symm

end Mint

def fullPour : Request (Rounded 53) := ⟨5,1785628800000,⟨587,2000,0,15000⟩⟩

def fifteenLater : Time := ⟨1785628815000000000⟩

theorem clockBuysRarity :
    (mint fullPour 1 "visitor" fifteenLater).map Record.rarity = .ok .singular ∧
    (mint {fullPour with timestampMs := 1785628815000} 1 "visitor" fifteenLater).map Record.rarity =
      .ok .common := by
  decide +kernel

theorem clockNeutralInTime :
    ∃ a b, mint fullPour 1 "visitor" fifteenLater = .ok a ∧
      mint {fullPour with timestampMs := 1785628799000} 1 "visitor" fifteenLater = .ok b ∧
      SameWorth a b := by
  have early : Accepted fullPour fifteenLater := ⟨by decide,by decide⟩
  have late : Accepted {fullPour with timestampMs := 1785628799000} fifteenLater := ⟨by decide,by decide⟩
  obtain ⟨a,first,-⟩ := mintAccepted early 1 "visitor"
  obtain ⟨b,second,-⟩ := mintAccepted late 1 "visitor"
  refine ⟨a,b,first,second,(clockNeutralIff first second).mpr (.inl ⟨?_,?_⟩)⟩
  · decide +kernel
  · decide +kernel

end MoltenPour.ClockGrinding
