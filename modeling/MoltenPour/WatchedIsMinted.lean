import MoltenPour.PipelineAgreement
import MoltenPour.Pour

/-! What PourScreen shows before sealing, against the record the server mints
from it. The server measures the hold with the difference of two clocks. -/
namespace MoltenPour.WatchedIsMinted
open NumberFormat BinaryRounding BinaryFormat Artifact Pour ClampAgreement PipelineAgreement

structure Legal (t : Telemetry Float64) (tierIndex : ℤ) : Prop where
  hold : ∃ h : Float64, t.holdMs = .fin h
  unchanged : ∀ wallClockMs : Num Float64, t.holdMs ≤ wallClockMs →
    ClientPipeline.clampTelemetry t tierIndex wallClockMs = ⟨t,[]⟩

structure Watched (req : Request Float64) (r : Record Float64) : Prop where
  violations : r.violations = some []
  telemetry : r.telemetry = req.telemetry
  seed : r.seed = ClientPipeline.hashSeed ⟨req.tierIndex,
    ClientPipeline.AMOUNT_CENTS (ClientPipeline.clampTierIndex req.tierIndex),req.timestampMs,req.telemetry⟩
  rarity : r.rarity = ClientPipeline.classify req.telemetry req.tierIndex

/- In time: the hold fits between the client's press and the server's now. -/
theorem wallClockCovers {timestampMs : ℤ} {now : Time} {h : Float64} (nonneg : 0 ≤ h.val)
    (window : |now.unixMilli - timestampMs| ≤ maxClockSkew) :
    (.fin h : Num Float64) ≤ wallClock timestampMs now ↔
      (timestampMs : ℚ) + h.val ≤ now.unixMilli ∨ h.val = 0 := by
  have small : |now.unixMilli - timestampMs| ≤ 2 ^ 53 := window.trans (by decide)
  have value := ofInt64 small
  have atMost : ∀ a b : Float64, (Num.fin a ≤ Num.fin b) ↔ a.val ≤ b.val := Num.leFin
  have less : ∀ a b : Float64, (Num.fin a < Num.fin b) ↔ a.val < b.val := Num.ltFin
  have zero : (0 : Float64).val = 0 := rfl
  unfold wallClock
  simp only [Num.literal,Num.zeroFin,less,value,zero]
  push_cast at value ⊢
  by_cases early : (now.unixMilli : ℚ) - timestampMs < 0
  · rw [if_pos early,atMost,zero]
    constructor
    · exact fun le => .inr (le_antisymm le nonneg)
    · rintro (le | none)
      · linarith
      · exact none.le
  · rw [if_neg early,atMost,value]
    constructor
    · exact fun le => .inl (by linarith)
    · rintro (le | none)
      · linarith
      · linarith

theorem legalKept {t : Telemetry Float64} {tierIndex : ℤ} (legal : Legal t tierIndex)
    {wallClockMs : Num Float64} (nonneg : 0 ≤ wallClockMs) (covered : t.holdMs ≤ wallClockMs) :
    ServerPipeline.clampTelemetry t tierIndex wallClockMs = ⟨t,none⟩ := by
  rw [clampsAgree spawnSquared t tierIndex nonneg,legal.unchanged wallClockMs covered]
  rfl

theorem legalHold {t : Telemetry Float64} {tierIndex : ℤ} (legal : Legal t tierIndex) {h : Float64}
    (hold : t.holdMs = .fin h) : Between 0 15000 h := by
  have forever : (0 : Num Float64) ≤ .inf false := rfl
  have covered : t.holdMs ≤ .inf false := by
    rw [hold]
    rfl
  have kept := congrArg ServerPipeline.ClampResult.telemetry (legalKept legal forever covered)
  rw [ServerPipeline.clampTelemetryFin t tierIndex forever] at kept
  have same : Num.fin (ServerPipeline.heldMs t (.inf false)) = .fin h :=
    (congrArg Telemetry.holdMs kept).trans hold
  exact Num.fin.inj same ▸ heldBetween t forever

theorem cutShort {t : Telemetry Float64} {tierIndex : ℤ} {wallClockMs : Num Float64}
    (nonneg : 0 ≤ wallClockMs) (short : ¬ t.holdMs ≤ wallClockMs) :
    (ServerPipeline.clampTelemetry t tierIndex wallClockMs).telemetry ≠ t := by
  intro kept
  rw [ServerPipeline.clampTelemetryFin t tierIndex nonneg] at kept
  have hold : Num.fin (ServerPipeline.heldMs t wallClockMs) = t.holdMs := congrArg Telemetry.holdMs kept
  refine short (hold ▸ ?_)
  cases wallClockMs with
  | fin w =>
    rw [Num.leFin]
    exact (min_le_right ..).trans (min_le_left ..)
  | nan => contradiction
  | inf s =>
    cases s with
    | false => rfl
    | true => contradiction

theorem watchedIff (req : Request Float64) (position : ℕ) (ownerId : String) (now : Time)
    (r : Record Float64) (h : Float64) (legal : Legal req.telemetry req.tierIndex)
    (hold : req.telemetry.holdMs = .fin h) (ok : mint req position ownerId now = .ok r) :
    Watched req r ↔ ((req.timestampMs : ℚ) + h.val ≤ now.unixMilli ∨ h.val = 0) ∧
      req.telemetry.peakVelocity ≠ .fin justBelowHalf := by
  have minted := mintMinted ok
  have clock : (0 : Num Float64) ≤ wallClock req.timestampMs now := wallClockNonneg ..
  have held := legalHold legal hold
  have window : |now.unixMilli - req.timestampMs| ≤ maxClockSkew := by
    have bounds := minted.accepted.window
    exact abs_le.mpr ⟨by omega,by omega⟩
  have covers := wallClockCovers held.nonneg window
  rw [← hold] at covers
  rw [← covers]
  have prices : r.amountCents = ClientPipeline.AMOUNT_CENTS (ClientPipeline.clampTierIndex req.tierIndex) := by
    rw [minted.price,tierAgrees]
    rfl
  by_cases covered : req.telemetry.holdMs ≤ wallClock req.timestampMs now
  · have kept := legalKept legal clock covered
    have telemetry : r.telemetry = req.telemetry := by rw [minted.telemetry,kept]
    have seed : r.seed = ServerPipeline.hashSeed ⟨req.tierIndex,r.amountCents,req.timestampMs,req.telemetry⟩ := by
      rw [minted.seed,minted.tier,minted.timestamp,telemetry]
    rw [prices] at seed
    constructor
    · intro watched
      refine ⟨covered,fun here => ?_⟩
      have tilt := clampedTilt req.telemetry req.tierIndex clock
      rw [kept] at tilt
      exact hashesApart here tilt _ _ _ (watched.seed.symm.trans seed)
    · rintro ⟨-,other⟩
      have alike := clampedRounds req.telemetry req.tierIndex clock other
      rw [kept] at alike
      refine ⟨?violations,telemetry,?seed,?rarity⟩
      case violations => rw [minted.violations,kept]; rfl
      case seed => rw [seed,hashesAgree alike]
      case rarity =>
        rw [minted.rarity,minted.tier,telemetry,raritiesAgree (scoresAgree alike _ hold held)]
  · constructor
    · intro watched
      exact absurd (minted.telemetry.symm.trans watched.telemetry) (cutShort clock covered)
    · exact fun ⟨inTime,_⟩ => absurd inTime covered

theorem takeNothing (key : Field) {m : Float64} (nonneg : 0 ≤ m) (violations : List Field) :
    ClientPipeline.take key 0 (.fin m) violations = (0,violations) := by
  rw [ClientPipeline.takeFin]
  simp [sane,min_eq_left nonneg,nonneg.not_gt]

theorem takeHeld (key : Field) {v m : Float64} (nonneg : 0 ≤ v) (under : v ≤ m) (violations : List Field) :
    ClientPipeline.take key (.fin v) (.fin m) violations = (.fin v,violations) := by
  rw [ClientPipeline.takeFin]
  simp [sane,max_eq_right nonneg,min_eq_left under,under.not_gt]

theorem stillLegal {h : Float64} (held : Between 0 15000 h) (tierIndex : ℤ) :
    Legal ⟨0,0,0,.fin h⟩ tierIndex := by
  refine ⟨⟨h,rfl⟩,fun wallClockMs covered => ?_⟩
  have stop : Between 15000 15000 (Format.literal ServerPipeline.simMaxPourMs : Float64) :=
    literalBetween (by norm_num [ServerPipeline.simMaxPourMs]) (by norm_num [ServerPipeline.simMaxPourMs])
      (by norm_num)
  have before : h ≤ Format.literal ServerPipeline.simMaxPourMs := by
    have value : h.val ≤ (Format.literal ServerPipeline.simMaxPourMs : Float64).val :=
      held.right.trans stop.left
    exact value
  have bounds : 0 ≤ wallClockMs ∧ h ≤ ServerPipeline.allowance wallClockMs := by
    cases wallClockMs with
    | fin w =>
      have under : h ≤ w := (Num.leFin h w).mp covered
      refine ⟨?_,le_min under before⟩
      rw [Num.zeroFin,Num.leFin]
      exact held.nonneg.trans under
    | nan => contradiction
    | inf s =>
      cases s with
      | false => exact ⟨rfl,before⟩
      | true => contradiction
  have between := heldSBetween ⟨0,0,0,.fin h⟩ bounds.1
  have droplets : (0 : Float64) ≤ ServerPipeline.dropletCeiling tierIndex
      (ServerPipeline.heldS ⟨0,0,0,.fin h⟩ wallClockMs) := by
    have flow : 0 ≤ ServerPipeline.tierFlow (ServerPipeline.clampTierIndex tierIndex) := by
      generalize ServerPipeline.clampTierIndex tierIndex = tier
      fin_cases tier <;> norm_num [ServerPipeline.tierFlow]
    refine Num.literalNonneg (Int.cast_nonneg (Rounded.ceilNonneg ?_))
    exact Format.mulNonneg (Format.mulNonneg (Num.literalNonneg flow) between.nonneg)
      (Num.literalNonneg (by norm_num [ServerPipeline.simDropletTolerar]))
  rw [clientClamp spawnSquared _ tierIndex bounds.1]
  simp only [takeHeld .holdMs held.nonneg bounds.2,takeNothing .dropletsLanded droplets,
    takeNothing .peakVelocity (speedBetween between).nonneg,
    takeNothing .tiltEnergy (tiltBetween between).nonneg]

theorem secondValue : (Format.literal (1000 : ℚ) : Float64).val = 1000 := by
  exact_mod_cast ofInt64 (n := 1000) (by decide)

theorem secondHeld : Between 0 15000 (Format.literal (1000 : ℚ) : Float64) := by
  constructor <;> norm_num [secondValue]

theorem stillElsewhere : (0 : Num Float64) ≠ .fin justBelowHalf := by
  rw [Num.zeroFin]
  intro same
  have value : (0 : ℚ) = belowHalf 53 := congrArg Rounded.val (Num.fin.inj same)
  norm_num [belowHalf] at value

theorem watchedInTime :
    ∃ r, mint ⟨0,1785628800000,⟨0,0,0,1000⟩⟩ 1 "visitor" ⟨1785628801000000000⟩ = .ok r ∧
      Watched ⟨0,1785628800000,⟨0,0,0,1000⟩⟩ r := by
  have accepted : Accepted (K := Float64) ⟨0,1785628800000,⟨0,0,0,1000⟩⟩ ⟨1785628801000000000⟩ :=
    ⟨by decide,by decide⟩
  have inTime : ((1785628800000 : ℤ) : ℚ) + (Format.literal (1000 : ℚ) : Float64).val ≤
      ((1785628801000 : ℤ) : ℚ) := by
    rw [secondValue]
    norm_num
  obtain ⟨r,ok,-⟩ := mintAccepted accepted 1 "visitor"
  exact ⟨r,ok,(watchedIff _ 1 "visitor" _ r _ (stillLegal secondHeld 0) rfl ok).mpr
    ⟨.inl inTime,stillElsewhere⟩⟩

theorem watchedAhead :
    ∃ r, mint ⟨0,1785628801000,⟨0,0,0,1000⟩⟩ 1 "visitor" ⟨1785628801000000000⟩ = .ok r ∧
      Legal ⟨0,0,0,1000⟩ 0 ∧ ¬ Watched ⟨0,1785628801000,⟨0,0,0,1000⟩⟩ r := by
  have accepted : Accepted (K := Float64) ⟨0,1785628801000,⟨0,0,0,1000⟩⟩ ⟨1785628801000000000⟩ :=
    ⟨by decide,by decide⟩
  obtain ⟨r,ok,minted⟩ := mintAccepted accepted 1 "visitor"
  refine ⟨r,ok,stillLegal secondHeld 0,fun watched => ?_⟩
  have short : ¬ (1000 : Num Float64) ≤ wallClock 1785628801000 ⟨1785628801000000000⟩ := by
    intro covered
    have late := (wallClockCovers secondHeld.nonneg (by decide)).mp covered
    rw [secondValue] at late
    norm_num [Time.unixMilli] at late
  exact cutShort (wallClockNonneg ..) short (minted.telemetry.symm.trans watched.telemetry)

end MoltenPour.WatchedIsMinted
