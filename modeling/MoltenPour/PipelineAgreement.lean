import MoltenPour.ClampAgreement
import MoltenPour.BinaryFormat

/-! The two pipelines over float64. They agree on every claim except one: a
peak velocity one place below one half, which the Go rounding takes to one. -/
namespace MoltenPour.PipelineAgreement
open NumberFormat BinaryRounding BinaryFormat Artifact ClampAgreement

abbrev Float64 := Rounded 53

theorem ofInt64 {n : ℤ} (small : |n| ≤ 2 ^ 53) : (Format.literal (n : ℚ) : Float64).val = n :=
  roundOfFits (by decide) (fitsInt 53 small)

theorem spawnSquared : SquaresAlike Float64 := by
  have side : round 53 45 = 45 := by exact_mod_cast ofInt64 (n := 45) (by decide)
  refine congrArg Num.fin (Rounded.ext ?_)
  have product : round 53 (round 53 45 * round 53 45) = round 53 (45 * 45) := by rw [side]
  exact product

theorem halfFits : Fits 53 (1 / 2) := ⟨1,-1,by norm_num,by norm_num⟩

theorem halfLiteral : (Format.literal (0.5 : ℚ) : Float64).val = 1 / 2 := by
  have value : (0.5 : ℚ) = 1 / 2 := by norm_num
  rw [value]
  exact roundOfFits (by decide) halfFits

theorem jsRoundFin (x : Float64) :
    ServerPipeline.jsRound (.fin x) = Num.literal (⌊round 53 (x.val + 1 / 2)⌋ : ℤ) := by
  have sum : ServerPipeline.jsRound (.fin x) =
      Num.literal (⌊round 53 (x.val + (Format.literal (0.5 : ℚ) : Float64).val)⌋ : ℤ) := rfl
  rw [sum,halfLiteral]

theorem mathRoundFin (x : Float64) :
    ClientPipeline.mathRound (.fin x) = Num.literal (⌊x.val + 1 / 2⌋ : ℤ) := rfl

theorem roundsAgree {x : Float64} (nonneg : 0 ≤ x.val) (small : x.val ≤ 2 ^ 51)
    (other : x.val ≠ belowHalf 53) :
    ClientPipeline.mathRound (.fin x) = ServerPipeline.jsRound (.fin x) := by
  have floors : ⌊round 53 (x.val + 1 / 2)⌋ = ⌊x.val + 1 / 2⌋ :=
    floorHalfUp (by decide) x.fits nonneg (by norm_num at small ⊢; linarith) other
  rw [jsRoundFin,mathRoundFin,floors]

theorem thousandApart (t : Float64) : round 53 (t.val * 1000) ≠ belowHalf 53 := by
  -- No multiple of a thousand rounds to the value one place below one half: the candidates lie
  -- on the grid of 2^-63 around 1/2000, and the grid steps over it.
  have twoBelow : Fits 53 (1 / 2 - 1 / 2 ^ 53) := ⟨2 ^ 52 - 1,-53,by norm_num,by norm_num⟩
  have low : t.val * 1000 ≤ 1 / 2 - 1 / 2 ^ 53 → round 53 (t.val * 1000) ≠ belowHalf 53 := by
    intro below
    have rounded := roundLeFits (by decide) twoBelow below
    intro same
    rw [same] at rounded
    norm_num [belowHalf] at rounded
  cases fitsOnGrid (by decide) (-11) t.fits with
  | inr small =>
    refine low ?_
    have bound := (le_abs_self t.val).trans small.le
    norm_num at bound ⊢
    linarith
  | inl grid =>
    obtain ⟨n,grid⟩ := grid
    have value : t.val = n / 2 ^ 63 := by
      rw [grid]
      norm_num
      ring
    obtain above | here | below := lt_trichotomy 4611686018427387 n
    · have high : 1 / 2 ≤ t.val * 1000 := by
        have step : (4611686018427388 : ℚ) ≤ n := by exact_mod_cast above
        rw [value]
        norm_num
        linarith
      have rounded := fitsLeRound (by decide) halfFits high
      intro same
      rw [same] at rounded
      norm_num [belowHalf] at rounded
    · rw [value,← here]
      decide +kernel
    · refine low ?_
      have step : (n : ℚ) ≤ 4611686018427386 := by exact_mod_cast Int.le_sub_one_of_lt below
      rw [value]
      norm_num
      linarith

section Bounds

theorem literalBetween {q : ℚ} {low high : ℕ} (left : low ≤ q) (right : q ≤ high)
    (small : high ≤ 2 ^ 53) : Between low high (Format.literal q : Float64) :=
  betweenRound left right small

theorem secondsBetween {h : Float64} (between : Between 0 15000 h) :
    Between 0 15 (Format.div h (Format.literal (1000 : ℚ))) := by
  have thousand : (Format.literal (1000 : ℚ) : Float64).val = 1000 := by
    exact_mod_cast ofInt64 (n := 1000) (by decide)
  have quotient : Between 0 15 (Rounded.of 53 (h.val / 1000)) := by
    have low := between.left
    have high := between.right
    push_cast at low high
    exact betweenRound (by push_cast; positivity) (by push_cast; linarith) (by norm_num)
  rw [← thousand] at quotient
  exact quotient

theorem heldBetween (raw : Telemetry Float64) {wallClockMs : Num Float64} (nonneg : 0 ≤ wallClockMs) :
    Between 0 15000 (ServerPipeline.heldMs raw wallClockMs) := by
  have stop : Between 15000 15000 (Format.literal ServerPipeline.simMaxPourMs : Float64) :=
    literalBetween (by norm_num [ServerPipeline.simMaxPourMs]) (by norm_num [ServerPipeline.simMaxPourMs])
      (by norm_num)
  have held : (ServerPipeline.heldMs raw wallClockMs).val ≤
      (Format.literal ServerPipeline.simMaxPourMs : Float64).val := ServerPipeline.heldStopped raw wallClockMs
  have low : (0 : ℚ) ≤ (ServerPipeline.heldMs raw wallClockMs).val := ServerPipeline.heldMsNonneg raw nonneg
  exact ⟨by simpa using low,held.trans stop.right⟩

theorem maxFallBetween {h : Float64} (held : Between 0 15 h) :
    Between 120 2920 (ServerPipeline.maxFall h) := by
  have spawn : Between 120 120 (Format.literal ServerPipeline.simSpawnVyMax : Float64) :=
    literalBetween (by norm_num [ServerPipeline.simSpawnVyMax]) (by norm_num [ServerPipeline.simSpawnVyMax])
      (by norm_num)
  have gravity : Between 1400 1400 (Format.literal ServerPipeline.simGravity : Float64) :=
    literalBetween (by norm_num [ServerPipeline.simGravity]) (by norm_num [ServerPipeline.simGravity])
      (by norm_num)
  have longest : Between 0 2 (Format.literal (1.2 : ℚ) : Float64) :=
    literalBetween (by norm_num) (by norm_num) (by norm_num)
  exact betweenWiden (betweenAdd spawn (betweenMul gravity (betweenMin held longest) (by norm_num))
    (by norm_num)) (by norm_num) (by norm_num)

theorem speedBetween {h : Float64} (held : Between 0 15 h) :
    Between 120 5842 (ServerPipeline.speedCeiling h) := by
  have fall := maxFallBetween held
  have sideways : Between 0 2025 (Format.literal
      (ServerPipeline.simSpawnVxMax * ServerPipeline.simSpawnVxMax) : Float64) :=
    literalBetween (by norm_num [ServerPipeline.simSpawnVxMax])
      (by norm_num [ServerPipeline.simSpawnVxMax]) (by norm_num)
  have headroom : Between 1 2 (Format.literal (1.1 : ℚ) : Float64) :=
    literalBetween (by norm_num) (by norm_num) (by norm_num)
  have squared : Between (120 ^ 2) (2921 ^ 2) (ServerPipeline.fallSquared h) :=
    betweenWiden (betweenAdd (betweenMul fall fall (by norm_num)) sideways (by norm_num))
      (by norm_num) (by norm_num)
  exact betweenWiden (betweenMul (betweenSqrt squared (by norm_num)) headroom (by norm_num))
    (by norm_num) (by norm_num)

theorem tiltBetween {h : Float64} (held : Between 0 15 h) :
    Between 0 90 (ServerPipeline.tiltCeiling h) := by
  have rate : Between 6 6 (Format.literal ServerPipeline.simMaxTiltRate : Float64) :=
    literalBetween (by norm_num [ServerPipeline.simMaxTiltRate])
      (by norm_num [ServerPipeline.simMaxTiltRate]) (by norm_num)
  exact betweenMul rate held (by norm_num)

theorem scaledRounds {x : Float64} (between : Between 0 90 x) :
    ClientPipeline.mathRound (Num.fin x * 1000) = ServerPipeline.jsRound (Num.fin x * 1000) := by
  have thousand : (Format.literal (1000 : ℚ) : Float64).val = 1000 := by
    exact_mod_cast ofInt64 (n := 1000) (by decide)
  have exact : Between 1000 1000 (Format.literal (1000 : ℚ) : Float64) :=
    literalBetween (by norm_num) (by norm_num) (by norm_num)
  have product := betweenMul between exact (by norm_num)
  have apart : (Format.mul x (Format.literal (1000 : ℚ))).val ≠ belowHalf 53 := by
    have value : (Format.mul x (Format.literal (1000 : ℚ))).val =
        round 53 (x.val * (Format.literal (1000 : ℚ) : Float64).val) := rfl
    rw [value,thousand]
    exact thousandApart x
  exact roundsAgree (by simpa using product.left) (product.right.trans (by norm_num)) apart

theorem speedRounds {h : Float64} (held : Between 0 15 h) :
    ClientPipeline.mathRound (.fin (ServerPipeline.speedCeiling h)) =
      ServerPipeline.jsRound (.fin (ServerPipeline.speedCeiling h)) := by
  have between := speedBetween held
  refine roundsAgree (le_trans (by norm_num) between.left) (between.right.trans (by norm_num)) ?_
  intro same
  have low := between.left
  rw [same] at low
  norm_num [belowHalf] at low

end Bounds

def justBelowHalf : Float64 := ⟨belowHalf 53,2 ^ 53 - 1,-54,by norm_num,by norm_num [belowHalf]⟩

structure RoundsAlike (t : Telemetry Float64) : Prop where
  velocity : ClientPipeline.mathRound t.peakVelocity = ServerPipeline.jsRound t.peakVelocity
  tilt : ClientPipeline.mathRound (t.tiltEnergy * 1000) = ServerPipeline.jsRound (t.tiltEnergy * 1000)

theorem hashesAgree {t : Telemetry Float64} (alike : RoundsAlike t)
    (tierIndex amountCents timestampMs : ℤ) :
    ClientPipeline.hashSeed ⟨tierIndex,amountCents,timestampMs,t⟩ =
      ServerPipeline.hashSeed ⟨tierIndex,amountCents,timestampMs,t⟩ := by
  simp only [ClientPipeline.hashSeed,ServerPipeline.hashSeed,toUint32Agrees,alike.velocity,alike.tilt]

theorem hashesApart {t : Telemetry Float64} (velocity : t.peakVelocity = .fin justBelowHalf)
    (tilt : ClientPipeline.mathRound (t.tiltEnergy * 1000) = ServerPipeline.jsRound (t.tiltEnergy * 1000))
    (tierIndex amountCents timestampMs : ℤ) :
    ClientPipeline.hashSeed ⟨tierIndex,amountCents,timestampMs,t⟩ ≠
      ServerPipeline.hashSeed ⟨tierIndex,amountCents,timestampMs,t⟩ := by
  have client : ServerPipeline.toUint32 (ClientPipeline.mathRound t.peakVelocity) = 0 := by
    rw [velocity,mathRoundFin]
    decide +kernel
  have server : ServerPipeline.toUint32 (ServerPipeline.jsRound t.peakVelocity) = 1 := by
    rw [velocity,jsRoundFin]
    decide +kernel
  intro same
  simp only [ClientPipeline.hashSeed,ServerPipeline.hashSeed,toUint32Agrees,tilt,client,server] at same
  exact @Fnv.hashApart [_,_,_,_] _ 0 1 (by decide) (by decide) (by decide) same

theorem scoresAgree {t : Telemetry Float64} (alike : RoundsAlike t) (tierIndex : ℤ) {h : Float64}
    (hold : t.holdMs = .fin h) (held : Between 0 15000 h) :
    ClientPipeline.rarityScore t tierIndex = ServerPipeline.rarityScore t tierIndex := by
  have whole : Between 0 15000 (Format.literal (Format.floor h : ℤ) : Float64) := by
    have low := held.left
    push_cast at low
    have floored : ((⌊h.val⌋ : ℤ) : ℚ) ≤ h.val := Int.floor_le h.val
    refine literalBetween ?_ (floored.trans held.right) (by norm_num)
    exact_mod_cast Int.floor_nonneg.mpr low
  have between := secondsBetween whole
  have second : (Num.floor t.holdMs / 1000 : Num Float64) =
      .fin (Format.div (Format.literal (Format.floor h : ℤ)) (Format.literal 1000)) := by
    rw [hold]
    exact ServerPipeline.perSecond _
  unfold ClientPipeline.rarityScore ClientPipeline.scoreParts ServerPipeline.rarityScore
  simp only [second,ceilingsAgree spawnSquared,ServerPipeline.ceilingsFin tierIndex between.nonneg,tierAgrees,alike.velocity,
    alike.tilt,speedRounds between,scaledRounds (tiltBetween between)]
  rfl

theorem raritiesAgree {t : Telemetry Float64} {tierIndex : ℤ}
    (scores : ClientPipeline.rarityScore t tierIndex = ServerPipeline.rarityScore t tierIndex) :
    ClientPipeline.classify t tierIndex = ServerPipeline.classify t tierIndex := by
  unfold ClientPipeline.classify ServerPipeline.classify
  rw [scores]
  rfl

structure Agree (raw : Telemetry Float64) (tierIndex amountCents timestampMs : ℤ)
    (wallClockMs : Num Float64) : Prop where
  telemetry : (ClientPipeline.clampTelemetry raw tierIndex wallClockMs).telemetry =
    (ServerPipeline.clampTelemetry raw tierIndex wallClockMs).telemetry
  violations : (ClientPipeline.clampTelemetry raw tierIndex wallClockMs).violations.map Field.name =
    (ServerPipeline.clampTelemetry raw tierIndex wallClockMs).violations.getD []
  hash : ClientPipeline.hashSeed ⟨tierIndex,amountCents,timestampMs,
      (ClientPipeline.clampTelemetry raw tierIndex wallClockMs).telemetry⟩ =
    ServerPipeline.hashSeed ⟨tierIndex,amountCents,timestampMs,
      (ServerPipeline.clampTelemetry raw tierIndex wallClockMs).telemetry⟩
  score : ClientPipeline.rarityScore
      (ClientPipeline.clampTelemetry raw tierIndex wallClockMs).telemetry tierIndex =
    ServerPipeline.rarityScore (ServerPipeline.clampTelemetry raw tierIndex wallClockMs).telemetry tierIndex
  rarity : ClientPipeline.classify
      (ClientPipeline.clampTelemetry raw tierIndex wallClockMs).telemetry tierIndex =
    ServerPipeline.classify (ServerPipeline.clampTelemetry raw tierIndex wallClockMs).telemetry tierIndex

section Claim
variable (raw : Telemetry Float64) (tierIndex : ℤ) {wallClockMs : Num Float64} (nonneg : 0 ≤ wallClockMs)
include nonneg

theorem heldSBetween : Between 0 15 (ServerPipeline.heldS raw wallClockMs) :=
  secondsBetween (heldBetween raw nonneg)

theorem velocityKept : (min (sane raw.peakVelocity)
    (ServerPipeline.speedCeiling (ServerPipeline.heldS raw wallClockMs))).val = belowHalf 53 ↔
      raw.peakVelocity = .fin justBelowHalf := by
  -- The speed ceiling never cuts a claim below 120, so it does not make or hide one half.
  have ceiling := (speedBetween (heldSBetween raw nonneg)).left
  have below : belowHalf 53 < 120 := by norm_num [belowHalf]
  have positive : 0 < belowHalf 53 := by norm_num [belowHalf]
  constructor
  · intro same
    have cut : (min (sane raw.peakVelocity)
        (ServerPipeline.speedCeiling (ServerPipeline.heldS raw wallClockMs))) = justBelowHalf :=
      Rounded.ext same
    cases min_choice (sane raw.peakVelocity)
        (ServerPipeline.speedCeiling (ServerPipeline.heldS raw wallClockMs)) with
    | inr speed =>
      rw [speed] at same
      rw [same] at ceiling
      push_cast at ceiling
      linarith
    | inl claim =>
      rw [claim] at cut
      cases velocity : raw.peakVelocity with
      | fin x =>
        rw [velocity] at cut
        cases max_choice 0 x with
        | inr kept => exact congrArg Num.fin (kept.symm.trans cut)
        | inl zero =>
          have value : (0 : ℚ) = belowHalf 53 := congrArg Rounded.val (zero.symm.trans cut)
          linarith
      | nan =>
        rw [velocity] at cut
        have value : (0 : ℚ) = belowHalf 53 := congrArg Rounded.val cut
        linarith
      | inf s =>
        rw [velocity] at cut
        have value : (0 : ℚ) = belowHalf 53 := congrArg Rounded.val cut
        linarith
  · intro here
    have kept : sane raw.peakVelocity = justBelowHalf := by
      have nonneg : (0 : Float64) ≤ justBelowHalf := positive.le
      rw [here]
      exact max_eq_right nonneg
    have under : justBelowHalf ≤ ServerPipeline.speedCeiling (ServerPipeline.heldS raw wallClockMs) := by
      have value : belowHalf 53 ≤ (ServerPipeline.speedCeiling (ServerPipeline.heldS raw wallClockMs)).val := by
        push_cast at ceiling
        linarith
      exact value
    rw [kept,min_eq_left under]
    rfl

theorem clampedTilt :
    let t := (ServerPipeline.clampTelemetry raw tierIndex wallClockMs).telemetry
    ClientPipeline.mathRound (t.tiltEnergy * 1000) = ServerPipeline.jsRound (t.tiltEnergy * 1000) := by
  intro t
  have fields := ServerPipeline.clampTelemetryFin raw tierIndex nonneg
  have tilt : t.tiltEnergy = _ := congrArg Telemetry.tiltEnergy fields
  rw [tilt]
  exact scaledRounds (betweenCut (saneNonneg raw.tiltEnergy) (tiltBetween (heldSBetween raw nonneg)))

theorem clampedRounds (other : raw.peakVelocity ≠ .fin justBelowHalf) :
    RoundsAlike (ServerPipeline.clampTelemetry raw tierIndex wallClockMs).telemetry := by
  have held := heldSBetween raw nonneg
  refine ⟨?_,clampedTilt raw tierIndex nonneg⟩
  rw [ServerPipeline.clampTelemetryFin raw tierIndex nonneg]
  have cut := betweenCut (saneNonneg raw.peakVelocity) (speedBetween held)
  exact roundsAgree cut.nonneg (cut.right.trans (by norm_num))
    (fun same => other ((velocityKept raw nonneg).mp same))

theorem claimAgrees (amountCents timestampMs : ℤ) (other : raw.peakVelocity ≠ .fin justBelowHalf) :
    Agree raw tierIndex amountCents timestampMs wallClockMs := by
  have clamped := clampsAgree spawnSquared raw tierIndex nonneg
  have alike := clampedRounds raw tierIndex nonneg other
  have fields := ServerPipeline.clampTelemetryFin raw tierIndex nonneg
  have same : (ClientPipeline.clampTelemetry raw tierIndex wallClockMs).telemetry =
      (ServerPipeline.clampTelemetry raw tierIndex wallClockMs).telemetry := by rw [clamped]
  have scores := scoresAgree alike tierIndex (by rw [fields]) (heldBetween raw nonneg)
  refine ⟨same,?violations,?hash,?score,?rarity⟩
  case violations =>
    rw [clamped]
    cases found : (ClientPipeline.clampTelemetry raw tierIndex wallClockMs).violations with
    | nil => rfl
    | cons first rest => rfl
  case hash =>
    rw [same]
    exact hashesAgree alike tierIndex amountCents timestampMs
  case score =>
    rw [same]
    exact scores
  case rarity =>
    rw [same]
    exact raritiesAgree scores

theorem claimDisagrees (amountCents timestampMs : ℤ) (here : raw.peakVelocity = .fin justBelowHalf) :
    ¬ Agree raw tierIndex amountCents timestampMs wallClockMs := by
  intro agree
  have fields := ServerPipeline.clampTelemetryFin raw tierIndex nonneg
  have kept : min (sane raw.peakVelocity) (ServerPipeline.speedCeiling
      (ServerPipeline.heldS raw wallClockMs)) = justBelowHalf :=
    Rounded.ext ((velocityKept raw nonneg).mpr here)
  have hash := agree.hash
  rw [agree.telemetry] at hash
  have velocity : (ServerPipeline.clampTelemetry raw tierIndex wallClockMs).telemetry.peakVelocity =
      .fin justBelowHalf := by
    rw [fields]
    exact congrArg Num.fin kept
  exact hashesApart velocity (clampedTilt raw tierIndex nonneg) tierIndex amountCents timestampMs hash

end Claim

theorem pipelinesAgreeIff (raw : Telemetry Float64) (tierIndex amountCents timestampMs : ℤ)
    (wallClockMs : Num Float64) (nonneg : 0 ≤ wallClockMs) :
    Agree raw tierIndex amountCents timestampMs wallClockMs ↔ raw.peakVelocity ≠ .fin justBelowHalf :=
  ⟨fun agree here => claimDisagrees raw tierIndex nonneg amountCents timestampMs here agree,
    claimAgrees raw tierIndex nonneg amountCents timestampMs⟩

def overclaimed : Telemetry Float64 := ⟨.inf false,Num.literal 2345.678,Num.literal 12.3456,12000⟩

theorem overclaimedAgrees :
    Agree overclaimed 5 14900 1785628800123 (Num.literal 9876.5) ∧
    (ServerPipeline.clampTelemetry overclaimed 5 (Num.literal 9876.5)).violations =
      some ["holdMs","peakVelocity"] := by
  refine ⟨(pipelinesAgreeIff overclaimed 5 14900 1785628800123 (Num.literal 9876.5)
    (Num.literalAtLeast (by norm_num))).mpr ?_,by decide +kernel⟩
  intro same
  have value : round 53 2345.678 = belowHalf 53 := congrArg Rounded.val (Num.fin.inj same)
  exact absurd value (by decide +kernel)

theorem pipelinesDisagree :
    ¬ Agree ⟨1,.fin justBelowHalf,0,1000⟩ 0 0 1785628800000 1000 :=
  claimDisagrees _ 0 (Num.literalAtLeast (Nat.cast_nonneg 1000)) 0 1785628800000 rfl

end MoltenPour.PipelineAgreement
