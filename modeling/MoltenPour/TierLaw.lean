import MoltenPour.HashedScore

/-! One pour scored at two tiers. The dearer one multiplies by a longer reach,
but fills its share of droplets against a larger glass, and which of the two
wins depends on what else the pour earned. -/
namespace MoltenPour.TierLaw
open NumberFormat Artifact ClampAgreement ClampProjection ClampOrder HashedScore ReachableRarity

def Untouched {K : Type} [LinearOrder K] [Zero K] [Format K] (tierIndex : ℤ) (t : Telemetry K) : Prop :=
  ∃ wallClockMs : Num K, 0 ≤ wallClockMs ∧
    (ServerPipeline.clampTelemetry t tierIndex wallClockMs).telemetry = t

def upTo (a b : ℤ) : ℤ := (a + b - 1) / b

def rest (speedMost : ℤ) (w : Words) : ℤ :=
  share w.speed speedMost * 25 + share w.hold 15000 * 20 + (1000 - share w.tilt (6 * w.hold)) * 15

def reach (tierIndex : ℤ) : ℤ := 50 + 10 * (ServerPipeline.clampTierIndex tierIndex).val

/- The permille of the glass a score asks for, beside a rest that is given. -/
def asked (tierIndex rest score : ℤ) : ℤ := upTo (100 * upTo (100 * score) (reach tierIndex) - rest) 40

def needed (tierIndex hold rest score : ℤ) : ℤ :=
  upTo (dropletsMost tierIndex hold * asked tierIndex rest score) 1000

/- The droplets that pay for a score at the cheaper tier and not at the dearer, whose
glass is larger though its reach is longer. -/
def gap (low high hold rest score : ℤ) : Set ℤ :=
  Set.Ico (needed low hold rest score) (needed high hold rest score)

/- Of the scores a full glass is worth at the cheaper tier, none has a gap the droplets lie in. -/
def NoGap (speedMost low high : ℤ) (w : Words) : Prop :=
  ∀ score ∈ List.range 1001, asked low (rest speedMost w) score ≤ 1000 →
    w.droplets ∉ gap low high w.hold (rest speedMost w) score

theorem upToLe (a c : ℤ) {b : ℤ} (positive : 0 < b) : upTo a b ≤ c ↔ a ≤ c * b := by
  have below : (a + b - 1) / b < c + 1 ↔ a + b - 1 < (c + 1) * b := Int.ediv_lt_iff_lt_mul positive
  rw [add_one_mul] at below
  unfold upTo
  omega

section Prices

theorem reachPositive (tierIndex : ℤ) : 0 < reach tierIndex := by
  unfold reach
  omega

theorem reachRises {low high : ℤ} (dearer : low ≤ high) : reach low ≤ reach high := by
  have tier := tierRises dearer
  unfold reach
  omega

theorem askedFalls {low high : ℤ} (dearer : low ≤ high) (rest : ℤ) {score : ℤ} (nonneg : 0 ≤ score) :
    asked high rest score ≤ asked low rest score := by
  have longer := reachRises dearer
  have base : upTo (100 * score) (reach high) ≤ upTo (100 * score) (reach low) := by
    rw [upToLe _ _ (reachPositive high)]
    have paid := (upToLe (100 * score) _ (reachPositive low)).mp le_rfl
    have some : 0 ≤ upTo (100 * score) (reach low) := Int.ediv_nonneg (by linarith [reachPositive low])
      (reachPositive low).le
    exact paid.trans (mul_le_mul_of_nonneg_left longer some)
  unfold asked
  rw [upToLe _ _ (by decide)]
  have paid := (upToLe (100 * upTo (100 * score) (reach low) - rest) _ (by decide : (0 : ℤ) < 40)).mp le_rfl
  linarith

theorem shareReaches {droplets most : ℤ} (landed : 0 ≤ droplets) (some : 0 < most) (p : ℤ) :
    p ≤ share droplets most ↔ p ≤ 1000 ∧ upTo (most * p) 1000 ≤ droplets := by
  have quotient : 0 ≤ droplets * 1000 / most := Int.ediv_nonneg (by omega) some.le
  unfold share
  rw [if_neg some.not_ge,max_eq_right (le_min quotient (by decide)),le_min_iff,and_comm,
    Int.le_ediv_iff_mul_le some,upToLe _ _ (by decide),mul_comm p most]

theorem pointsReach (speedMost tierIndex score : ℤ) (w : Words) :
    score ≤ points speedMost tierIndex w ↔
      asked tierIndex (rest speedMost w) score ≤ share w.droplets (dropletsMost tierIndex w.hold) := by
  have base : points speedMost tierIndex w =
      (share w.droplets (dropletsMost tierIndex w.hold) * 40 + rest speedMost w) / 100 *
        reach tierIndex / 100 := by
    unfold points weighed rest reach
    congr 3
    ring
  rw [base,Int.le_ediv_iff_mul_le (by decide),mul_comm score,← upToLe _ _ (reachPositive tierIndex),
    Int.le_ediv_iff_mul_le (by decide),asked,upToLe _ _ (by decide)]
  constructor <;> intro le <;> linarith

theorem mostPositive (tierIndex : ℤ) {hold : ℤ} (held : 0 < hold) : 0 < dropletsMost tierIndex hold := by
  have flow : 0 < ServerPipeline.tierFlow (ServerPipeline.clampTierIndex tierIndex) := by
    generalize ServerPipeline.clampTierIndex tierIndex = tier
    fin_cases tier <;> norm_num [ServerPipeline.tierFlow]
  have second : (0 : ℚ) < (hold : ℚ) / 1000 := div_pos (Int.cast_pos.mpr held) (by norm_num)
  refine Int.ceil_pos.mpr (mul_pos (mul_pos flow second) ?_)
  norm_num [ServerPipeline.simDropletTolerar]

theorem mostNothing (tierIndex : ℤ) : dropletsMost tierIndex 0 = 0 := by simp [dropletsMost]

theorem pointsBounds (speedMost tierIndex : ℤ) (w : Words) :
    0 ≤ points speedMost tierIndex w ∧ points speedMost tierIndex w ≤ 1000 := by
  obtain ⟨nonneg,bound⟩ := weighedBounds tierIndex
    (sharePermille w.droplets (dropletsMost tierIndex w.hold)) (sharePermille w.speed speedMost)
    (sharePermille w.hold 15000) (steadyPermille w.tilt (6 * w.hold))
  have tier := (ServerPipeline.clampTierIndex tierIndex).isLt
  exact ⟨nonneg,bound.trans (by omega)⟩

theorem pointsNeeded (speedMost tierIndex score : ℤ) {w : Words} (landed : 0 ≤ w.droplets) (held : 0 < w.hold) :
    score ≤ points speedMost tierIndex w ↔ asked tierIndex (rest speedMost w) score ≤ 1000 ∧
      needed tierIndex w.hold (rest speedMost w) score ≤ w.droplets :=
  (pointsReach ..).trans (shareReaches landed (mostPositive tierIndex held) _)

theorem noGapIff (speedMost : ℤ) {low high : ℤ} (dearer : low ≤ high) {w : Words} (landed : 0 ≤ w.droplets)
    (held : 0 ≤ w.hold) :
    points speedMost low w ≤ points speedMost high w ↔ NoGap speedMost low high w := by
  cases held.eq_or_lt with
  | inl none =>
    have empty : ∀ tierIndex, dropletsMost tierIndex w.hold = 0 := fun tierIndex =>
      none ▸ mostNothing tierIndex
    refine iff_of_true ?_ fun score _ _ within => ?_
    · rw [pointsReach,empty high,← empty low]
      exact (askedFalls dearer _ (pointsBounds ..).1).trans ((pointsReach ..).mp le_rfl)
    · have short := within.2
      rw [needed,empty,zero_mul] at short
      exact short.not_ge landed
  | inr some =>
    have affords := fun tierIndex score => pointsNeeded speedMost tierIndex score landed some
    constructor
    · intro rises score _ full within
      have worth := ((affords low score).mpr ⟨full,within.1⟩).trans rises
      exact within.2.not_ge ((affords high score).mp worth).2
    · intro apart
      obtain ⟨nonneg,bound⟩ := pointsBounds speedMost low w
      obtain ⟨score,same⟩ := Int.eq_ofNat_of_zero_le nonneg
      have mem : score ∈ List.range 1001 := List.mem_range.mpr (by omega)
      obtain ⟨full,paid⟩ := (affords low score).mp same.ge
      have cheaper := askedFalls dearer (rest speedMost w) (Int.natCast_nonneg score)
      rw [same,affords high]
      exact ⟨cheaper.trans full,not_lt.mp fun short => apart score mem full ⟨paid,short⟩⟩

end Prices

section Reals

theorem untouchedLegal {tierIndex : ℤ} {r : Reading ℝ} (untouched : Untouched tierIndex r.report) :
    Legal tierIndex r := by
  obtain ⟨wallClockMs,nonneg,same⟩ := untouched
  obtain ⟨q,legal,report⟩ := clampedReads ⟨r.report,wallClockMs,nonneg,same⟩
  have equal : q = r := by
    cases q
    cases r
    simpa [Reading.report] using report
  exact equal ▸ legal

theorem legalUntouched {tierIndex : ℤ} {r : Reading ℝ} (legal : Legal tierIndex r) :
    Untouched tierIndex r.report := by
  refine ⟨.fin r.hold,?_,?_⟩
  · rw [Num.zeroFin,Num.leFin]
    exact legal.hold.1
  · rw [legalKept legal ((Num.leFin ..).mpr le_rfl)]

theorem dearerNoGap {low high : ℤ} (dearer : low ≤ high) {r : Reading ℝ}
    (legal : Untouched low r.report) :
    NotLower r.report r.report low high ↔ NoGap (speedMost ℝ (words r).hold) low high (words r) := by
  have first := untouchedLegal legal
  have landed : 0 ≤ (words r).droplets := Int.floor_nonneg.mpr first.droplets.1
  have held : 0 ≤ (words r).hold := Int.floor_nonneg.mpr first.hold.1
  exact (notLower first.hold.1 first.hold.1).trans (noGapIff _ dearer landed held)

theorem shareNothing (m : ℤ) : share 0 m = 0 := by
  unfold share
  split <;> simp

def fullPour (tilt : ℤ) : Reading ℝ := ⟨(483 : ℤ),0,tilt,(15000 : ℤ)⟩

theorem fullWords (tilt : ℤ) : words (fullPour tilt) = ⟨483,0,tilt * 1000,15000⟩ := by
  have milli : ⌊(tilt : ℝ) * 1000 + 1 / 2⌋ = tilt * 1000 := by
    rw [Int.floor_eq_iff]
    push_cast
    constructor <;> linarith
  norm_num [words,fullPour] at milli ⊢
  exact milli

theorem restStill (speedMost : ℤ) (tilt : ℤ) :
    rest speedMost (words (fullPour tilt)) = rest 0 ⟨483,0,tilt * 1000,15000⟩ := by
  rw [fullWords,rest,rest,shareNothing,shareNothing]

theorem fullLegal {tierIndex tilt : ℤ} (room : 483 ≤ dropletsMost tierIndex 15000) (level : 0 ≤ tilt)
    (most : tilt ≤ 90) : Legal tierIndex (fullPour tilt) := by
  have second : seconds (fullPour tilt).hold = ((15000 : ℤ) : ℝ) / 1000 := by
    change (15000 : ℝ) / ((1000 : ℚ) : ℝ) = _
    norm_num
  have glass : ServerPipeline.dropletCeiling tierIndex (((15000 : ℤ) : ℝ) / 1000) =
      dropletsMost tierIndex 15000 := by
    have value := dropletsMostWhole (K := ℝ) tierIndex 15000
    rw [wholeCast] at value
    exact Num.fin.inj value
  have landed : (483 : ℝ) ≤ dropletsMost tierIndex 15000 := by exact_mod_cast room
  have stop : (15000 : ℝ) ≤ ((ServerPipeline.simMaxPourMs : ℚ) : ℝ) := by
    norm_num [ServerPipeline.simMaxPourMs]
  have nonneg : (0 : ℝ) ≤ ((15000 : ℤ) : ℝ) / 1000 := by norm_num
  have rate : (tilt : ℝ) ≤ ServerPipeline.tiltCeiling (((15000 : ℤ) : ℝ) / 1000) := by
    have under : (tilt : ℝ) ≤ 90 := by exact_mod_cast most
    change (tilt : ℝ) ≤ ((ServerPipeline.simMaxTiltRate : ℚ) : ℝ) * _
    norm_num [ServerPipeline.simMaxTiltRate]
    exact under
  refine ⟨?droplets,?velocity,?tilt,⟨by norm_num [fullPour],stop⟩⟩
  case droplets =>
    rw [second,glass]
    exact ⟨by norm_num [fullPour],landed⟩
  case velocity =>
    rw [second]
    exact ⟨le_rfl,ServerPipeline.speedCeilingNonneg nonneg⟩
  case tilt =>
    rw [second]
    exact ⟨Int.cast_nonneg level,rate⟩

theorem fullScore (tierIndex tilt : ℤ) :
    ServerPipeline.rarityScore (fullPour tilt).report tierIndex =
      whole (points 0 tierIndex ⟨483,0,tilt * 1000,15000⟩) := by
  have nonneg : 0 ≤ (fullPour tilt).hold := by norm_num [fullPour]
  rw [scoreOfWords nonneg,fullWords,points,points,shareNothing,shareNothing]

theorem steadyRises :
    ServerPipeline.rarityScore (fullPour 0).report 4 = whole 675 ∧
    ServerPipeline.rarityScore (fullPour 0).report 5 = whole 678 ∧
    NotLower (fullPour 0).report (fullPour 0).report 4 5 := by
  refine ⟨(fullScore 4 0).trans (congrArg whole (by decide +kernel)),
    (fullScore 5 0).trans (congrArg whole (by decide +kernel)),?_⟩
  refine (dearerNoGap (by decide) (legalUntouched (fullLegal (by decide +kernel) le_rfl (by decide)))).mpr ?_
  intro score mem
  unfold gap
  rw [restStill,fullWords,Set.mem_Ico]
  revert score
  decide +kernel

theorem dearerLoses :
    Untouched 4 (fullPour 90).report ∧ Untouched 5 (fullPour 90).report ∧
    ServerPipeline.rarityScore (fullPour 90).report 4 = whole 540 ∧
    ServerPipeline.rarityScore (fullPour 90).report 5 = whole 528 ∧
    ServerPipeline.classify (fullPour 90).report 4 = .uncommon ∧
    ServerPipeline.classify (fullPour 90).report 5 = .common ∧
    ¬ NotLower (fullPour 90).report (fullPour 90).report 4 5 := by
  have cheaper : ServerPipeline.rarityScore (fullPour 90).report 4 = whole 540 :=
    (fullScore 4 90).trans (congrArg whole (by decide +kernel))
  have dearer : ServerPipeline.rarityScore (fullPour 90).report 5 = whole 528 :=
    (fullScore 5 90).trans (congrArg whole (by decide +kernel))
  have legal : ∀ tierIndex, 483 ≤ dropletsMost tierIndex 15000 → Untouched tierIndex (fullPour 90).report :=
    fun tierIndex room => legalUntouched (fullLegal room (by decide) le_rfl)
  refine ⟨legal 4 (by decide +kernel),legal 5 (by decide +kernel),cheaper,dearer,classifyGrade cheaper,
    classifyGrade dearer,fun kept => ?_⟩
  have le := kept.server
  rw [cheaper,dearer,wholeLe] at le
  omega

end Reals
end MoltenPour.TierLaw
