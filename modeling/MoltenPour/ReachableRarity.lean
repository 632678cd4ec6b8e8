import MoltenPour.ClampAgreement
import MoltenPour.RigVelocity

/-! The ceiling printed on a tier row (tiers.ts). In a format that counts both halves
score in integers, four of at most a thousand weighed and scaled by the tier; exact
numbers count, and a flawless pour has all four. -/
namespace MoltenPour.ReachableRarity
open NumberFormat Artifact ClampAgreement

def rank : Rarity → ℕ
  | .common => 0
  | .uncommon => 1
  | .rare => 2
  | .singular => 3

section Definitions
variable {K : Type} [LinearOrder K] [Zero K] [Format K]

/- 9e9 rather than an infinity, which the clamp would take for nothing. -/
def flawless : Telemetry K := ⟨9000000000,9000000000,0,Num.literal ClientPipeline.SIM.maxPourMs⟩

def flawlessPour (tierIndex : ℤ) : Telemetry K :=
  (ClientPipeline.clampTelemetry flawless tierIndex (Num.literal ClientPipeline.SIM.maxPourMs)).telemetry

variable (K) in
def reachableRarity (tierIndex : ℤ) : Rarity :=
  ClientPipeline.classify (flawlessPour (K := K) tierIndex) tierIndex

def whole (n : ℤ) : Num K := Num.literal n

end Definitions

def weighed (tierIndex fill force commitment steadiness : ℤ) : ℤ :=
  (fill * 40 + force * 25 + commitment * 20 + steadiness * 15) / 100 *
    (50 + 10 * (ServerPipeline.clampTierIndex tierIndex).val) / 100

def grade (n : ℤ) : Rarity :=
  if 771 ≤ n then .singular else if 665 ≤ n then .rare else if 533 ≤ n then .uncommon else .common

structure Permille (p : ℤ) : Prop where
  nonneg : 0 ≤ p
  most : p ≤ 1000

section Counting
variable {K : Type} [LinearOrder K] [Zero K] [Format K]

/- A format that takes integers of this size for what they are. -/
structure Counts (K : Type) [LinearOrder K] [Zero K] [Format K] : Prop where
  add : ∀ {a b : ℤ}, |a| < 2 ^ 40 → |b| < 2 ^ 40 → (whole a + whole b : Num K) = whole (a + b)
  sub : ∀ {a b : ℤ}, |a| < 2 ^ 40 → |b| < 2 ^ 40 → (whole a - whole b : Num K) = whole (a - b)
  mul : ∀ {a b : ℤ}, |a| < 2 ^ 40 → |b| < 2 ^ 40 → (whole a * whole b : Num K) = whole (a * b)
  le : ∀ {a b : ℤ}, |a| < 2 ^ 40 → |b| < 2 ^ 40 → ((whole a : Num K) ≤ whole b ↔ a ≤ b)
  below : ∀ {a b : ℤ}, |b| < 2 ^ 40 → a < b → (whole a : Num K) < whole b
  above : ∀ {a b : ℤ}, |a| < 2 ^ 40 → a < b → (whole a : Num K) < whole b
  div : ∀ {a : ℤ} {n : ℕ}, 0 ≤ a → a < 2 ^ 40 → 0 < n → n ≤ 2 ^ 10 →
    Num.floor (whole a / whole n : Num K) = whole (a / n)

structure Weighs (K : Type) [LinearOrder K] [Zero K] [Format K] : Prop where
  squares : SquaresAlike K
  score : ∀ (tierIndex : ℤ) {fill force commitment steadiness : ℤ}, Permille fill → Permille force →
    Permille commitment → Permille steadiness →
    Num.floor (Num.floor ((whole fill * 40 + whole force * 25 + whole commitment * 20 +
        whole steadiness * 15 : Num K) / 100) *
      (Num.literal ServerPipeline.tierReachBase + Num.literal ServerPipeline.tierReachStep *
        Num.literal ((ServerPipeline.clampTierIndex tierIndex).val : ℚ)) / 100) =
      whole (weighed tierIndex fill force commitment steadiness)
  grade : ∀ {n : ℤ}, 0 ≤ n → n ≤ 1000 →
    (if (Num.literal ServerPipeline.thresholdSingular : Num K) ≤ whole n then Rarity.singular
      else if (Num.literal ServerPipeline.thresholdRare : Num K) ≤ whole n then .rare
      else if (Num.literal ServerPipeline.thresholdUncommon : Num K) ≤ whole n then .uncommon
      else .common) = grade n

structure Whole (fill force commitment tilt : Num K) (a b c d : ℤ) : Prop where
  filled : Permille a
  forced : Permille b
  committed : Permille c
  steady : Permille d
  fill : fill = whole a
  force : force = whole b
  commitment : commitment = whole c
  steadiness : 1000 - tilt = whole d

structure Parts (t : Telemetry K) (tierIndex : ℤ) (rounded : Num K → Num K) (holdS : K) (a b c d : ℤ) : Prop where
  nonneg : 0 ≤ holdS
  seconds : Num.floor t.holdMs / 1000 = .fin holdS
  whole : Whole
    (ServerPipeline.permille (Num.floor t.dropletsLanded) (.fin (ServerPipeline.dropletCeiling tierIndex holdS)))
    (ServerPipeline.permille (rounded t.peakVelocity) (rounded (.fin (ServerPipeline.speedCeiling holdS))))
    (ServerPipeline.permille (Num.floor t.holdMs) (Num.literal ServerPipeline.simMaxPourMs))
    (ServerPipeline.permille (rounded (t.tiltEnergy * 1000)) (rounded (.fin (ServerPipeline.tiltCeiling holdS) * 1000)))
    a b c d

structure InIntegers (tierIndex : ℤ) (score : Num K) (rarity : Rarity) (a b c d : ℤ) : Prop where
  filled : Permille a
  forced : Permille b
  committed : Permille c
  steady : Permille d
  score : score = whole (weighed tierIndex a b c d)
  rarity : rarity = grade (weighed tierIndex a b c d)

theorem weighedBounds (tierIndex : ℤ) {fill force commitment steadiness : ℤ} (first : Permille fill)
    (second : Permille force) (third : Permille commitment) (fourth : Permille steadiness) :
    0 ≤ weighed tierIndex fill force commitment steadiness ∧
      weighed tierIndex fill force commitment steadiness ≤
        500 + 100 * (ServerPipeline.clampTierIndex tierIndex).val := by
  obtain ⟨_,_⟩ := first
  obtain ⟨_,_⟩ := second
  obtain ⟨_,_⟩ := third
  obtain ⟨_,_⟩ := fourth
  unfold weighed
  generalize sum : (fill * 40 + force * 25 + commitment * 20 + steadiness * 15) / 100 = base
  generalize tier : ((ServerPipeline.clampTierIndex tierIndex).val : ℤ) = reach
  have low : 0 ≤ base * (50 + 10 * reach) := mul_nonneg (by omega) (by omega)
  have high : base * (50 + 10 * reach) ≤ 1000 * (50 + 10 * reach) :=
    mul_le_mul_of_nonneg_right (by omega) (by omega)
  omega

theorem weighedWithin (tierIndex : ℤ) {a b c d : ℤ} (first : Permille a) (second : Permille b)
    (third : Permille c) (fourth : Permille d) :
    0 ≤ weighed tierIndex a b c d ∧ weighed tierIndex a b c d ≤ 1000 := by
  obtain ⟨low,high⟩ := weighedBounds tierIndex first second third fourth
  have tier := (ServerPipeline.clampTierIndex tierIndex).isLt
  exact ⟨low,high.trans (by omega)⟩

theorem wholeNumeral (n : ℕ) : (OfNat.ofNat n : Num K) = whole n := by
  have cast : ((n : ℤ) : ℚ) = n := Int.cast_natCast n
  exact congrArg Num.literal cast.symm

section Components
variable (counts : Counts K)
include counts

theorem permilleWhole {value max : Num K} (finite : value.isFinite = true) (bound : max.isFinite = true) :
    ∃ p, Permille p ∧ ServerPipeline.permille value max = whole p := by
  obtain ⟨x,rfl⟩ := Num.finiteExists finite
  obtain ⟨m,rfl⟩ := Num.finiteExists bound
  have zero : (0 : Num K) = whole 0 := wholeNumeral 0
  have thousand : (1000 : Num K) = whole 1000 := wholeNumeral 1000
  unfold ServerPipeline.permille
  split
  · exact ⟨0,⟨by omega,by omega⟩,zero⟩
  · rename_i positive
    have nonzero : m ≠ 0 := by
      rintro rfl
      exact positive (by simp)
    obtain ⟨p,quotient⟩ : ∃ p, Num.floor (Num.fin x * 1000 / Num.fin m) = whole p := by
      rw [thousand,whole,Num.literal,Num.mulFin,Num.divFin _ nonzero]
      exact ⟨_,rfl⟩
    rw [quotient,zero,thousand]
    dsimp only
    split
    · exact ⟨0,⟨by omega,by omega⟩,rfl⟩
    · rename_i low
      split
      · exact ⟨1000,⟨by omega,by omega⟩,rfl⟩
      · rename_i high
        refine ⟨p,⟨?nonneg,?most⟩,rfl⟩
        case nonneg =>
          by_contra under
          exact low (counts.below (by decide) (not_le.mp under))
        case most =>
          by_contra beyond
          exact high (counts.above (by decide) (not_le.mp beyond))

theorem weighedScore (tierIndex : ℤ) {fill force commitment steadiness : ℤ} (first : Permille fill)
    (second : Permille force) (third : Permille commitment) (fourth : Permille steadiness) :
    Num.floor (Num.floor ((whole fill * 40 + whole force * 25 + whole commitment * 20 +
        whole steadiness * 15 : Num K) / 100) *
      (Num.literal ServerPipeline.tierReachBase + Num.literal ServerPipeline.tierReachStep *
        Num.literal ((ServerPipeline.clampTierIndex tierIndex).val : ℚ)) / 100) =
      whole (weighed tierIndex fill force commitment steadiness) := by
  obtain ⟨_,_⟩ := first
  obtain ⟨_,_⟩ := second
  obtain ⟨_,_⟩ := third
  obtain ⟨_,_⟩ := fourth
  have base : (Num.literal ServerPipeline.tierReachBase : Num K) = whole 50 := by
    norm_num [ServerPipeline.tierReachBase,whole]
  have step : (Num.literal ServerPipeline.tierReachStep : Num K) = whole 10 := by
    norm_num [ServerPipeline.tierReachStep,whole]
  have tier : (Num.literal ((ServerPipeline.clampTierIndex tierIndex).val : ℚ) : Num K) =
      whole (ServerPipeline.clampTierIndex tierIndex).val := wholeNumeral _
  have most := (ServerPipeline.clampTierIndex tierIndex).isLt
  unfold weighed
  generalize (ServerPipeline.clampTierIndex tierIndex).val = reach at tier most
  have sum : (whole fill * 40 + whole force * 25 + whole commitment * 20 + whole steadiness * 15 : Num K) =
      whole (fill * 40 + force * 25 + commitment * 20 + steadiness * 15) := by
    rw [wholeNumeral 40,wholeNumeral 25,wholeNumeral 20,wholeNumeral 15]
    simp (disch := rw [abs_lt]; omega) only [counts.mul,counts.add]
    rfl
  have scale : (whole 50 + whole 10 * whole reach : Num K) = whole (50 + 10 * reach) := by
    simp (disch := rw [abs_lt]; omega) only [counts.mul,counts.add]
  have hundredth : ∀ {n : ℤ}, 0 ≤ n → n < 2 ^ 40 → Num.floor (whole n / 100 : Num K) = whole (n / 100) := by
    intro n low high
    rw [wholeNumeral 100]
    exact counts.div low high (by decide) (by decide)
  have mean : 0 ≤ (fill * 40 + force * 25 + commitment * 20 + steadiness * 15) / 100 ∧
      (fill * 40 + force * 25 + commitment * 20 + steadiness * 15) / 100 ≤ 1000 := by omega
  rw [base,step,tier,sum,scale,hundredth (by omega) (by omega)]
  generalize (fill * 40 + force * 25 + commitment * 20 + steadiness * 15) / 100 = points at mean
  have low : 0 ≤ points * (50 + 10 * (reach : ℤ)) := mul_nonneg mean.1 (by omega)
  have high : points * (50 + 10 * (reach : ℤ)) ≤ 1000 * (50 + 10 * reach) :=
    mul_le_mul_of_nonneg_right mean.2 (by omega)
  rw [counts.mul (abs_lt.mpr (by omega)) (abs_lt.mpr (by omega))]
  exact hundredth low (by omega)

theorem bandGrade {n : ℤ} (nonneg : 0 ≤ n) (most : n ≤ 1000) :
    (if (Num.literal ServerPipeline.thresholdSingular : Num K) ≤ whole n then Rarity.singular
      else if (Num.literal ServerPipeline.thresholdRare : Num K) ≤ whole n then .rare
      else if (Num.literal ServerPipeline.thresholdUncommon : Num K) ≤ whole n then .uncommon
      else .common) = grade n := by
  have threshold : ∀ {q : ℚ} {m : ℤ}, 0 ≤ m → m ≤ 1000 → q = m →
      ((Num.literal q : Num K) ≤ whole n ↔ m ≤ n) := by
    rintro q m low high rfl
    exact counts.le (abs_lt.mpr (by omega)) (abs_lt.mpr (by omega))
  have singular := @threshold ServerPipeline.thresholdSingular 771 (by omega) (by omega)
    (by norm_num [ServerPipeline.thresholdSingular])
  have rare := @threshold ServerPipeline.thresholdRare 665 (by omega) (by omega)
    (by norm_num [ServerPipeline.thresholdRare])
  have uncommon := @threshold ServerPipeline.thresholdUncommon 533 (by omega) (by omega)
    (by norm_num [ServerPipeline.thresholdUncommon])
  unfold grade
  simp only [singular,rare,uncommon]

theorem countsWeighs (squares : SquaresAlike K) : Weighs K :=
  ⟨squares,weighedScore counts,bandGrade counts⟩

theorem partsWhole {drops speed hold tilt mostDrops mostSpeed longest mostTilt : Num K}
    (finite : ∀ v ∈ [drops,speed,hold,tilt,mostDrops,mostSpeed,longest,mostTilt], v.isFinite = true) :
    ∃ a b c d, Whole (ServerPipeline.permille drops mostDrops) (ServerPipeline.permille speed mostSpeed)
      (ServerPipeline.permille hold longest) (ServerPipeline.permille tilt mostTilt) a b c d := by
  obtain ⟨fill,first,filled⟩ := permilleWhole counts (finite drops (by simp)) (finite mostDrops (by simp))
  obtain ⟨force,second,forced⟩ := permilleWhole counts (finite speed (by simp)) (finite mostSpeed (by simp))
  obtain ⟨commitment,third,committed⟩ := permilleWhole counts (finite hold (by simp)) (finite longest (by simp))
  obtain ⟨lost,fourth,tilted⟩ := permilleWhole counts (finite tilt (by simp)) (finite mostTilt (by simp))
  obtain ⟨_,_⟩ := fourth
  have steadiness : (1000 - whole lost : Num K) = whole (1000 - lost) := by
    rw [wholeNumeral 1000]
    exact counts.sub (by decide) (abs_lt.mpr (by omega))
  refine ⟨fill,force,commitment,1000 - lost,first,second,third,⟨by omega,by omega⟩,filled,forced,committed,?_⟩
  rw [tilted,steadiness]

variable {t : Telemetry K} (finite : ServerPipeline.FiniteTelemetry t) (tierIndex : ℤ)
include finite

omit counts in
theorem holdSeconds : ∃ holdS : K, 0 ≤ holdS ∧ (Num.floor t.holdMs / 1000 : Num K) = .fin holdS := by
  obtain ⟨h,nonneg,hold⟩ := finite.hold
  have floored : (0 : K) ≤ Format.literal (Format.floor h : ℤ) :=
    Num.literalNonneg (by exact_mod_cast Format.floorNonneg nonneg)
  have thousand := Format.literalPos (K := K) (by norm_num : (0 : ℚ) < 1000)
  refine ⟨_,Format.divNonneg floored thousand,?_⟩
  rw [hold]
  exact ServerPipeline.perSecond _

theorem holdParts {rounded : Num K → Num K}
    (keeps : ∀ {v : Num K}, v.isFinite = true → (rounded v).isFinite = true) :
    ∃ holdS a b c d, Parts t tierIndex rounded holdS a b c d := by
  obtain ⟨holdS,nonneg,seconds⟩ := holdSeconds finite
  have thousand : ∀ {v : Num K}, v.isFinite = true → (v * 1000).isFinite = true :=
    fun finite => Num.mulFinite finite (Num.literalFinite 1000)
  have all : ∀ v ∈ [Num.floor t.dropletsLanded,rounded t.peakVelocity,Num.floor t.holdMs,rounded (t.tiltEnergy * 1000),
      .fin (ServerPipeline.dropletCeiling tierIndex holdS),rounded (.fin (ServerPipeline.speedCeiling holdS)),
      Num.literal ServerPipeline.simMaxPourMs,rounded (.fin (ServerPipeline.tiltCeiling holdS) * 1000)],
      v.isFinite = true := by
    simp only [List.forall_mem_cons,List.not_mem_nil,false_implies,implies_true,and_true]
    exact ⟨Num.floorFinite finite.droplets,keeps finite.velocity,Num.floorFinite finite.holdFinite,
      keeps (thousand finite.tilt),rfl,keeps rfl,rfl,keeps (thousand rfl)⟩
  obtain ⟨a,b,c,d,whole⟩ := partsWhole counts all
  exact ⟨holdS,a,b,c,d,nonneg,seconds,whole⟩

end Components

section Halves
variable (weighs : Weighs K) {t : Telemetry K} {tierIndex : ℤ} {holdS : K} {a b c d : ℤ}
include weighs

theorem serverWeighed (parts : Parts t tierIndex ServerPipeline.jsRound holdS a b c d) :
    InIntegers tierIndex (ServerPipeline.rarityScore t tierIndex) (ServerPipeline.classify t tierIndex) a b c d := by
  obtain ⟨nonneg,seconds,parts⟩ := parts
  have score : ServerPipeline.rarityScore t tierIndex = whole (weighed tierIndex a b c d) := by
    unfold ServerPipeline.rarityScore
    simp only [seconds,ServerPipeline.ceilingsFin tierIndex nonneg,parts.fill,parts.force,parts.commitment,
      parts.steadiness]
    exact weighs.score tierIndex parts.filled parts.forced parts.committed parts.steady
  refine ⟨parts.filled,parts.forced,parts.committed,parts.steady,score,?_⟩
  obtain ⟨low,high⟩ := weighedWithin tierIndex parts.filled parts.forced parts.committed parts.steady
  unfold ServerPipeline.classify
  rw [score]
  exact weighs.grade low high

theorem clientWeighed (parts : Parts t tierIndex ClientPipeline.mathRound holdS a b c d) :
    InIntegers tierIndex (ClientPipeline.rarityScore t tierIndex) (ClientPipeline.classify t tierIndex) a b c d ∧
      ClientPipeline.scoreParts t tierIndex = ⟨whole a,whole b,whole c,whole d,whole (weighed tierIndex a b c d)⟩ := by
  obtain ⟨nonneg,seconds,parts⟩ := parts
  have made : ClientPipeline.scoreParts t tierIndex =
      ⟨whole a,whole b,whole c,whole d,whole (weighed tierIndex a b c d)⟩ := by
    rw [← weighs.score tierIndex parts.filled parts.forced parts.committed parts.steady,← parts.fill,← parts.force,
      ← parts.commitment,← parts.steadiness]
    unfold ClientPipeline.scoreParts
    simp only [seconds,ceilingsAgree weighs.squares,ServerPipeline.ceilingsFin tierIndex nonneg,tierAgrees]
    rfl
  have score : ClientPipeline.rarityScore t tierIndex = whole (weighed tierIndex a b c d) :=
    congrArg ClientPipeline.ScoreParts.score made
  refine ⟨⟨parts.filled,parts.forced,parts.committed,parts.steady,score,?_⟩,made⟩
  obtain ⟨low,high⟩ := weighedWithin tierIndex parts.filled parts.forced parts.committed parts.steady
  unfold ClientPipeline.classify
  rw [score]
  exact weighs.grade low high

end Halves

theorem serverInIntegers (squares : SquaresAlike K) (counts : Counts K) {t : Telemetry K}
    (finite : ServerPipeline.FiniteTelemetry t) (tierIndex : ℤ) : ∃ a b c d, InIntegers tierIndex
      (ServerPipeline.rarityScore t tierIndex) (ServerPipeline.classify t tierIndex) a b c d := by
  obtain ⟨holdS,a,b,c,d,parts⟩ := holdParts counts finite tierIndex (fun finite => ServerPipeline.jsRoundFinite finite)
  exact ⟨a,b,c,d,serverWeighed (countsWeighs counts squares) parts⟩

end Counting

section Exact
variable {K : Type} [Field K] [LinearOrder K] [IsStrictOrderedRing K] [FloorRing K] [SquareRoot K]

theorem wholeCast (n : ℤ) : (whole n : Num K) = .fin (n : K) := congrArg Num.fin (Rat.cast_intCast n)

theorem wholeLe {a b : ℤ} : (whole a : Num K) ≤ whole b ↔ a ≤ b := by
  rw [wholeCast,wholeCast,Num.leFin,Int.cast_le]

theorem wholeLt {a b : ℤ} : (whole a : Num K) < whole b ↔ a < b := by
  rw [wholeCast,wholeCast,Num.ltFin,Int.cast_lt]

theorem wholeAdd (a b : ℤ) : (whole a + whole b : Num K) = whole (a + b) := by
  rw [wholeCast,wholeCast,wholeCast,Int.cast_add]
  rfl

theorem wholeSub (a b : ℤ) : (whole a - whole b : Num K) = whole (a - b) := by
  rw [wholeCast,wholeCast,wholeCast,Int.cast_sub]
  rfl

theorem wholeMul (a b : ℤ) : (whole a * whole b : Num K) = whole (a * b) := by
  rw [wholeCast,wholeCast,wholeCast,Int.cast_mul]
  rfl

theorem wholeFloor (x : K) : Num.floor (.fin x) = whole ⌊x⌋ := rfl

theorem wholeDiv (a : ℤ) {n : ℕ} (positive : 0 < n) :
    Num.floor (whole a / whole n : Num K) = whole (a / n) := by
  have nonzero : ((n : ℤ) : K) ≠ 0 := by exact_mod_cast positive.ne'
  have floor : ⌊(a : K) / ((n : ℤ) : K)⌋ = a / n := by
    rw [Int.cast_natCast,Int.floor_div_natCast,Int.floor_intCast]
  rw [wholeCast,wholeCast,Num.divFin _ nonzero,wholeFloor]
  exact congrArg whole floor

theorem roundsAlike (v : Num K) : ClientPipeline.mathRound v = ServerPipeline.jsRound v := by
  cases v with
  | nan => rfl
  | inf s => rfl
  | fin x =>
    have half : ((0.5 : ℚ) : K) = 1 / 2 := by norm_num
    have server : ServerPipeline.jsRound (.fin x) = whole ⌊x + ((0.5 : ℚ) : K)⌋ := rfl
    rw [server,half]
    rfl

theorem scoresAlike {t : Telemetry K} {h : K} (hold : t.holdMs = .fin h) (tierIndex : ℤ) :
    ClientPipeline.rarityScore t tierIndex = ServerPipeline.rarityScore t tierIndex := by
  have second : (Num.floor t.holdMs / 1000 : Num K) =
      .fin (Format.div (Format.literal (Format.floor h : ℤ)) (Format.literal 1000)) := by
    rw [hold]
    exact ServerPipeline.perSecond _
  unfold ClientPipeline.rarityScore ClientPipeline.scoreParts ServerPipeline.rarityScore
  simp only [second,ceilingsAgree squaresAlike,roundsAlike,tierAgrees]
  rfl

theorem exactCounts : Counts K where
  add _ _ := wholeAdd ..
  sub _ _ := wholeSub ..
  mul _ _ := wholeMul ..
  le _ _ := wholeLe
  below _ less := wholeLt.mpr less
  above _ less := wholeLt.mpr less
  div _ _ positive _ := wholeDiv _ positive

theorem scoreWhole {t : Telemetry K} (finite : ServerPipeline.FiniteTelemetry t) (tierIndex : ℤ) :
    ∃ n : ℤ, 0 ≤ n ∧ n ≤ 500 + 100 * (ServerPipeline.clampTierIndex tierIndex).val ∧
      ServerPipeline.rarityScore t tierIndex = whole n := by
  obtain ⟨a,b,c,d,score⟩ := serverInIntegers squaresAlike exactCounts finite tierIndex
  obtain ⟨low,high⟩ := weighedBounds tierIndex score.filled score.forced score.committed score.steady
  exact ⟨_,low,high,score.score⟩

theorem permilleFull {n : ℤ} (positive : 0 < n) :
    ServerPipeline.permille (whole n : Num K) (whole n) = whole 1000 := by
  have zero : (0 : Num K) = whole 0 := wholeNumeral 0
  have thousand : (1000 : Num K) = whole 1000 := wholeNumeral 1000
  have nonzero : (n : K) ≠ 0 := by exact_mod_cast positive.ne'
  have quotient : Num.floor (whole n * 1000 / whole n : Num K) = whole 1000 := by
    have full : ⌊(n : K) * ((1000 : ℤ) : K) / n⌋ = 1000 := by
      rw [mul_div_cancel_left₀ _ nonzero,Int.floor_intCast]
    rw [thousand,wholeCast,wholeCast,Num.mulFin,Num.divFin _ nonzero,wholeFloor]
    exact (congrArg whole full).trans (wholeCast 1000)
  have room : ¬ (whole n : Num K) ≤ whole 0 := wholeLe.not.mpr (not_le.mpr positive)
  have low : ¬ (whole 1000 : Num K) < whole 0 := wholeLt.not.mpr (by omega)
  have high : ¬ (whole 1000 : Num K) < whole 1000 := wholeLt.not.mpr (by omega)
  unfold ServerPipeline.permille
  rw [quotient,zero,thousand,if_neg room]
  dsimp only
  rw [if_neg low,if_neg high]

theorem permilleNothing {max : Num K} (finite : max.isFinite = true) :
    ServerPipeline.permille (whole 0 : Num K) max = whole 0 := by
  obtain ⟨m,rfl⟩ := Num.finiteExists finite
  have zero : (0 : Num K) = whole 0 := wholeNumeral 0
  have thousand : (1000 : Num K) = whole 1000 := wholeNumeral 1000
  unfold ServerPipeline.permille
  split
  · exact zero
  · rename_i positive
    have nonzero : m ≠ 0 := by
      rintro rfl
      exact positive (by simp)
    have nothing : ⌊((0 : ℤ) : K) * ((1000 : ℤ) : K) / m⌋ = 0 := by simp
    have quotient : Num.floor (whole 0 * 1000 / Num.fin m : Num K) = whole 0 := by
      rw [thousand,wholeCast,wholeCast,Num.mulFin,Num.divFin _ nonzero,wholeFloor]
      exact (congrArg whole nothing).trans (wholeCast 0)
    have low : ¬ (whole 0 : Num K) < whole 0 := wholeLt.not.mpr (by omega)
    have high : ¬ (whole 1000 : Num K) < whole 0 := wholeLt.not.mpr (by omega)
    rw [quotient,zero,thousand]
    dsimp only
    rw [if_neg low,if_neg high]

end Exact

section Grades

theorem gradeRises {n m : ℤ} (le : n ≤ m) : rank (grade n) ≤ rank (grade m) := by
  unfold grade
  split_ifs <;> first | omega | exact Nat.le_of_ble_eq_true rfl

variable {K : Type} [Field K] [LinearOrder K] [IsStrictOrderedRing K] [FloorRing K] [SquareRoot K]

theorem classifyGrade {t : Telemetry K} {tierIndex n : ℤ}
    (score : ServerPipeline.rarityScore t tierIndex = whole n) :
    ServerPipeline.classify t tierIndex = grade n := by
  have threshold : ∀ {q : ℚ} {m : ℤ}, q = m → ((Num.literal q : Num K) ≤ whole n ↔ m ≤ n) := by
    rintro q m rfl
    exact wholeLe
  have singular := @threshold ServerPipeline.thresholdSingular 771 (by norm_num [ServerPipeline.thresholdSingular])
  have rare := @threshold ServerPipeline.thresholdRare 665 (by norm_num [ServerPipeline.thresholdRare])
  have uncommon := @threshold ServerPipeline.thresholdUncommon 533 (by norm_num [ServerPipeline.thresholdUncommon])
  unfold ServerPipeline.classify grade
  simp only [score,singular,rare,uncommon]

theorem classesAlike {t : Telemetry K} {h : K} (hold : t.holdMs = .fin h) (tierIndex : ℤ) :
    ClientPipeline.classify t tierIndex = ServerPipeline.classify t tierIndex := by
  unfold ClientPipeline.classify ServerPipeline.classify
  rw [scoresAlike hold]
  rfl

end Grades

section Reals

theorem fifteenSeconds : Format.div (Format.literal (15000 : ℚ)) (Format.literal (1000 : ℚ)) = (15 : ℝ) := by
  have quotient : ((15000 : ℚ) : ℝ) / ((1000 : ℚ) : ℝ) = 15 := by norm_num
  exact quotient

theorem dropletsAllowed (tierIndex : ℤ) :
    ∃ n : ℤ, 0 < n ∧ n ≤ 9000000000 ∧ ServerPipeline.dropletCeiling tierIndex (15 : ℝ) = n := by
  refine ⟨⌈((ServerPipeline.tierFlow (ServerPipeline.clampTierIndex tierIndex) : ℚ) : ℝ) * 15 *
    (ServerPipeline.simDropletTolerar : ℚ)⌉,?_,?_,Rat.cast_intCast _⟩
  · rw [Int.ceil_pos]
    generalize ServerPipeline.clampTierIndex tierIndex = tier
    fin_cases tier <;> norm_num [ServerPipeline.tierFlow,ServerPipeline.simDropletTolerar]
  · rw [Int.ceil_le]
    generalize ServerPipeline.clampTierIndex tierIndex = tier
    fin_cases tier <;> norm_num [ServerPipeline.tierFlow,ServerPipeline.simDropletTolerar]

theorem terminalSpeed : 1980 ≤ ServerPipeline.speedCeiling (15 : ℝ) ∧
    ServerPipeline.speedCeiling (15 : ℝ) ≤ 1982 := by
  have fall : ServerPipeline.maxFall (15 : ℝ) = 1800 := by
    have value : ((ServerPipeline.simSpawnVyMax : ℚ) : ℝ) +
        ((ServerPipeline.simGravity : ℚ) : ℝ) * min 15 ((1.2 : ℚ) : ℝ) = 1800 := by
      norm_num [ServerPipeline.simSpawnVyMax,ServerPipeline.simGravity]
    exact value
  have squared : ServerPipeline.fallSquared (15 : ℝ) = 3242025 := by
    have value : (1800 : ℝ) * 1800 +
        ((ServerPipeline.simSpawnVxMax * ServerPipeline.simSpawnVxMax : ℚ) : ℝ) = 3242025 := by
      norm_num [ServerPipeline.simSpawnVxMax]
    unfold ServerPipeline.fallSquared
    rw [fall]
    exact value
  have speed : ServerPipeline.speedCeiling (15 : ℝ) = √3242025 * ((1.1 : ℚ) : ℝ) := by
    unfold ServerPipeline.speedCeiling
    rw [squared]
    rfl
  have low : 1800 ≤ √3242025 := Real.le_sqrt_of_sq_le (by norm_num)
  have high : √3242025 ≤ 1801 := Real.sqrt_le_iff.mpr ⟨by norm_num,by norm_num⟩
  rw [speed]
  push_cast
  constructor
  · linarith
  · linarith

theorem flawlessClamped (tierIndex : ℤ) :
    (ServerPipeline.clampTelemetry (flawless : Telemetry ℝ) tierIndex
        (Num.literal ServerPipeline.simMaxPourMs)).telemetry =
      ⟨.fin (ServerPipeline.dropletCeiling tierIndex 15),.fin (ServerPipeline.speedCeiling 15),.fin 0,
        Num.literal ServerPipeline.simMaxPourMs⟩ := by
  obtain ⟨n,-,few,droplets⟩ := dropletsAllowed tierIndex
  have few : (n : ℝ) ≤ 9000000000 := by exact_mod_cast few
  have slow := terminalSpeed.2
  have stop : (0 : ℝ) ≤ ((15000 : ℚ) : ℝ) := by norm_num
  have nonneg : (0 : Num ℝ) ≤ Num.literal ServerPipeline.simMaxPourMs := Num.literalAtLeast (by
    norm_num [ServerPipeline.simMaxPourMs])
  have held : ServerPipeline.heldMs (flawless : Telemetry ℝ) (Num.literal ServerPipeline.simMaxPourMs) =
      Format.literal ServerPipeline.simMaxPourMs := by
    have value : min (max 0 ((15000 : ℚ) : ℝ)) (min ((15000 : ℚ) : ℝ) ((15000 : ℚ) : ℝ)) =
        ((15000 : ℚ) : ℝ) := by
      rw [max_eq_right stop,min_self,min_self]
    exact value
  have second : ServerPipeline.heldS (flawless : Telemetry ℝ)
      (Num.literal ServerPipeline.simMaxPourMs) = 15 := by
    unfold ServerPipeline.heldS
    rw [held]
    exact fifteenSeconds
  have claim : ∀ {m : ℝ}, m ≤ 9000000000 → min (sane (9000000000 : Num ℝ)) m = m := by
    intro m under
    have value : sane (9000000000 : Num ℝ) = 9000000000 := by
      have cast : max 0 ((((9000000000 : ℕ) : ℚ)) : ℝ) = 9000000000 := by norm_num
      exact cast
    rw [value,min_eq_right under]
  have still : min (sane (0 : Num ℝ)) (ServerPipeline.tiltCeiling 15) = 0 := by
    have value : sane (0 : Num ℝ) = 0 := by
      rw [Num.zeroFin]
      exact max_self 0
    have positive : (0 : ℝ) ≤ ServerPipeline.tiltCeiling 15 :=
      Format.mulNonneg (Num.literalNonneg (by norm_num [ServerPipeline.simMaxTiltRate])) (by norm_num)
    rw [value,min_eq_left positive]
  rw [ServerPipeline.clampTelemetryFin _ _ nonneg,held,second]
  have fill := claim (droplets ▸ few)
  have force := claim (slow.trans (by norm_num))
  simp only [flawless,fill,force,still]
  rfl

theorem flawlessScore (tierIndex : ℤ) :
    ServerPipeline.rarityScore (⟨.fin (ServerPipeline.dropletCeiling tierIndex 15),
        .fin (ServerPipeline.speedCeiling 15),.fin 0,Num.literal ServerPipeline.simMaxPourMs⟩ :
        Telemetry ℝ) tierIndex =
      whole (500 + 100 * (ServerPipeline.clampTierIndex tierIndex).val) := by
  obtain ⟨n,some,-,droplets⟩ := dropletsAllowed tierIndex
  have stop : (Num.literal ServerPipeline.simMaxPourMs : Num ℝ) = whole 15000 := by
    norm_num [ServerPipeline.simMaxPourMs,whole]
  have floor : ∀ m : ℤ, Num.floor (whole m : Num ℝ) = whole m := by
    intro m
    rw [wholeCast,wholeFloor,Int.floor_intCast,wholeCast]
  have seconds : (whole 15000 / 1000 : Num ℝ) = .fin 15 :=
    (ServerPipeline.perSecond _).trans (congrArg Num.fin fifteenSeconds)
  have landed : (Num.fin (ServerPipeline.dropletCeiling tierIndex 15) : Num ℝ) = whole n := by
    rw [droplets,wholeCast]
  have speed : ∃ m : ℤ, 0 < m ∧
      ServerPipeline.jsRound (Num.fin (ServerPipeline.speedCeiling 15) : Num ℝ) = whole m := by
    refine ⟨⌊ServerPipeline.speedCeiling (15 : ℝ) + ((0.5 : ℚ) : ℝ)⌋,?_,rfl⟩
    have fast := terminalSpeed.1
    have one : ((1 : ℤ) : ℝ) ≤ ServerPipeline.speedCeiling 15 + ((0.5 : ℚ) : ℝ) := by
      push_cast
      linarith
    exact Int.le_floor.mpr one
  obtain ⟨m,fast,speed⟩ := speed
  have still : ServerPipeline.jsRound (Num.fin 0 * 1000 : Num ℝ) = whole 0 := by
    have nothing : ⌊(0 : ℝ) * (((1000 : ℕ) : ℚ) : ℝ) + ((0.5 : ℚ) : ℝ)⌋ = 0 := by
      rw [zero_mul,zero_add,Int.floor_eq_zero_iff]
      constructor
      · norm_num
      · norm_num
    exact congrArg (whole (K := ℝ)) nothing
  have thousand : (1000 : Num ℝ) - whole 0 = whole 1000 := by
    rw [wholeNumeral 1000]
    exact wholeSub 1000 0
  have tilt : (ServerPipeline.jsRound (Num.fin (ServerPipeline.tiltCeiling 15) * 1000 : Num ℝ)).isFinite =
      true := ServerPipeline.jsRoundFinite rfl
  have full : Permille 1000 := ⟨by omega,le_rfl⟩
  unfold ServerPipeline.rarityScore
  simp only [stop,floor,seconds,ServerPipeline.ceilingsFin tierIndex (by norm_num : (0 : ℝ) ≤ 15)]
  rw [landed,floor,speed,still,permilleFull some,permilleFull fast,permilleFull (by omega),
    permilleNothing tilt,thousand,weighedScore exactCounts tierIndex full full full full]
  refine congrArg whole ?_
  unfold weighed
  omega

theorem flawlessAlike (tierIndex : ℤ) :
    (flawlessPour tierIndex : Telemetry ℝ) = (ServerPipeline.clampTelemetry flawless tierIndex
      (Num.literal ServerPipeline.simMaxPourMs)).telemetry := by
  have nonneg : (0 : Num ℝ) ≤ Num.literal ServerPipeline.simMaxPourMs := Num.literalAtLeast (by
    norm_num [ServerPipeline.simMaxPourMs])
  rw [clampsAgree squaresAlike flawless tierIndex nonneg]
  rfl

theorem flawlessHold (tierIndex : ℤ) :
    (flawlessPour tierIndex : Telemetry ℝ).holdMs = .fin (Format.literal ServerPipeline.simMaxPourMs) := by
  rw [flawlessAlike,flawlessClamped]
  rfl

theorem bestScore (tierIndex : ℤ) :
    ClientPipeline.rarityScore (flawlessPour tierIndex : Telemetry ℝ) tierIndex =
      whole (500 + 100 * (ServerPipeline.clampTierIndex tierIndex).val) := by
  rw [scoresAlike (flawlessHold tierIndex),flawlessAlike,flawlessClamped,flawlessScore]

theorem bestGrade (tierIndex : ℤ) :
    reachableRarity ℝ tierIndex = grade (500 + 100 * (ServerPipeline.clampTierIndex tierIndex).val) := by
  have server := scoresAlike (flawlessHold tierIndex) tierIndex
  have best := classifyGrade (server.symm.trans (bestScore tierIndex))
  exact (classesAlike (flawlessHold tierIndex) tierIndex).trans best

structure Capped (tierIndex : ℤ) (score : Num ℝ) (rarity : Rarity) : Prop where
  counted : ∃ n : ℤ, 0 ≤ n ∧ score = whole n
  under : score ≤ ClientPipeline.rarityScore (flawlessPour tierIndex) tierIndex
  reach : rank rarity ≤ rank (reachableRarity ℝ tierIndex)
  free : tierIndex ≤ 0 → rarity = .common
  cheap : tierIndex < 3 → rarity ≠ .singular

structure Attained (tierIndex : ℤ) : Prop where
  client : ClientPipeline.rarityScore (flawlessPour tierIndex : Telemetry ℝ) tierIndex =
    whole (500 + 100 * (ServerPipeline.clampTierIndex tierIndex).val)
  server : ServerPipeline.rarityScore (ServerPipeline.clampTelemetry (flawless : Telemetry ℝ) tierIndex
      (Num.literal ServerPipeline.simMaxPourMs)).telemetry tierIndex =
    whole (500 + 100 * (ServerPipeline.clampTierIndex tierIndex).val)
  rarity : ServerPipeline.classify (ServerPipeline.clampTelemetry (flawless : Telemetry ℝ) tierIndex
      (Num.literal ServerPipeline.simMaxPourMs)).telemetry tierIndex = reachableRarity ℝ tierIndex

theorem attained (tierIndex : ℤ) : Attained tierIndex := by
  have server := flawlessScore tierIndex
  rw [← flawlessClamped tierIndex] at server
  exact ⟨bestScore tierIndex,server,(classifyGrade server).trans (bestGrade tierIndex).symm⟩

theorem tierRises {low high : ℤ} (le : low ≤ high) :
    (ServerPipeline.clampTierIndex low).val ≤ (ServerPipeline.clampTierIndex high).val := by
  unfold ServerPipeline.clampTierIndex
  split_ifs <;> simp <;> omega

theorem tierNumber {tierIndex n : ℤ} (nonneg : 0 ≤ n) (le : tierIndex ≤ n) :
    ((ServerPipeline.clampTierIndex tierIndex).val : ℤ) ≤ n := by
  unfold ServerPipeline.clampTierIndex
  split_ifs <;> simp <;> omega

theorem gradeCapped {tierIndex n : ℤ} (nonneg : 0 ≤ n)
    (under : n ≤ 500 + 100 * (ServerPipeline.clampTierIndex tierIndex).val) :
    Capped tierIndex (whole n) (grade n) := by
  refine ⟨⟨n,nonneg,rfl⟩,?under,?reach,?free,?cheap⟩
  case under =>
    rw [bestScore]
    exact wholeLe.mpr under
  case reach =>
    rw [bestGrade]
    exact gradeRises under
  case free =>
    intro free
    have tier := tierNumber le_rfl free
    unfold grade
    rw [if_neg (by omega),if_neg (by omega),if_neg (by omega)]
  case cheap =>
    intro cheap
    have tier := tierNumber (by omega : (0 : ℤ) ≤ 2) (Int.le_of_lt_add_one cheap)
    unfold grade
    rw [if_neg (by omega)]
    split_ifs <;> simp

theorem nothingAboveCeiling (tierIndex : ℤ) (raw : Telemetry ℝ) {wallClockMs : Num ℝ}
    (nonneg : 0 ≤ wallClockMs) :
    Capped tierIndex
      (ClientPipeline.rarityScore (ClientPipeline.clampTelemetry raw tierIndex wallClockMs).telemetry tierIndex)
      (ClientPipeline.classify (ClientPipeline.clampTelemetry raw tierIndex wallClockMs).telemetry tierIndex) ∧
    Capped tierIndex
      (ServerPipeline.rarityScore (ServerPipeline.clampTelemetry raw tierIndex wallClockMs).telemetry tierIndex)
      (ServerPipeline.classify (ServerPipeline.clampTelemetry raw tierIndex wallClockMs).telemetry tierIndex) ∧
    Attained tierIndex ∧
    ∀ higher, tierIndex ≤ higher → rank (reachableRarity ℝ tierIndex) ≤ rank (reachableRarity ℝ higher) := by
  have clamps := clampsAgree squaresAlike raw tierIndex nonneg
  have finite := ServerPipeline.clampFinite raw tierIndex nonneg
  have same : (ClientPipeline.clampTelemetry raw tierIndex wallClockMs).telemetry =
      (ServerPipeline.clampTelemetry raw tierIndex wallClockMs).telemetry := by rw [clamps]
  obtain ⟨h,-,hold⟩ := finite.hold
  obtain ⟨n,low,high,score⟩ := scoreWhole finite tierIndex
  rw [same,classesAlike hold,scoresAlike hold,classifyGrade score,score]
  refine ⟨gradeCapped low high,gradeCapped low high,attained tierIndex,?_⟩
  intro higher le
  rw [bestGrade,bestGrade]
  have tier := tierRises le
  exact gradeRises (by omega)

theorem nonsenseCapped :
    Capped 2
      (ServerPipeline.rarityScore (ServerPipeline.clampTelemetry ⟨.inf false,9000,.nan,20000⟩ 2
        (15000 : Num ℝ)).telemetry 2)
      (ServerPipeline.classify (ServerPipeline.clampTelemetry ⟨.inf false,9000,.nan,20000⟩ 2
        (15000 : Num ℝ)).telemetry 2) := by
  have nonneg : (0 : Num ℝ) ≤ 15000 := Num.literalAtLeast (Nat.cast_nonneg 15000)
  exact (nothingAboveCeiling 2 ⟨.inf false,9000,.nan,20000⟩ nonneg).2.1

end Reals
end MoltenPour.ReachableRarity
