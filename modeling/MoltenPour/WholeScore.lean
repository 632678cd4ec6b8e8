import MoltenPour.ReachableRarity
import MoltenPour.PipelineAgreement
import MoltenPour.BoundedFormat

/-! The score in float64. Its components are whole, none of its sums and products is
rounded, and its two quotients are off by too little for their floors to notice, so
that both halves compute what they would in integers. Where the exponents end makes no
difference to a telemetry that keeps some way from there. -/
namespace MoltenPour.WholeScore
open NumberFormat BinaryRounding BinaryFormat BoundedFormat Artifact ClampAgreement PipelineAgreement
open ReachableRarity (whole weighed Permille Counts Weighs Whole Parts InIntegers weighedScore bandGrade holdParts serverWeighed
  clientWeighed)

section Integers

theorem wholeFin {a : ℤ} (small : |a| ≤ 2 ^ 53) :
    ∃ x : Float64, (whole a : Num Float64) = .fin x ∧ x.val = a := ⟨_,rfl,ofInt64 small⟩

variable {a b : ℤ} (left : |a| ≤ 2 ^ 53) (right : |b| ≤ 2 ^ 53)
include left right

theorem wholeAdd : (whole a + whole b : Num Float64) = whole (a + b) := by
  obtain ⟨x,isX,valX⟩ := wholeFin left
  obtain ⟨y,isY,valY⟩ := wholeFin right
  have sum : (Num.fin x + Num.fin y : Num Float64) = .fin (Rounded.of 53 (x.val + y.val)) := rfl
  rw [isX,isY,sum,valX,valY,← Int.cast_add]
  rfl

theorem wholeSub : (whole a - whole b : Num Float64) = whole (a - b) := by
  obtain ⟨x,isX,valX⟩ := wholeFin left
  obtain ⟨y,isY,valY⟩ := wholeFin right
  have difference : (Num.fin x - Num.fin y : Num Float64) = .fin (Rounded.of 53 (x.val - y.val)) := rfl
  rw [isX,isY,difference,valX,valY,← Int.cast_sub]
  rfl

theorem wholeMul : (whole a * whole b : Num Float64) = whole (a * b) := by
  obtain ⟨x,isX,valX⟩ := wholeFin left
  obtain ⟨y,isY,valY⟩ := wholeFin right
  have product : (Num.fin x * Num.fin y : Num Float64) = .fin (Rounded.of 53 (x.val * y.val)) := rfl
  rw [isX,isY,product,valX,valY,← Int.cast_mul]
  rfl

theorem wholeLe : (whole a : Num Float64) ≤ whole b ↔ a ≤ b := by
  obtain ⟨x,isX,valX⟩ := wholeFin left
  obtain ⟨y,isY,valY⟩ := wholeFin right
  have order : (Num.fin x ≤ Num.fin y) ↔ x.val ≤ y.val := Num.leFin x y
  rw [isX,isY,order,valX,valY,Int.cast_le]

end Integers

section Quotients

theorem floorQuotient {a : ℤ} (nonneg : 0 ≤ a) (small : a < 2 ^ 40) {n : ℕ} (positive : 0 < n) (few : n ≤ 2 ^ 10) :
    ⌊round 53 ((a : ℚ) / n)⌋ = a / n := by
  -- A quotient by n stays a whole nth below the next whole number.
  have floor : ⌊(a : ℚ) / n⌋ = a / n := by rw [Int.floor_div_natCast,Int.floor_intCast]
  have quotient : 0 ≤ a / n ∧ a / n < 2 ^ 40 :=
    ⟨Int.ediv_nonneg nonneg (by omega),(Int.ediv_le_self _ nonneg).trans_lt small⟩
  have share : (0 : ℚ) < n := by exact_mod_cast positive
  rw [← floor]
  rw [← floor] at quotient
  generalize floored : ⌊(a : ℚ) / n⌋ = k at quotient
  have whole : Fits 53 k := fitsInt 53 (by rw [abs_of_nonneg quotient.1]; omega)
  have cover : Fits 53 (k + 1 - 1 / 2 ^ 10) := by
    refine ⟨(k + 1) * 2 ^ 10 - 1,-10,?_,?_⟩
    · rw [abs_of_nonneg (by omega)]
      omega
    · push_cast
      rw [zpow_neg]
      norm_num
      ring
  have le : (a : ℚ) / n ≤ k + 1 - 1 / 2 ^ 10 := by
    have rest : a + 1 ≤ (k + 1) * n := by
      have above : a < (k + 1) * n := by
        rw [← floored,floor]
        exact Int.lt_ediv_add_one_mul_self a (by omega)
      omega
    have part : 1 / (2 : ℚ) ^ 10 ≤ 1 / n := one_div_le_one_div_of_le share (by exact_mod_cast few)
    have next : ((a + 1 : ℤ) : ℚ) / n ≤ k + 1 := by
      rw [div_le_iff₀ share]
      exact_mod_cast rest
    push_cast at next
    rw [add_div] at next
    linarith
  rw [← floored] at whole cover le ⊢
  exact floorRoundOfCover (by decide) whole cover le (by norm_num)

theorem wholeDiv {a : ℤ} (nonneg : 0 ≤ a) (small : a < 2 ^ 40) {n : ℕ} (positive : 0 < n) (few : n ≤ 2 ^ 10) :
    Num.floor (whole a / whole n : Num Float64) = whole (a / n) := by
  obtain ⟨x,isX,valX⟩ := @wholeFin a (by rw [abs_of_nonneg nonneg]; omega)
  obtain ⟨y,isY,valY⟩ := @wholeFin n (by rw [Nat.abs_cast]; omega)
  have nonzero : y ≠ 0 := by
    intro zero
    have value : ((n : ℤ) : ℚ) = 0 := valY.symm.trans (congrArg Rounded.val zero)
    rw [Int.cast_natCast,Nat.cast_eq_zero] at value
    omega
  have quotient : Num.floor (.fin (Format.div x y) : Num Float64) = whole ⌊round 53 (x.val / y.val)⌋ := rfl
  rw [isX,isY,Num.divFin x nonzero,quotient,valX,valY,Int.cast_natCast,floorQuotient nonneg small positive few]

end Quotients

section Components

theorem wholeBelow {a b : ℤ} (small : |b| < 2 ^ 53) (less : a < b) : (whole a : Num Float64) < whole b := by
  rw [abs_lt] at small
  have order : (whole a : Num Float64) < whole b ↔
      round 53 (a : ℚ) < (Format.literal (b : ℚ) : Float64).val := Num.ltFin _ _
  rw [order,ofInt64 (abs_le.mpr (by omega))]
  have under : round 53 (a : ℚ) ≤ (b - 1 : ℤ) :=
    roundLeFits (by decide) (fitsInt 53 (abs_le.mpr (by omega))) (by exact_mod_cast Int.le_sub_one_of_lt less)
  push_cast at under
  linarith

theorem wholeAbove {a b : ℤ} (small : |a| < 2 ^ 53) (less : a < b) : (whole a : Num Float64) < whole b := by
  rw [abs_lt] at small
  have order : (whole a : Num Float64) < whole b ↔
      (Format.literal (a : ℚ) : Float64).val < round 53 (b : ℚ) := Num.ltFin _ _
  rw [order,ofInt64 (abs_le.mpr (by omega))]
  have beyond : ((a + 1 : ℤ) : ℚ) ≤ round 53 (b : ℚ) :=
    fitsLeRound (by decide) (fitsInt 53 (abs_le.mpr (by omega))) (by exact_mod_cast less)
  push_cast at beyond
  linarith

theorem floatCounts : Counts Float64 where
  add left right := wholeAdd (left.le.trans (by decide)) (right.le.trans (by decide))
  sub left right := wholeSub (left.le.trans (by decide)) (right.le.trans (by decide))
  mul left right := wholeMul (left.le.trans (by decide)) (right.le.trans (by decide))
  le left right := wholeLe (left.le.trans (by decide)) (right.le.trans (by decide))
  below small less := wholeBelow (small.trans (by decide)) less
  above small less := wholeAbove (small.trans (by decide)) less
  div nonneg small positive few := wholeDiv nonneg small positive few

end Components

section Bounded

abbrev Binary64 := Bounded 53 1024

variable {e f : ℕ}

theorem numeralTracks {n : ℕ} (room : e < 1024) (within : n ≤ 2 ^ e) :
    Tracks e (OfNat.ofNat n : Num Float64) (OfNat.ofNat n : Num Binary64) :=
  tracksLiteral room (by rw [Nat.abs_cast]; exact_mod_cast within)

theorem wholeTracks {n : ℤ} (room : e < 1024) (within : |n| ≤ 2 ^ e) :
    Tracks e (whole n : Num Float64) (whole n : Num Binary64) := tracksLiteral room (by exact_mod_cast within)

theorem permilleTracks {p : ℤ} (permille : Permille p) : Tracks 10 (whole p : Num Float64) (whole p : Num Binary64) := by
  obtain ⟨low,high⟩ := permille
  exact wholeTracks (by decide) (abs_le.mpr (by omega))

theorem wholeLeast {n : ℤ} (least : 1 ≤ n) : ∀ w : Float64, Num.literal n = .fin w → 1 ≤ w.val := by
  rintro w ⟨⟩
  have one : Fits 53 (1 : ℤ) := fitsInt 53 (by decide)
  rw [Int.cast_one] at one
  exact fitsLeRound (by decide) one (by exact_mod_cast least)

theorem hundredthTracks {x : Num Float64} {y : Num Binary64} (tracks : Tracks e x y) (room : e < 1024) :
    Tracks e (Num.floor (x / 100)) (Num.floor (y / 100)) :=
  integralTracks (integralFloor (tracksDiv tracks (numeralTracks (by decide) (by decide : 100 ≤ 2 ^ 7))
    (wholeLeast (by decide : (1 : ℤ) ≤ 100)) room)) room

theorem weighedBounded (tierIndex : ℤ) {fill force commitment steadiness : ℤ} (first : Permille fill)
    (second : Permille force) (third : Permille commitment) (fourth : Permille steadiness) :
    Num.floor (Num.floor ((whole fill * 40 + whole force * 25 + whole commitment * 20 +
        whole steadiness * 15 : Num Binary64) / 100) *
      (Num.literal ServerPipeline.tierReachBase + Num.literal ServerPipeline.tierReachStep *
        Num.literal ((ServerPipeline.clampTierIndex tierIndex).val : ℚ)) / 100) =
      whole (weighed tierIndex fill force commitment steadiness) := by
  have share : ∀ {p : ℤ} {n : ℕ}, Permille p → n ≤ 2 ^ 6 →
      Tracks 16 (whole p * OfNat.ofNat n : Num Float64) (whole p * OfNat.ofNat n : Num Binary64) :=
    fun permille few => tracksMul (permilleTracks permille) (numeralTracks (by decide) few) (by decide)
  have two := tracksAdd (share first (by decide : 40 ≤ 2 ^ 6)) (share second (by decide : 25 ≤ 2 ^ 6)) (by decide)
  have three := tracksAdd two (tracksWider (share third (by decide : 20 ≤ 2 ^ 6)) (by decide)) (by decide)
  have sum := tracksAdd three (tracksWider (share fourth (by decide : 15 ≤ 2 ^ 6)) (by decide)) (by decide)
  have tier := (ServerPipeline.clampTierIndex tierIndex).isLt
  have base : Tracks 6 (Num.literal ServerPipeline.tierReachBase : Num Float64)
      (Num.literal ServerPipeline.tierReachBase : Num Binary64) :=
    tracksLiteral (by decide) (by norm_num [ServerPipeline.tierReachBase])
  have step : Tracks 4 (Num.literal ServerPipeline.tierReachStep : Num Float64)
      (Num.literal ServerPipeline.tierReachStep : Num Binary64) :=
    tracksLiteral (by decide) (by norm_num [ServerPipeline.tierReachStep])
  have reach := tracksAdd (tracksWider base (by decide : 6 ≤ 7))
    (tracksMul step (numeralTracks (by decide) (by omega : (ServerPipeline.clampTierIndex tierIndex).val ≤ 2 ^ 3))
      (by decide)) (by decide)
  have score := hundredthTracks (tracksMul (hundredthTracks sum (by decide)) reach (by decide)) (by decide)
  have whole := weighedScore floatCounts tierIndex first second third fourth
  exact literalTracked (whole ▸ score) (by decide)

theorem bandBounded {n : ℤ} (nonneg : 0 ≤ n) (most : n ≤ 1000) :
    (if (Num.literal ServerPipeline.thresholdSingular : Num Binary64) ≤ whole n then Rarity.singular
      else if (Num.literal ServerPipeline.thresholdRare : Num Binary64) ≤ whole n then .rare
      else if (Num.literal ServerPipeline.thresholdUncommon : Num Binary64) ≤ whole n then .uncommon
      else .common) = ReachableRarity.grade n := by
  have score := permilleTracks ⟨nonneg,most⟩
  have threshold : ∀ {q : ℚ}, |q| ≤ 2 ^ 10 →
      ((Num.literal q : Num Binary64) ≤ whole n ↔ (Num.literal q : Num Float64) ≤ whole n) :=
    fun within => tracksLe (tracksLiteral (by decide) within) score
  rw [← bandGrade floatCounts nonneg most]
  simp only [@threshold ServerPipeline.thresholdSingular (by norm_num [ServerPipeline.thresholdSingular]),
    @threshold ServerPipeline.thresholdRare (by norm_num [ServerPipeline.thresholdRare]),
    @threshold ServerPipeline.thresholdUncommon (by norm_num [ServerPipeline.thresholdUncommon])]

theorem squaresBounded : SquaresAlike Binary64 := by
  have side : Tracks 6 (Num.literal ClientPipeline.SIM.spawnVxMax : Num Float64)
      (Num.literal ClientPipeline.SIM.spawnVxMax : Num Binary64) :=
    tracksLiteral (by decide) (by norm_num [ClientPipeline.SIM.spawnVxMax])
  have square := tracksMul side side (by decide)
  rw [show _ * _ = _ from spawnSquared] at square
  exact literalTracked square (by decide)

theorem boundedWeighs : Weighs Binary64 := ⟨squaresBounded,weighedBounded,bandBounded⟩

theorem permilleBounded {value most : Num Float64} {value' most' : Num Binary64} (claim : Tracks e value value')
    (ceiling : Integral f most most') (room : e + 10 < 1024) (under : f < 1024) :
    Tracks 10 (ServerPipeline.permille value most) (ServerPipeline.permille value' most') := by
  have zero : Tracks 10 (0 : Num Float64) (0 : Num Binary64) := numeralTracks (by decide) (by decide)
  have thousand : Tracks 10 (1000 : Num Float64) (1000 : Num Binary64) := numeralTracks (by decide) (by decide)
  have bound := integralTracks ceiling under
  unfold ServerPipeline.permille
  simp only [tracksLe bound zero]
  split
  case isTrue => exact zero
  case isFalse positive =>
    obtain ⟨n,rfl,rfl,-⟩ := ceiling
    have least : 1 ≤ n := by
      by_contra none
      refine positive ?_
      rw [Num.zeroFin,Num.literal,Num.leFin]
      have below : (n : ℚ) ≤ 0 := by exact_mod_cast (by omega : n ≤ 0)
      exact roundLeFits (by decide) (fitsZero 53) below
    have quotient := integralTracks (integralFloor
      (tracksDiv (tracksMul claim thousand room) bound (wholeLeast least) room)) room
    simp only [tracksLt quotient zero,tracksLt thousand quotient]
    split
    case isTrue => exact zero
    case isFalse low =>
      split
      case isTrue => exact thousand
      case isFalse high =>
        obtain ⟨v,isX,isY,-⟩ := quotient
        rw [isX] at low high
        rw [isX,isY]
        refine ⟨v,rfl,rfl,?_⟩
        rw [Num.zeroFin,Num.ltFin,not_lt] at low
        have top : (Format.literal (1000 : ℚ) : Float64).val = 1000 := by exact_mod_cast ofInt64 (n := 1000) (by decide)
        have below : v.val ≤ (Format.literal (1000 : ℚ) : Float64).val :=
          not_lt.mp fun more => high ((Num.ltFin _ _).mpr more)
        have above : 0 ≤ v.val := low
        rw [abs_of_nonneg above]
        linarith

section Ceilings
variable {h : Float64} (nonneg : 0 ≤ h) (held : |h.val| ≤ 2 ^ 1000)

include held in
theorem dropletsBounded (tierIndex : ℤ) : Integral 1007 (.fin (ServerPipeline.dropletCeiling tierIndex h))
    (.fin (ServerPipeline.dropletCeiling tierIndex (⟨h,true⟩ : Binary64))) := by
  have flow : |ServerPipeline.tierFlow (ServerPipeline.clampTierIndex tierIndex)| ≤ 2 ^ 6 := by
    generalize ServerPipeline.clampTierIndex tierIndex = tier
    fin_cases tier <;> norm_num [ServerPipeline.tierFlow]
  have tolerance : |ServerPipeline.simDropletTolerar| ≤ 2 ^ 1 := by
    rw [abs_of_pos] <;> norm_num [ServerPipeline.simDropletTolerar]
  exact integralCeil (tracksMul (tracksMul (tracksLiteral (by decide) flow) ⟨h,rfl,rfl,held⟩ (by decide))
    (tracksLiteral (by decide) tolerance) (by decide))

include nonneg

theorem fallTracks : Tracks 13 (.fin (ServerPipeline.maxFall h))
    (.fin (ServerPipeline.maxFall (⟨h,true⟩ : Binary64))) := by
  have spawn : Tracks 12 (Num.literal ServerPipeline.simSpawnVyMax : Num Float64)
      (Num.literal ServerPipeline.simSpawnVyMax : Num Binary64) :=
    tracksLiteral (by decide) (by norm_num [ServerPipeline.simSpawnVyMax])
  have gravity : Tracks 11 (Num.literal ServerPipeline.simGravity : Num Float64)
      (Num.literal ServerPipeline.simGravity : Num Binary64) :=
    tracksLiteral (by decide) (by norm_num [ServerPipeline.simGravity])
  have longest : Tracks 1 (.fin (Format.literal (1.2 : ℚ) : Float64)) (.fin (Format.literal (1.2 : ℚ) : Binary64)) :=
    tracksLiteral (by decide) (by rw [abs_of_pos] <;> norm_num)
  have above : (0 : Float64) ≤ Format.literal (1.2 : ℚ) := Num.literalNonneg (by norm_num)
  exact tracksAdd spawn (tracksMul gravity (tracksMin longest nonneg above) (by decide)) (by decide)

theorem speedBounded : Tracks 28 (.fin (ServerPipeline.speedCeiling h))
    (.fin (ServerPipeline.speedCeiling (⟨h,true⟩ : Binary64))) := by
  have fall := fallTracks nonneg
  have side : Tracks 26 (Num.literal (ServerPipeline.simSpawnVxMax * ServerPipeline.simSpawnVxMax) : Num Float64)
      (Num.literal (ServerPipeline.simSpawnVxMax * ServerPipeline.simSpawnVxMax) : Num Binary64) :=
    tracksLiteral (by decide) (by norm_num [ServerPipeline.simSpawnVxMax])
  have square : Tracks 27 (.fin (ServerPipeline.fallSquared h))
      (.fin (ServerPipeline.fallSquared (⟨h,true⟩ : Binary64))) :=
    tracksAdd (tracksMul fall fall (by decide)) side (by decide)
  have above : (0 : Binary64) ≤ ⟨h,true⟩ := Bounded.nonnegIff.mpr nonneg
  have margin : Tracks 1 (1.1 : Num Float64) (1.1 : Num Binary64) :=
    tracksLiteral (by decide) (by rw [abs_of_pos] <;> norm_num)
  have root := tracksSqrt square (by rw [Num.zeroFin,Num.leFin]; exact ServerPipeline.fallSquaredNonneg nonneg)
  rw [Num.sqrtFin (ServerPipeline.fallSquaredNonneg nonneg),Num.sqrtFin (ServerPipeline.fallSquaredNonneg above)] at root
  exact tracksMul root margin (by decide)

omit nonneg in
include held in
theorem tiltBounded : Tracks 1003 (.fin (ServerPipeline.tiltCeiling h))
    (.fin (ServerPipeline.tiltCeiling (⟨h,true⟩ : Binary64))) :=
  tracksMul (tracksLiteral (by decide) (by norm_num [ServerPipeline.simMaxTiltRate])) ⟨h,rfl,rfl,held⟩ (by decide)

end Ceilings

theorem jsRoundBounded {x : Num Float64} {y : Num Binary64} (tracks : Tracks e x y) (room : e + 1 < 1024) :
    Integral (e + 1) (ServerPipeline.jsRound x) (ServerPipeline.jsRound y) := by
  have half : Tracks e (0.5 : Num Float64) (0.5 : Num Binary64) := by
    refine tracksLiteral (Nat.lt_of_succ_lt room) ?_
    have least : (1 : ℚ) ≤ 2 ^ e := one_le_pow₀ one_le_two
    rw [abs_of_pos (by norm_num)]
    exact le_trans (by norm_num) least
  exact integralFloor (tracksAdd tracks half room)

theorem mathRoundBounded {x : Num Float64} {y : Num Binary64} (tracks : Tracks e x y) :
    Integral (e + 1) (ClientPipeline.mathRound x) (ClientPipeline.mathRound y) := by
  obtain ⟨v,rfl,rfl,within⟩ := tracks
  exact integralNearest within

structure Ranged (t : Telemetry Binary64) : Prop where
  within : ∀ key, ∃ v : Float64, t.claim key = .fin ⟨v,true⟩ ∧ |v.val| ≤ 2 ^ 1000
  hold : 0 ≤ t.holdMs

theorem rangedTracked {t : Telemetry Binary64} (ranged : Ranged t) :
    ∃ s : Telemetry Float64, ServerPipeline.FiniteTelemetry s ∧ ∀ key, Tracks 1000 (s.claim key) (t.claim key) := by
  obtain ⟨drops,isDrops,fewDrops⟩ := ranged.within .dropletsLanded
  obtain ⟨speed,isSpeed,lowSpeed⟩ := ranged.within .peakVelocity
  obtain ⟨tilt,isTilt,lowTilt⟩ := ranged.within .tiltEnergy
  obtain ⟨hold,isHold,shortHold⟩ := ranged.within .holdMs
  have nonneg := ranged.hold
  rw [show t.holdMs = _ from isHold,Num.zeroFin,Num.leFin] at nonneg
  refine ⟨⟨.fin drops,.fin speed,.fin tilt,.fin hold⟩,⟨rfl,rfl,rfl,hold,Bounded.nonnegIff.mp nonneg,rfl⟩,fun key => ?_⟩
  cases key with
  | dropletsLanded => exact ⟨drops,rfl,isDrops,fewDrops⟩
  | peakVelocity => exact ⟨speed,rfl,isSpeed,lowSpeed⟩
  | tiltEnergy => exact ⟨tilt,rfl,isTilt,lowTilt⟩
  | holdMs => exact ⟨hold,rfl,isHold,shortHold⟩

theorem partsBounded {s : Telemetry Float64} {t : Telemetry Binary64} {tierIndex : ℤ}
    (each : ∀ key, Tracks 1000 (s.claim key) (t.claim key)) {rounded : Num Float64 → Num Float64}
    {rounded' : Num Binary64 → Num Binary64}
    (rounds : ∀ {e : ℕ} {x y}, Tracks e x y → e + 1 < 1024 → Integral (e + 1) (rounded x) (rounded' y))
    {holdS : Float64} {a b c d : ℤ} (parts : Parts s tierIndex rounded holdS a b c d) :
    Parts t tierIndex rounded' ⟨holdS,true⟩ a b c d := by
  obtain ⟨nonneg,seconds,filled,forced,committed,steady,fill,force,commitment,steadiness⟩ := parts
  have thousand : Tracks 10 (1000 : Num Float64) (1000 : Num Binary64) := numeralTracks (by decide) (by decide)
  have ms := integralTracks (integralFloor (each .holdMs)) (by decide)
  have second := tracksDiv ms thousand (wholeLeast (by decide : (1 : ℤ) ≤ 1000)) (by decide)
  rw [show Num.floor (s.claim .holdMs) / 1000 = _ from seconds] at second
  obtain ⟨_,⟨⟩,held,within⟩ := second
  have drops := permilleBounded (integralTracks (integralFloor (each .dropletsLanded)) (by decide))
    (dropletsBounded within tierIndex) (by decide) (by decide)
  have speed := permilleBounded (integralTracks (rounds (each .peakVelocity) (by decide)) (by decide))
    (rounds (speedBounded nonneg) (by decide)) (by decide) (by decide)
  have longest : Integral 14 (Num.literal ServerPipeline.simMaxPourMs : Num Float64)
      (Num.literal ServerPipeline.simMaxPourMs : Num Binary64) :=
    ⟨15000,by norm_num [ServerPipeline.simMaxPourMs],by norm_num [ServerPipeline.simMaxPourMs],by decide⟩
  have hold := permilleBounded ms longest (by decide) (by decide)
  have tilt := permilleBounded
    (integralTracks (rounds (tracksMul (each .tiltEnergy) thousand (by decide)) (by decide)) (by decide))
    (rounds (tracksMul (tiltBounded within) thousand (by decide)) (by decide)) (by decide) (by decide)
  have rest := tracksSub thousand tilt (by decide)
  refine ⟨Bounded.nonnegIff.mpr nonneg,held,filled,forced,committed,steady,?_,?_,?_,?_⟩
  · exact literalTracked (fill ▸ drops) (by decide)
  · exact literalTracked (force ▸ speed) (by decide)
  · exact literalTracked (commitment ▸ hold) (by decide)
  · exact literalTracked (steadiness ▸ rest) (by decide)

structure ScoredInIntegers (t : Telemetry Binary64) (tierIndex : ℤ) : Prop where
  client : ∃ a b c d, InIntegers tierIndex
    (ClientPipeline.rarityScore t tierIndex) (ClientPipeline.classify t tierIndex) a b c d ∧
    ClientPipeline.scoreParts t tierIndex =
      ⟨whole a,whole b,whole c,whole d,whole (weighed tierIndex a b c d)⟩
  server : ∃ a b c d, InIntegers tierIndex
    (ServerPipeline.rarityScore t tierIndex) (ServerPipeline.classify t tierIndex) a b c d

theorem scoredInIntegers {t : Telemetry Binary64} (ranged : Ranged t) (tierIndex : ℤ) :
    ScoredInIntegers t tierIndex := by
  obtain ⟨s,finite,each⟩ := rangedTracked ranged
  constructor
  · have keeps : ∀ {v : Num Float64}, v.isFinite = true → (ClientPipeline.mathRound v).isFinite = true := by
      intro v finite
      obtain ⟨x,rfl⟩ := Num.finiteExists finite
      rfl
    obtain ⟨holdS,a,b,c,d,parts⟩ := holdParts floatCounts finite tierIndex keeps
    exact ⟨a,b,c,d,clientWeighed boundedWeighs (partsBounded each (fun tracks _ => mathRoundBounded tracks) parts)⟩
  · obtain ⟨holdS,a,b,c,d,parts⟩ := holdParts floatCounts finite tierIndex (fun finite => ServerPipeline.jsRoundFinite finite)
    exact ⟨a,b,c,d,serverWeighed boundedWeighs (partsBounded each (fun tracks room => jsRoundBounded tracks room) parts)⟩

def enormous : Telemetry Binary64 := ⟨12,Num.literal (10 ^ 300),Num.literal (10 ^ 299),1234.5⟩

theorem enormousScored : ScoredInIntegers enormous 2 := by
  have top : 10 ^ 300 ≤ 2 ^ 1000 := by decide +kernel
  have word : ∀ {q : ℚ}, 0 ≤ q → q ≤ 10 ^ 300 →
      ∃ v : Float64, (Num.literal q : Num Binary64) = .fin ⟨v,true⟩ ∧ |v.val| ≤ 2 ^ 1000 := by
    intro q nonneg within
    have size : |q| ≤ 2 ^ 1000 := by
      rw [abs_of_nonneg nonneg]
      exact within.trans (by exact_mod_cast top)
    obtain ⟨v,-,isY,small⟩ := @tracksLiteral 53 1024 _ 1000 (by decide) q size
    exact ⟨v,isY,small⟩
  have few : ∀ {q : ℚ}, q ≤ 10 ^ 4 → q ≤ 10 ^ 300 := fun small =>
    small.trans (pow_le_pow_right₀ (by norm_num) (by decide))
  refine scoredInIntegers ⟨fun key => ?_,Num.literalAtLeast (by norm_num)⟩ 2
  cases key with
  | dropletsLanded => exact word (by norm_num) (few (by norm_num))
  | peakVelocity => exact word (by positivity) le_rfl
  | tiltEnergy => exact word (by positivity) (pow_le_pow_right₀ (by norm_num) (by decide))
  | holdMs => exact word (by norm_num) (few (by norm_num))

end Bounded

end MoltenPour.WholeScore
