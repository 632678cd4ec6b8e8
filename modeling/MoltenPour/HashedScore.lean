import MoltenPour.ClampOrder

/-! The score in the integers the hash reads. Over exact numbers a telemetry
enters the classifier through four rounded words and the tier, and what a
ceiling cuts off a word its share has already given up. -/
namespace MoltenPour.HashedScore
open NumberFormat Artifact ClampAgreement ClampProjection ClampOrder ReachableRarity

structure Words where
  droplets : ℤ
  speed : ℤ
  tilt : ℤ
  hold : ℤ
  deriving DecidableEq, Repr

def share (n m : ℤ) : ℤ := if m ≤ 0 then 0 else max 0 (min (n * 1000 / m) 1000)

theorem sharePermille (n m : ℤ) : Permille (share n m) := by
  unfold share
  split
  · exact ⟨le_rfl,by decide⟩
  · exact ⟨le_max_left ..,max_le (by decide) (min_le_right ..)⟩

theorem steadyPermille (n m : ℤ) : Permille (1000 - share n m) := by
  obtain ⟨nonneg,most⟩ := sharePermille n m
  exact ⟨by omega,by omega⟩

theorem shareRises {n k : ℤ} (le : n ≤ k) (m : ℤ) : share n m ≤ share k m := by
  unfold share
  split
  · exact le_rfl
  · next positive =>
    refine max_le_max_left 0 (min_le_min_right 1000 (Int.ediv_le_ediv (by omega) ?_))
    omega

theorem shareCut (n m : ℤ) : share (min n m) m = share n m := by
  cases le_total n m with
  | inl under => rw [min_eq_left under]
  | inr excess =>
    rw [min_eq_right excess]
    unfold share
    split
    · rfl
    · next positive =>
      have some : 0 < m := by omega
      have full : m * 1000 / m = 1000 := Int.mul_ediv_cancel_left 1000 some.ne'
      have more : 1000 ≤ n * 1000 / m := (Int.le_ediv_iff_mul_le some).mpr (by linarith)
      rw [full,min_self,min_eq_right more]

def dropletsMost (tierIndex hold : ℤ) : ℤ :=
  ⌈ServerPipeline.tierFlow (ServerPipeline.clampTierIndex tierIndex) * (hold / 1000) *
    ServerPipeline.simDropletTolerar⌉

def points (speedMost tierIndex : ℤ) (w : Words) : ℤ :=
  weighed tierIndex (share w.droplets (dropletsMost tierIndex w.hold)) (share w.speed speedMost)
    (share w.hold 15000) (1000 - share w.tilt (6 * w.hold))

theorem weighedRises (tierIndex : ℤ) {fill force commitment steadiness fill' force' steadiness' : ℤ}
    (fills : fill ≤ fill') (forces : force ≤ force') (steadies : steadiness ≤ steadiness') :
    weighed tierIndex fill force commitment steadiness ≤
      weighed tierIndex fill' force' commitment steadiness' := by
  have base : (fill * 40 + force * 25 + commitment * 20 + steadiness * 15) / 100 ≤
      (fill' * 40 + force' * 25 + commitment * 20 + steadiness' * 15) / 100 :=
    Int.ediv_le_ediv (by omega) (by omega)
  exact Int.ediv_le_ediv (by omega) (mul_le_mul_of_nonneg_right base (by omega))

structure Better (a b : Words) : Prop where
  droplets : a.droplets ≤ b.droplets
  speed : a.speed ≤ b.speed
  tilt : b.tilt ≤ a.tilt
  hold : a.hold = b.hold

theorem pointsRise (speedMost tierIndex : ℤ) {a b : Words} (better : Better a b) :
    points speedMost tierIndex a ≤ points speedMost tierIndex b := by
  have steady : share b.tilt (6 * b.hold) ≤ share a.tilt (6 * b.hold) := shareRises better.tilt _
  unfold points
  rw [better.hold]
  exact weighedRises tierIndex (shareRises better.droplets _) (shareRises better.speed _) (by omega)

section Hashed
variable {K : Type} [LinearOrder K] [Zero K] [Format K]

def clientWords (t : Telemetry K) : List UInt32 := [
  ClientPipeline.toUint32 t.dropletsLanded,
  ClientPipeline.toUint32 (ClientPipeline.mathRound t.peakVelocity),
  ClientPipeline.toUint32 (ClientPipeline.mathRound (t.tiltEnergy * 1000)),
  ClientPipeline.toUint32 t.holdMs]

theorem ofIntInj {a b : ℤ} (left : 0 ≤ a ∧ a < 2 ^ 32) (right : 0 ≤ b ∧ b < 2 ^ 32)
    (same : UInt32.ofInt a = UInt32.ofInt b) : a = b := by
  have value : ∀ {n : ℤ}, 0 ≤ n ∧ n < 2 ^ 32 → ((UInt32.ofInt n).toNat : ℤ) = n := by
    intro n within
    simp only [UInt32.ofInt,UInt32.toNat_ofNat']
    omega
  rw [← value left,← value right,same]

end Hashed

section Exact
variable {K : Type} [Field K] [LinearOrder K] [IsStrictOrderedRing K] [FloorRing K] [SquareRoot K]

def words (r : Reading K) : Words :=
  ⟨⌊r.droplets⌋,⌊r.velocity + 1 / 2⌋,⌊r.tilt * 1000 + 1 / 2⌋,⌊r.hold⌋⟩

variable (K) in
def speedMost (hold : ℤ) : ℤ := ⌊ServerPipeline.speedCeiling ((hold : K) / 1000) + 1 / 2⌋

theorem permilleShare (n m : ℤ) :
    ServerPipeline.permille (whole n : Num K) (whole m) = whole (share n m) := by
  have zero : (0 : Num K) = whole 0 := wholeNumeral 0
  have thousand : (1000 : Num K) = whole 1000 := wholeNumeral 1000
  unfold ServerPipeline.permille share
  rw [zero,thousand]
  simp only [wholeLe]
  split
  · rfl
  · next positive =>
    obtain ⟨d,rfl⟩ := Int.eq_ofNat_of_zero_le (by omega : 0 ≤ m)
    have some : 0 < d := by omega
    rw [wholeMul,wholeDiv _ some]
    simp only [wholeLt]
    split
    · next negative => rw [max_eq_left (min_le_of_left_le negative.le)]
    · next nonneg =>
      split
      · next high => rw [min_eq_right high.le,max_eq_right (by omega)]
      · next low => rw [min_eq_left (by omega),max_eq_right (by omega)]

theorem jsRoundWhole (x : K) : ServerPipeline.jsRound (.fin x) = whole ⌊x + 1 / 2⌋ :=
  (roundsAlike _).symm

theorem thousandfold (x : K) : (Num.fin x * 1000 : Num K) = .fin (x * 1000) := by
  rw [wholeNumeral 1000,wholeCast,Num.mulFin]
  push_cast
  rfl

theorem dropletsMostWhole (tierIndex hold : ℤ) :
    (.fin (ServerPipeline.dropletCeiling tierIndex ((hold : K) / 1000)) : Num K) =
      whole (dropletsMost tierIndex hold) := by
  have value : (ServerPipeline.tierFlow (ServerPipeline.clampTierIndex tierIndex) : K) * (hold / 1000) *
      (ServerPipeline.simDropletTolerar : ℚ) =
      ((ServerPipeline.tierFlow (ServerPipeline.clampTierIndex tierIndex) * (hold / 1000) *
        ServerPipeline.simDropletTolerar : ℚ) : K) := by
    push_cast
    rfl
  rw [dropletCeilingWhole,value,Rat.ceil_cast,wholeCast]
  rfl

theorem tiltMost (hold : ℤ) :
    ⌊ServerPipeline.tiltCeiling ((hold : K) / 1000) * 1000 + 1 / 2⌋ = 6 * hold := by
  have value : ServerPipeline.tiltCeiling ((hold : K) / 1000) * 1000 + 1 / 2 = ((6 * hold : ℤ) : K) + 1 / 2 := by
    change ((ServerPipeline.simMaxTiltRate : ℚ) : K) * (hold / 1000) * 1000 + 1 / 2 = _
    rw [ServerPipeline.simMaxTiltRate]
    push_cast
    ring
  have half : ⌊(1 : K) / 2⌋ = 0 := by
    rw [Int.floor_eq_zero_iff]
    constructor <;> norm_num
  rw [value,Int.floor_intCast_add,half,add_zero]

theorem scoreOfWords {r : Reading K} (nonneg : 0 ≤ r.hold) (tierIndex : ℤ) :
    ServerPipeline.rarityScore r.report tierIndex =
      whole (points (speedMost K (words r).hold) tierIndex (words r)) := by
  -- The classifier reads a finite telemetry in its words alone.
  have second : (whole ⌊r.hold⌋ / 1000 : Num K) = .fin ((⌊r.hold⌋ : K) / 1000) := by
    rw [wholeCast,ServerPipeline.perSecond]
    change (Num.fin ((⌊r.hold⌋ : K) / ((1000 : ℚ) : K)) : Num K) = _
    norm_num
  have positive : (0 : K) ≤ (⌊r.hold⌋ : K) / 1000 :=
    div_nonneg (Int.cast_nonneg (Int.floor_nonneg.mpr nonneg)) (by norm_num)
  have stop : (Num.literal ServerPipeline.simMaxPourMs : Num K) = whole 15000 := by
    norm_num [ServerPipeline.simMaxPourMs,whole]
  have steady : ∀ n : ℤ, (1000 - whole n : Num K) = whole (1000 - n) := by
    intro n
    rw [wholeNumeral 1000]
    exact wholeSub 1000 n
  unfold ServerPipeline.rarityScore
  simp only [Reading.report,wholeFloor,second,ServerPipeline.ceilingsFin tierIndex positive,
    dropletsMostWhole,tiltMost,jsRoundWhole,thousandfold,stop,permilleShare,steady]
  exact weighedScore exactCounts tierIndex (sharePermille ..) (sharePermille ..) (sharePermille ..)
    (steadyPermille ..)

theorem gradeOfWords {r : Reading K} (nonneg : 0 ≤ r.hold) (tierIndex : ℤ) :
    ServerPipeline.classify r.report tierIndex =
      grade (points (speedMost K (words r).hold) tierIndex (words r)) :=
  classifyGrade (scoreOfWords nonneg tierIndex)

def Clamped (tierIndex : ℤ) (t : Telemetry K) : Prop :=
  ∃ (raw : Telemetry K) (wallClockMs : Num K), 0 ≤ wallClockMs ∧
    (ServerPipeline.clampTelemetry raw tierIndex wallClockMs).telemetry = t

theorem clampedReads {tierIndex : ℤ} {t : Telemetry K} (kept : Clamped tierIndex t) :
    ∃ r : Reading K, Legal tierIndex r ∧ r.report = t := by
  obtain ⟨raw,wallClockMs,nonneg,rfl⟩ := kept
  exact ⟨_,clampedLegal exactCeil raw tierIndex nonneg,(clampedReport raw tierIndex nonneg).symm⟩

theorem legalClamped {tierIndex : ℤ} {r : Reading K} (legal : Legal tierIndex r) :
    Clamped tierIndex r.report := by
  refine ⟨r.report,.fin r.hold,?_,?_⟩
  · rw [Num.zeroFin,Num.leFin]
    exact legal.hold.1
  · rw [legalKept legal ((Num.leFin ..).mpr le_rfl)]

structure ScoredAlike (tierIndex : ℤ) (t u : Telemetry K) : Prop where
  client : ClientPipeline.rarityScore t tierIndex = ClientPipeline.rarityScore u tierIndex
  clientClass : ClientPipeline.classify t tierIndex = ClientPipeline.classify u tierIndex
  server : ServerPipeline.rarityScore t tierIndex = ServerPipeline.rarityScore u tierIndex
  serverClass : ServerPipeline.classify t tierIndex = ServerPipeline.classify u tierIndex

theorem scoredAlike {r q : Reading K} (left : 0 ≤ r.hold) (right : 0 ≤ q.hold) {tierIndex : ℤ}
    (same : points (speedMost K (words r).hold) tierIndex (words r) =
      points (speedMost K (words q).hold) tierIndex (words q)) :
    ScoredAlike tierIndex r.report q.report := by
  have scores : ServerPipeline.rarityScore r.report tierIndex =
      ServerPipeline.rarityScore q.report tierIndex := by rw [scoreOfWords left,scoreOfWords right,same]
  have classes : ServerPipeline.classify r.report tierIndex =
      ServerPipeline.classify q.report tierIndex := by rw [gradeOfWords left,gradeOfWords right,same]
  refine ⟨?client,?clientClass,scores,classes⟩
  case client =>
    rw [scoresAlike (h := r.hold) rfl,scoresAlike (h := q.hold) rfl]
    exact scores
  case clientClass =>
    rw [classesAlike (h := r.hold) rfl,classesAlike (h := q.hold) rfl]
    exact classes

structure NotLower (t u : Telemetry K) (low high : ℤ) : Prop where
  client : ClientPipeline.rarityScore t low ≤ ClientPipeline.rarityScore u high
  clientClass : rank (ClientPipeline.classify t low) ≤ rank (ClientPipeline.classify u high)
  server : ServerPipeline.rarityScore t low ≤ ServerPipeline.rarityScore u high
  serverClass : rank (ServerPipeline.classify t low) ≤ rank (ServerPipeline.classify u high)

theorem notLower {r q : Reading K} (left : 0 ≤ r.hold) (right : 0 ≤ q.hold) {low high : ℤ} :
    NotLower r.report q.report low high ↔
      points (speedMost K (words r).hold) low (words r) ≤
        points (speedMost K (words q).hold) high (words q) := by
  constructor
  · intro rises
    have server := rises.server
    rw [scoreOfWords left,scoreOfWords right] at server
    exact wholeLe.mp server
  · intro le
    have server : ServerPipeline.rarityScore r.report low ≤ ServerPipeline.rarityScore q.report high := by
      rw [scoreOfWords left,scoreOfWords right]
      exact wholeLe.mpr le
    have classes : rank (ServerPipeline.classify r.report low) ≤
        rank (ServerPipeline.classify q.report high) := by
      rw [gradeOfWords left,gradeOfWords right]
      exact gradeRises le
    refine ⟨?client,?clientClass,server,classes⟩
    case client =>
      rw [scoresAlike (h := r.hold) rfl,scoresAlike (h := q.hold) rfl]
      exact server
    case clientClass =>
      rw [classesAlike (h := r.hold) rfl,classesAlike (h := q.hold) rfl]
      exact classes

theorem clampedWords {r : Reading K} {n : ℕ} (hold : r.hold = n) (droplets : 0 ≤ r.droplets)
    (velocity : 0 ≤ r.velocity) (tilt : 0 ≤ r.tilt) (tierIndex : ℤ) {wallClockMs : Num K}
    (granted : ServerPipeline.heldMs r.report wallClockMs = r.hold) :
    words (clamped r.report tierIndex wallClockMs) =
      ⟨min (words r).droplets (dropletsMost tierIndex (words r).hold),
        min (words r).speed (speedMost K (words r).hold),
        min (words r).tilt (6 * (words r).hold),(words r).hold⟩ := by
  have whole : (words r).hold = n := by
    unfold words
    rw [hold]
    exact Int.floor_natCast n
  have second : ServerPipeline.heldS r.report wallClockMs = ((n : ℤ) : K) / 1000 := by
    unfold ServerPipeline.heldS
    rw [granted,hold]
    change (n : K) / ((1000 : ℚ) : K) = _
    norm_num
  have most : ServerPipeline.dropletCeiling tierIndex (((n : ℤ) : K) / 1000) =
      (dropletsMost tierIndex n : K) := by
    have value := dropletsMostWhole (K := K) tierIndex n
    rw [wholeCast] at value
    exact Num.fin.inj value
  have floors : ∀ a b : K, ⌊min a b⌋ = min ⌊a⌋ ⌊b⌋ := fun a b => Int.floor_mono.map_min
  have halves : ∀ a b : K, min a b + 1 / 2 = min (a + 1 / 2) (b + 1 / 2) :=
    fun a b => (min_add_add_right a b _).symm
  have thousandths : ∀ a b : K, min a b * 1000 = min (a * 1000) (b * 1000) :=
    fun a b => min_mul_of_nonneg a b (by norm_num)
  have fill : sane r.report.dropletsLanded = r.droplets := max_eq_right droplets
  have force : sane r.report.peakVelocity = r.velocity := max_eq_right velocity
  have shake : sane r.report.tiltEnergy = r.tilt := max_eq_right tilt
  rw [whole]
  simp only [words,clamped,fill,force,shake,second,most]
  rw [floors,halves,floors,thousandths,halves,floors,tiltMost,Int.floor_intCast]
  have kept : ⌊ServerPipeline.heldMs r.report wallClockMs⌋ = n := by
    rw [granted,hold,Int.floor_natCast]
  exact congrArg _ kept

theorem floorWord {x : K} (nonneg : 0 ≤ x) : ClientPipeline.toUint32 (.fin x) = UInt32.ofInt ⌊x⌋ :=
  congrArg UInt32.ofInt (if_neg nonneg.not_gt)

theorem roundWord {x : K} (nonneg : 0 ≤ x) :
    ClientPipeline.toUint32 (ClientPipeline.mathRound (.fin x)) = UInt32.ofInt ⌊x + 1 / 2⌋ := by
  have rounded : (ClientPipeline.mathRound (.fin x) : Num K) = .fin (⌊x + 1 / 2⌋ : K) := wholeCast _
  have up : (0 : K) ≤ (⌊x + 1 / 2⌋ : K) :=
    Int.cast_nonneg (Int.floor_nonneg.mpr (add_nonneg nonneg (by norm_num)))
  rw [rounded,floorWord up,Int.floor_intCast]

theorem hashedWords {r : Reading K} (droplets : 0 ≤ r.droplets) (velocity : 0 ≤ r.velocity)
    (tilt : 0 ≤ r.tilt) (hold : 0 ≤ r.hold) :
    clientWords r.report = [UInt32.ofInt (words r).droplets,UInt32.ofInt (words r).speed,
      UInt32.ofInt (words r).tilt,UInt32.ofInt (words r).hold] := by
  have scaled : 0 ≤ r.tilt * 1000 := mul_nonneg tilt (by norm_num)
  simp only [clientWords,Reading.report,thousandfold,floorWord droplets,roundWord velocity,
    roundWord scaled,floorWord hold,words]

structure Small (r : Reading K) : Prop where
  droplets : 0 ≤ r.droplets ∧ r.droplets ≤ 587
  velocity : 0 ≤ r.velocity ∧ r.velocity ≤ 1982
  tilt : 0 ≤ r.tilt ∧ r.tilt ≤ 90
  hold : 0 ≤ r.hold ∧ r.hold ≤ 15000

omit [IsStrictOrderedRing K] [SquareRoot K] in
theorem floorWithin {x : K} {n : ℕ} (nonneg : 0 ≤ x) (under : x < n + 1) : 0 ≤ ⌊x⌋ ∧ ⌊x⌋ ≤ n := by
  refine ⟨Int.floor_nonneg.mpr nonneg,Int.lt_add_one_iff.mp (Int.floor_lt.mpr ?_)⟩
  push_cast
  exact under

omit [SquareRoot K] in
theorem smallWords {r : Reading K} (small : Small r) :
    (0 ≤ (words r).droplets ∧ (words r).droplets ≤ 587) ∧
    (0 ≤ (words r).speed ∧ (words r).speed ≤ 1982) ∧
    (0 ≤ (words r).tilt ∧ (words r).tilt ≤ 90000) ∧
    (0 ≤ (words r).hold ∧ (words r).hold ≤ 15000) := by
  obtain ⟨droplets,velocity,tilt,hold⟩ := small
  refine ⟨floorWithin droplets.1 ?_,floorWithin (by linarith) ?_,floorWithin (by linarith) ?_,
    floorWithin hold.1 ?_⟩
  all_goals
    push_cast
    linarith

end Exact

section Reals

theorem previewKept (tierIndex : ℤ) {r : Reading ℝ} (droplets : 0 ≤ r.droplets)
    (velocity : 0 ≤ r.velocity) (tilt : 0 ≤ r.tilt) {n : ℕ} (hold : r.hold = n)
    {wallClockMs : Num ℝ} (covered : .fin r.hold ≤ wallClockMs) (stopped : r.hold ≤ 15000) :
    let stored := (ServerPipeline.clampTelemetry r.report tierIndex wallClockMs).telemetry
    ClientPipeline.rarityScore r.report tierIndex = ServerPipeline.rarityScore stored tierIndex ∧
    ClientPipeline.classify r.report tierIndex = ServerPipeline.classify stored tierIndex := by
  have nonneg : 0 ≤ r.hold := hold ▸ Nat.cast_nonneg n
  have hard : (15000 : ℝ) ≤ ((ServerPipeline.simMaxPourMs : ℚ) : ℝ) := by
    norm_num [ServerPipeline.simMaxPourMs]
  have claim : r.report.holdMs = .fin r.hold := rfl
  obtain ⟨clock,-,granted⟩ := ServerPipeline.heldGranted claim nonneg (stopped.trans hard) covered
  have clamped := clampedWords hold droplets velocity tilt tierIndex granted
  have same : points (speedMost ℝ (words r).hold) tierIndex (words r) =
      points (speedMost ℝ (words (ClampProjection.clamped r.report tierIndex wallClockMs)).hold) tierIndex
        (words (ClampProjection.clamped r.report tierIndex wallClockMs)) := by
    rw [clamped]
    simp only [points,shareCut]
  have alike := scoredAlike nonneg (ServerPipeline.heldMsNonneg _ clock) same
  dsimp only
  rw [clampedReport r.report tierIndex clock]
  exact ⟨alike.client.trans (scoresAlike rfl tierIndex),alike.clientClass.trans (classesAlike rfl tierIndex)⟩

theorem previewNine :
    let pour : Reading ℝ := ⟨9000,9000,3,2500⟩
    let stored := (ServerPipeline.clampTelemetry pour.report 4 (.fin 3000)).telemetry
    ClientPipeline.rarityScore pour.report 4 = ServerPipeline.rarityScore stored 4 ∧
    ClientPipeline.classify pour.report 4 = ServerPipeline.classify stored 4 := by
  intro pour
  have hold : pour.hold = (2500 : ℕ) := by norm_num [pour]
  have covered : (.fin pour.hold : Num ℝ) ≤ .fin 3000 := (Num.leFin ..).mpr (by norm_num [pour])
  exact previewKept 4 (by norm_num [pour]) (by norm_num [pour]) (by norm_num [pour]) hold covered
    (by norm_num [pour])

theorem betterScores {tierIndex : ℤ} {t u : Telemetry ℝ} (first : Clamped tierIndex t)
    (second : Clamped tierIndex u) (hold : t.holdMs = u.holdMs)
    (droplets : t.dropletsLanded ≤ u.dropletsLanded) (velocity : t.peakVelocity ≤ u.peakVelocity)
    (tilt : u.tiltEnergy ≤ t.tiltEnergy) : NotLower t u tierIndex tierIndex := by
  obtain ⟨r,worse,rfl⟩ := clampedReads first
  obtain ⟨q,better,rfl⟩ := clampedReads second
  simp only [Reading.report,Num.leFin,Num.fin.injEq] at hold droplets velocity tilt
  have ranked : Better (words r) (words q) := by
    refine ⟨Int.floor_mono droplets,Int.floor_mono ?_,Int.floor_mono ?_,congrArg Int.floor hold⟩
    · linarith
    · linarith
  refine (notLower worse.hold.1 better.hold.1).mpr ?_
  rw [← show (words r).hold = (words q).hold from ranked.hold]
  exact pointsRise _ tierIndex ranked

theorem steadierScores :
    NotLower (⟨0,0,6,1000⟩ : Reading ℝ).report fiveDroplets.report 1 1 := by
  have shaken : Legal 1 (⟨0,0,6,1000⟩ : Reading ℝ) :=
    secondLegal ⟨le_rfl,ServerPipeline.dropletCeilingNonneg zero_le_one exactCeil 1⟩ ⟨by norm_num,le_rfl⟩
  exact betterScores (legalClamped shaken) (legalClamped fiveLegal) rfl
    ((Num.leFin ..).mpr (by norm_num [fiveDroplets])) ((Num.leFin ..).mpr le_rfl)
    ((Num.leFin ..).mpr (by norm_num [fiveDroplets]))

theorem legalSmall {tierIndex : ℤ} {r : Reading ℝ} (legal : Legal tierIndex r) : Small r := by
  have stop : r.hold ≤ 15000 := by
    refine legal.hold.2.trans ?_
    change ((ServerPipeline.simMaxPourMs : ℚ) : ℝ) ≤ 15000
    norm_num [ServerPipeline.simMaxPourMs]
  have nonneg : 0 ≤ seconds r.hold := Format.divNonneg legal.hold.1 (Format.literalPos (by norm_num))
  have short : seconds r.hold ≤ 15 := by
    change r.hold / ((1000 : ℚ) : ℝ) ≤ 15
    push_cast
    linarith
  refine ⟨⟨legal.droplets.1,legal.droplets.2.trans ?_⟩,⟨legal.velocity.1,legal.velocity.2.trans ?_⟩,
    ⟨legal.tilt.1,legal.tilt.2.trans ?_⟩,legal.hold.1,stop⟩
  · have flow : ((ServerPipeline.tierFlow (ServerPipeline.clampTierIndex tierIndex) : ℚ) : ℝ) ≤ 34 := by
      generalize ServerPipeline.clampTierIndex tierIndex = tier
      fin_cases tier <;> norm_num [ServerPipeline.tierFlow]
    have landed := mul_le_mul flow short nonneg (by norm_num)
    rw [dropletCeilingWhole]
    refine Int.cast_le.mpr (Int.ceil_le.mpr ?_)
    norm_num [ServerPipeline.simDropletTolerar] at landed ⊢
    linarith
  · exact (speedCeilingRises nonneg short).trans terminalSpeed.2
  · change ((ServerPipeline.simMaxTiltRate : ℚ) : ℝ) * seconds r.hold ≤ 90
    norm_num [ServerPipeline.simMaxTiltRate]
    linarith

theorem wordsScore {tierIndex : ℤ} {t u : Telemetry ℝ} (first : Clamped tierIndex t)
    (second : Clamped tierIndex u) (same : clientWords t = clientWords u) : ScoredAlike tierIndex t u := by
  obtain ⟨r,left,rfl⟩ := clampedReads first
  obtain ⟨q,right,rfl⟩ := clampedReads second
  obtain ⟨droplets,speed,tilt,hold⟩ := smallWords (legalSmall left)
  obtain ⟨droplets',speed',tilt',hold'⟩ := smallWords (legalSmall right)
  rw [hashedWords left.droplets.1 left.velocity.1 left.tilt.1 left.hold.1,
    hashedWords right.droplets.1 right.velocity.1 right.tilt.1 right.hold.1] at same
  simp only [List.cons.injEq,and_true] at same
  have equal : words r = words q := by
    rw [Words.mk.injEq]
    exact ⟨ofIntInj (by omega) (by omega) same.1,ofIntInj (by omega) (by omega) same.2.1,
      ofIntInj (by omega) (by omega) same.2.2.1,ofIntInj (by omega) (by omega) same.2.2.2⟩
  exact scoredAlike left.hold.1 right.hold.1 (by rw [equal])

theorem fractionsScore :
    ScoredAlike 1 fiveDroplets.report (⟨5.5,0,0.0003,1000⟩ : Reading ℝ).report := by
  have shaken : Legal 1 (⟨5.5,0,0.0003,1000⟩ : Reading ℝ) :=
    secondLegal ⟨by norm_num,le_trans (by norm_num) secondRoom⟩ ⟨by norm_num,by norm_num⟩
  have five := fiveLegal
  have same : words fiveDroplets = words (⟨5.5,0,0.0003,1000⟩ : Reading ℝ) := by
    norm_num [words,fiveDroplets]
  refine wordsScore (legalClamped five) (legalClamped shaken) ?_
  rw [hashedWords five.droplets.1 five.velocity.1 five.tilt.1 five.hold.1,
    hashedWords shaken.droplets.1 shaken.velocity.1 shaken.tilt.1 shaken.hold.1,same]

end Reals
end MoltenPour.HashedScore
