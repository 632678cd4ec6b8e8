import MoltenPour.ClampProjection
import MoltenPour.ClockGrinding

/-! The clamp in order. More claimed, at a dearer tier, under a later clock, is
never cut to less; and a claim that was not cut is not cut later, so that the
moment a pour arrives does not show in what is minted. -/
namespace MoltenPour.ClampOrder
open NumberFormat Artifact Pour ClampAgreement ClampProjection ReachableRarity

section Halves
variable {K : Type} [LinearOrder K] [Zero K] [Format K]

def clientHalf (raw : Telemetry K) (tierIndex : ℤ) (wallClockMs : Num K) : Telemetry K × List Field :=
  let r := ClientPipeline.clampTelemetry raw tierIndex wallClockMs
  (r.telemetry,r.violations)

def serverHalf (raw : Telemetry K) (tierIndex : ℤ) (wallClockMs : Num K) : Telemetry K × List String :=
  let r := ServerPipeline.clampTelemetry raw tierIndex wallClockMs
  (r.telemetry,r.violations.getD [])

end Halves

structure Below {K : Type} [LE K] (a b : Reading K) : Prop where
  droplets : a.droplets ≤ b.droplets
  velocity : a.velocity ≤ b.velocity
  tilt : a.tilt ≤ b.tilt
  hold : a.hold ≤ b.hold

theorem flowRises {low high : ℤ} (tiers : low ≤ high) :
    ServerPipeline.tierFlow (ServerPipeline.clampTierIndex low) ≤
      ServerPipeline.tierFlow (ServerPipeline.clampTierIndex high) := by
  have rises : ∀ i : Fin 5, ServerPipeline.tierFlow i.castSucc ≤ ServerPipeline.tierFlow i.succ := by
    decide +kernel
  exact Fin.monotone_iff_le_succ.mpr rises (tierRises tiers)

section Exact
variable {K : Type} [Field K] [LinearOrder K] [IsStrictOrderedRing K] [FloorRing K] [SquareRoot K]

theorem dropletCeilingRises {low high : ℤ} (tiers : low ≤ high) {h k : K} (nonneg : 0 ≤ h) (le : h ≤ k) :
    ServerPipeline.dropletCeiling low h ≤ ServerPipeline.dropletCeiling high k := by
  have flow : ((ServerPipeline.tierFlow (ServerPipeline.clampTierIndex low) : ℚ) : K) ≤
      ServerPipeline.tierFlow (ServerPipeline.clampTierIndex high) :=
    Rat.cast_le.mpr (flowRises tiers)
  have fast : (0 : K) ≤ ServerPipeline.tierFlow (ServerPipeline.clampTierIndex high) :=
    Rat.cast_nonneg.mpr (ServerPipeline.flowNonneg high)
  have tolerance : (0 : K) ≤ (ServerPipeline.simDropletTolerar : ℚ) := by
    norm_num [ServerPipeline.simDropletTolerar]
  rw [dropletCeilingWhole,dropletCeilingWhole,Int.cast_le]
  exact Int.ceil_mono (mul_le_mul_of_nonneg_right (mul_le_mul flow le nonneg fast) tolerance)

theorem tiltCeilingRises {h k : K} (le : h ≤ k) :
    ServerPipeline.tiltCeiling h ≤ ServerPipeline.tiltCeiling k := by
  refine mul_le_mul_of_nonneg_left le ?_
  norm_num [Format.literal,ServerPipeline.simMaxTiltRate]

theorem allowanceRises {early late : Num K} (nonneg : 0 ≤ early)
    (clocks : early ≤ late) :
    ServerPipeline.allowance early ≤ ServerPipeline.allowance late ∧ 0 ≤ late := by
  cases early with
  | nan => contradiction
  | inf s =>
    cases s with
    | true => contradiction
    | false =>
      cases late with
      | nan => contradiction
      | fin w => contradiction
      | inf s =>
        cases s with
        | true => contradiction
        | false => exact ⟨le_rfl,rfl⟩
  | fin w =>
    cases late with
    | nan => contradiction
    | inf s =>
      cases s with
      | true => contradiction
      | false => exact ⟨min_le_right ..,rfl⟩
    | fin later =>
      rw [Num.leFin] at clocks
      rw [Num.zeroFin,Num.leFin] at nonneg ⊢
      exact ⟨min_le_min_right _ clocks,nonneg.trans clocks⟩

theorem heldRises {raw more : Telemetry K} (claims : sane raw.holdMs ≤ sane more.holdMs)
    {early late : Num K} (nonneg : 0 ≤ early) (clocks : early ≤ late) :
    ServerPipeline.heldS raw early ≤ ServerPipeline.heldS more late := by
  have held : ServerPipeline.heldMs raw early ≤ ServerPipeline.heldMs more late :=
    min_le_min claims (allowanceRises nonneg clocks).1
  refine div_le_div_of_nonneg_right held ?_
  norm_num [Format.literal]

theorem clampSettled (raw : Telemetry K) (tierIndex : ℤ) {early late : Num K} (nonneg : 0 ≤ early)
    (clocks : early ≤ late)
    (clean : (ClientPipeline.clampTelemetry raw tierIndex early).violations = []) :
    ServerPipeline.clampTelemetry raw tierIndex late =
      ServerPipeline.clampTelemetry raw tierIndex early := by
  have allowed := allowanceRises nonneg clocks
  have unlisted : Field.holdMs ∉ (ClientPipeline.clampTelemetry raw tierIndex early).violations := by
    rw [clean]
    exact List.not_mem_nil
  have granted : sane raw.holdMs ≤ ServerPipeline.allowance early :=
    not_lt.mp ((listedIff squaresAlike raw tierIndex nonneg .holdMs).not.mp unlisted)
  exact ClockGrinding.clampsAlike raw tierIndex allowed.2 nonneg (.inl ⟨granted.trans allowed.1,granted⟩)

end Exact

section Reals

theorem speedCeilingRises {h k : ℝ} (nonneg : 0 ≤ h) (le : h ≤ k) :
    ServerPipeline.speedCeiling h ≤ ServerPipeline.speedCeiling k := by
  rw [RigVelocity.ceilingRoot,RigVelocity.ceilingRoot]
  exact Real.sqrt_le_sqrt (RigVelocity.ceilingSquaredMono nonneg le)

variable {early late : Num ℝ} (nonneg : 0 ≤ early) (clocks : early ≤ late)
include nonneg clocks

theorem ceilingRises {raw more : Telemetry ℝ} (claims : sane raw.holdMs ≤ sane more.holdMs)
    {low high : ℤ} (tiers : low ≤ high) (key : Field) :
    ceilingOf raw low early key ≤ ceilingOf more high late key := by
  have second := ServerPipeline.heldSNonneg raw nonneg
  have held := heldRises claims nonneg clocks
  cases key with
  | dropletsLanded => exact dropletCeilingRises tiers second held
  | peakVelocity => exact speedCeilingRises second held
  | tiltEnergy => exact tiltCeilingRises held
  | holdMs => exact (allowanceRises nonneg clocks).1

theorem clampRises {raw more : Reading ℝ} (below : Below raw more) {low high : ℤ} (tiers : low ≤ high)
    (key : Field) :
    (ServerPipeline.clampTelemetry raw.report low early).telemetry.claim key ≤
      (ServerPipeline.clampTelemetry more.report high late).telemetry.claim key := by
  have saner : ∀ key, sane (raw.report.claim key) ≤ sane (more.report.claim key) := by
    intro key
    cases key with
    | dropletsLanded => exact max_le_max_left 0 below.droplets
    | peakVelocity => exact max_le_max_left 0 below.velocity
    | tiltEnergy => exact max_le_max_left 0 below.tilt
    | holdMs => exact max_le_max_left 0 below.hold
  rw [clampedClaim _ _ nonneg,clampedClaim _ _ (allowanceRises nonneg clocks).2,Num.leFin]
  exact min_le_min (saner key) (ceilingRises nonneg clocks (saner .holdMs) tiers key)

theorem listedFewer (raw : Telemetry ℝ) (tierIndex : ℤ) :
    (ClientPipeline.clampTelemetry raw tierIndex late).violations ⊆
      (ClientPipeline.clampTelemetry raw tierIndex early).violations := by
  intro key mem
  rw [listedIff squaresAlike raw tierIndex (allowanceRises nonneg clocks).2] at mem
  rw [listedIff squaresAlike raw tierIndex nonneg]
  exact (ceilingRises nonneg clocks le_rfl le_rfl key).trans_lt mem

end Reals

section Mint

theorem unixMilliRises {now later : Time} (le : now.nanos ≤ later.nanos) :
    now.unixMilli ≤ later.unixMilli := Int.ediv_le_ediv (by decide) le

theorem wallClockRises (timestampMs : ℤ) {now later : Time} (le : now.nanos ≤ later.nanos) :
    (wallClock timestampMs now : Num ℝ) ≤ wallClock timestampMs later := by
  have cut : ∀ n : ℤ, (if (whole n : Num ℝ) < 0 then 0 else whole n) = .fin (max 0 (n : ℝ)) := by
    intro n
    cases lt_or_ge (n : ℝ) 0 with
    | inl negative => simp [wholeCast,negative,max_eq_left negative.le]
    | inr positive => simp [wholeCast,positive.not_gt,max_eq_right positive]
  have value : ∀ moment : Time, (wallClock timestampMs moment : Num ℝ) =
      .fin (max 0 ((moment.unixMilli - timestampMs : ℤ) : ℝ)) := fun moment => cut _
  have milli := unixMilliRises le
  rw [value,value,Num.leFin]
  exact max_le_max_left 0 (Int.cast_le.mpr (by omega))

/- Two records of one pour, issued perhaps on two dates. -/
structure SameArtifact {K : Type} (a b : Record K) : Prop where
  seed : a.seed = b.seed
  rarity : a.rarity = b.rarity
  score : a.rarityScore = b.rarityScore
  telemetry : a.telemetry = b.telemetry
  mass : a.massGrams = b.massGrams
  id : a.id = b.id
  serial : a.serial = b.serial
  batch : a.batch = b.batch

theorem mintSettled {req : Request ℝ} {position : ℕ} {ownerId : String} {now later : Time}
    (le : now.nanos ≤ later.nanos) {a b : Record ℝ} (first : mint req position ownerId now = .ok a)
    (second : mint req position ownerId later = .ok b) (clean : a.violations = some []) :
    SameArtifact a b := by
  have left := mintMinted first
  have right := mintMinted second
  have nonneg := wallClockNonneg (K := ℝ) req.timestampMs now
  have unlisted : (ClientPipeline.clampTelemetry req.telemetry req.tierIndex
      (wallClock req.timestampMs now)).violations = [] := by
    have listed := left.violations.symm.trans clean
    rw [clampsAgree squaresAlike req.telemetry req.tierIndex nonneg,keysNamed] at listed
    exact List.map_eq_nil_iff.mp (Option.some.inj listed)
  have settled := clampSettled req.telemetry req.tierIndex nonneg (wallClockRises req.timestampMs le) unlisted
  have telemetry : a.telemetry = b.telemetry := by rw [left.telemetry,right.telemetry,settled]
  have tier : a.tierIndex = b.tierIndex := left.tier.trans right.tier.symm
  have price : a.amountCents = b.amountCents := left.price.trans right.price.symm
  have stamp : a.timestampMs = b.timestampMs := left.timestamp.trans right.timestamp.symm
  have seed : a.seed = b.seed := by rw [left.seed,right.seed,telemetry,tier,price,stamp]
  refine ⟨seed,?rarity,?score,telemetry,?mass,?id,?serial,?batch⟩
  case rarity => rw [left.rarity,right.rarity,telemetry,tier]
  case score => rw [left.score,right.score,telemetry,tier]
  case mass => rw [left.mass,right.mass,telemetry]
  case id => rw [left.id,right.id,seed]
  case serial => rw [left.serial,right.serial,seed]
  case batch => rw [left.batch,right.batch,seed]

end Mint

section Orders

structure Ordered {L : Type} (clamp : Telemetry ℝ → ℤ → Num ℝ → Telemetry ℝ × List L) : Prop where
  rises : ∀ {raw more : Reading ℝ}, Below raw more → ∀ {low high : ℤ}, low ≤ high →
    ∀ {early late : Num ℝ}, 0 ≤ early → early ≤ late →
    ∀ key, (clamp raw.report low early).1.claim key ≤ (clamp more.report high late).1.claim key
  fewer : ∀ (raw : Telemetry ℝ) (tierIndex : ℤ) {early late : Num ℝ}, 0 ≤ early → early ≤ late →
    (clamp raw tierIndex late).2 ⊆ (clamp raw tierIndex early).2
  settled : ∀ (raw : Telemetry ℝ) (tierIndex : ℤ) {early late : Num ℝ}, 0 ≤ early → early ≤ late →
    (clamp raw tierIndex early).2 = [] → clamp raw tierIndex late = clamp raw tierIndex early

theorem halvesAlike (raw : Telemetry ℝ) (tierIndex : ℤ) {wallClockMs : Num ℝ}
    (nonneg : 0 ≤ wallClockMs) :
    serverHalf raw tierIndex wallClockMs = ((clientHalf raw tierIndex wallClockMs).1,
      (clientHalf raw tierIndex wallClockMs).2.map Field.name) := by
  unfold serverHalf
  rw [clampsAgree squaresAlike raw tierIndex nonneg]
  dsimp only
  rw [keysNamed]
  rfl

theorem clientOrdered : Ordered clientHalf := by
  refine ⟨?rises,fun raw tierIndex _ _ nonneg clocks => listedFewer nonneg clocks raw tierIndex,?settled⟩
  case rises =>
    intro raw more below low high tiers early late nonneg clocks key
    have left := sameTelemetry raw.report low nonneg
    have right := sameTelemetry more.report high (allowanceRises nonneg clocks).2
    have rises := clampRises nonneg clocks below tiers key
    rw [← left,← right] at rises
    exact rises
  case settled =>
    intro raw tierIndex early late nonneg clocks clean
    have later := (allowanceRises nonneg clocks).2
    have settled := clampSettled raw tierIndex nonneg clocks clean
    have telemetry : (clientHalf raw tierIndex late).1 = (clientHalf raw tierIndex early).1 := by
      refine (sameTelemetry raw tierIndex later).trans ?_
      rw [settled]
      exact (sameTelemetry raw tierIndex nonneg).symm
    have listed : (clientHalf raw tierIndex late).2 = [] :=
      List.subset_nil.mp (clean ▸ listedFewer nonneg clocks raw tierIndex)
    exact Prod.ext telemetry (listed.trans clean.symm)

theorem serverOrdered : Ordered serverHalf := by
  refine ⟨?rises,?fewer,?settled⟩
  case rises =>
    intro raw more below low high tiers early late nonneg clocks key
    exact clampRises nonneg clocks below tiers key
  case fewer =>
    intro raw tierIndex early late nonneg clocks
    rw [halvesAlike raw tierIndex nonneg,halvesAlike raw tierIndex (allowanceRises nonneg clocks).2]
    exact List.map_subset Field.name (listedFewer nonneg clocks raw tierIndex)
  case settled =>
    intro raw tierIndex early late nonneg clocks clean
    rw [halvesAlike raw tierIndex nonneg] at clean ⊢
    rw [halvesAlike raw tierIndex (allowanceRises nonneg clocks).2,
      clientOrdered.settled raw tierIndex nonneg clocks (List.map_eq_nil_iff.mp clean)]

theorem arrivalInvisible :
    Ordered clientHalf ∧ Ordered serverHalf ∧
    ∀ (req : Request ℝ) (position : ℕ) (ownerId : String) (now later : Time) (a b : Record ℝ),
      now.nanos ≤ later.nanos → mint req position ownerId now = .ok a →
      mint req position ownerId later = .ok b → a.violations = some [] → SameArtifact a b :=
  ⟨clientOrdered,serverOrdered,fun _ _ _ _ _ _ _ le first second clean =>
    mintSettled le first second clean⟩

def fiveDroplets : Reading ℝ := ⟨5,0,0,1000⟩

theorem secondRoom : (18 : ℝ) ≤ ServerPipeline.dropletCeiling 1 1 := by
  have flow : ServerPipeline.tierFlow (ServerPipeline.clampTierIndex 1) = 16 := by decide +kernel
  rw [dropletCeilingWhole,flow]
  refine le_trans ?_ (Int.le_ceil _)
  norm_num [ServerPipeline.simDropletTolerar]

theorem fiveLegal : Legal 1 fiveDroplets :=
  secondLegal ⟨by norm_num,le_trans (by norm_num) secondRoom⟩ ⟨le_rfl,by norm_num⟩

def fiveRequest : Request ℝ := ⟨1,1785628800000,fiveDroplets.report⟩

theorem retryInvisible :
    ∃ a b, mint fiveRequest 1 "visitor" ⟨1785628801000000000⟩ = .ok a ∧
      mint fiveRequest 1 "visitor" ⟨1785628802000000000⟩ = .ok b ∧ SameArtifact a b := by
  have early : Accepted fiveRequest ⟨1785628801000000000⟩ := ⟨by decide,by decide⟩
  have late : Accepted fiveRequest ⟨1785628802000000000⟩ := ⟨by decide,by decide⟩
  obtain ⟨a,first,minted⟩ := mintAccepted early 1 "visitor"
  obtain ⟨b,second,-⟩ := mintAccepted late 1 "visitor"
  have covered : (Num.fin fiveDroplets.hold : Num ℝ) ≤
      wallClock fiveRequest.timestampMs ⟨1785628801000000000⟩ := by
    have clock : (wallClock fiveRequest.timestampMs ⟨1785628801000000000⟩ : Num ℝ) = whole 1000 := by
      have milli : (⟨1785628801000000000⟩ : Time).unixMilli - fiveRequest.timestampMs = 1000 := by decide
      have positive : ¬ (whole 1000 : Num ℝ) < 0 := by simp [wholeCast]
      unfold wallClock
      rw [milli]
      exact if_neg positive
    rw [clock,wholeCast,Num.leFin]
    norm_num [fiveDroplets]
  have clean : a.violations = some [] := by
    have kept := legalKept fiveLegal covered
    rw [minted.violations]
    exact congrArg (fun r : ServerPipeline.ClampResult ℝ => some (r.violations.getD [])) kept
  have le : (1785628801000000000 : ℤ) ≤ 1785628802000000000 := by decide
  exact ⟨a,b,first,second,arrivalInvisible.2.2 fiveRequest 1 "visitor" ⟨1785628801000000000⟩
    ⟨1785628802000000000⟩ a b le first second clean⟩

end Orders
end MoltenPour.ClampOrder
