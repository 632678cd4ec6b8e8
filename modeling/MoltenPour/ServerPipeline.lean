import MoltenPour.Artifact

/-! The Go half: api/sigil/sigil.go and rarity.go. The server mints with these.
A nil slice is `none`; the violations of a clamp that found nothing are nil. -/
namespace MoltenPour.ServerPipeline
open NumberFormat Artifact

def simGravity : ℚ := 1400
def simSpawnVyMax : ℚ := 120
def simSpawnVxMax : ℚ := 45
def simMaxPourMs : ℚ := 15000
def simMaxTiltRate : ℚ := 6
def simDropletTolerar : ℚ := 1.15

def tierFlow : Fin 6 → ℚ := ![10,16,20,24,28,34]

def clampTierIndex (tierIndex : ℤ) : Fin 6 :=
  if tierIndex < 0 then 0 else if h : 6 ≤ tierIndex then 5 else ⟨tierIndex.toNat,by omega⟩

variable {K : Type} [LinearOrder K] [Zero K] [Format K]

/- math.Min puts a negative infinity before NaN. -/
def mathMin (a b : Num K) : Num K :=
  if a = .inf true ∨ b = .inf true then .inf true
  else if a = .nan ∨ b = .nan then .nan
  else if a < b then a else b

def isNaN : Num K → Bool
  | .nan => true
  | _ => false

def isInf : Num K → Bool
  | .inf _ => true
  | _ => false

/- The constant simSpawnVxMax*simSpawnVxMax is folded before it is rounded. -/
def telemetryCeilings (tierIndex : ℤ) (holdS : Num K) : Ceilings K :=
  let flow := Num.literal (tierFlow (clampTierIndex tierIndex))
  let maxDroplets := Num.ceil (flow * holdS * Num.literal simDropletTolerar)
  let maxFall := Num.literal simSpawnVyMax + Num.literal simGravity * mathMin holdS 1.2
  let maxSpeed := Num.sqrt (maxFall * maxFall + Num.literal (simSpawnVxMax * simSpawnVxMax)) * 1.1
  let maxTilt := Num.literal simMaxTiltRate * holdS
  ⟨maxDroplets,maxSpeed,maxTilt⟩

structure ClampResult (K : Type) where
  telemetry : Telemetry K
  violations : Option (List String)
  deriving DecidableEq, Repr

def append (slice : Option (List String)) (key : String) : Option (List String) :=
  some (slice.getD [] ++ [key])

def take (key : String) (value max : Num K) (violations : Option (List String)) :
    Num K × Option (List String) :=
  let safe := if isNaN value || isInf value then 0 else value
  let safe := if safe < 0 then 0 else safe
  (mathMin safe max,if max < safe then append violations key else violations)

def clampTelemetry (raw : Telemetry K) (tierIndex : ℤ) (wallClockMs : Num K) : ClampResult K :=
  let hold := take "holdMs" raw.holdMs (mathMin wallClockMs (Num.literal simMaxPourMs)) none
  let holdS := hold.1 / 1000
  let ceilings := telemetryCeilings tierIndex holdS
  let droplets := take "dropletsLanded" raw.dropletsLanded ceilings.maxDroplets hold.2
  let velocity := take "peakVelocity" raw.peakVelocity ceilings.maxSpeed droplets.2
  let tilt := take "tiltEnergy" raw.tiltEnergy ceilings.maxTilt velocity.2
  ⟨⟨droplets.1,velocity.1,tilt.1,hold.1⟩,tilt.2⟩

/- math.Trunc and math.Mod are exact, so they are taken on the integer part. -/
def toUint32 : Num K → UInt32
  | .fin v =>
      let t := Num.truncate v
      let m := t.tmod 4294967296
      UInt32.ofInt (if m < 0 then m + 4294967296 else m)
  | _ => 0

def jsRound (v : Num K) : Num K := Num.floor (v + 0.5)

def hashSeed (s : BurnSeed K) : UInt32 :=
  Fnv.hash [
    toUint32 (Num.literal s.tierIndex : Num K),
    toUint32 (Num.literal s.amountCents : Num K),
    toUint32 (Num.literal s.timestampMs : Num K),
    toUint32 s.telemetry.dropletsLanded,
    toUint32 (jsRound s.telemetry.peakVelocity),
    toUint32 (jsRound (s.telemetry.tiltEnergy * 1000)),
    toUint32 s.telemetry.holdMs]

def thresholdUncommon : ℚ := 533
def thresholdRare : ℚ := 665
def thresholdSingular : ℚ := 771

def tierReachBase : ℚ := 50
def tierReachStep : ℚ := 10

def permille (value max : Num K) : Num K :=
  if max ≤ 0 then 0
  else
    let p := Num.floor (value * 1000 / max)
    if p < 0 then 0 else if (1000 : Num K) < p then 1000 else p

def rarityScore (t : Telemetry K) (tierIndex : ℤ) : Num K :=
  let holdMs := Num.floor t.holdMs
  let holdS := holdMs / 1000
  let ceilings := telemetryCeilings tierIndex holdS
  let maxSpeed := jsRound ceilings.maxSpeed
  let maxTiltMilli := jsRound (ceilings.maxTilt * 1000)
  let fill := permille (Num.floor t.dropletsLanded) ceilings.maxDroplets
  let force := permille (jsRound t.peakVelocity) maxSpeed
  let commitment := permille holdMs (Num.literal simMaxPourMs)
  let steadiness := 1000 - permille (jsRound (t.tiltEnergy * 1000)) maxTiltMilli
  let base := Num.floor ((fill * 40 + force * 25 + commitment * 20 + steadiness * 15) / 100)
  let reach := Num.literal tierReachBase +
    Num.literal tierReachStep * Num.literal (clampTierIndex tierIndex).val
  Num.floor (base * reach / 100)

def classify (t : Telemetry K) (tierIndex : ℤ) : Rarity :=
  let score := rarityScore t tierIndex
  if Num.literal thresholdSingular ≤ score then .singular
  else if Num.literal thresholdRare ≤ score then .rare
  else if Num.literal thresholdUncommon ≤ score then .uncommon
  else .common

omit [Zero K] [Format K] in
@[simp] theorem mathMinFin (a b : K) : mathMin (.fin a) (.fin b) = .fin (min a b) := by
  cases lt_or_ge a b with
  | inl h => simp [mathMin,h,min_eq_left h.le]
  | inr h => simp [mathMin,h.not_gt,min_eq_right h]

theorem takeFin (key : String) (value : Num K) (m : K) (violations : Option (List String)) :
    take key value (.fin m) violations =
      (.fin (min (sane value) m),if m < sane value then append violations key else violations) := by
  have nothing : take key (0 : Num K) (.fin m) violations =
      (.fin (min 0 m),if m < 0 then append violations key else violations) := by
    cases lt_or_ge m 0 with
    | inl h => simp [take,isNaN,isInf,h]
    | inr h => simp [take,isNaN,isInf,h.not_gt]
  cases value with
  | fin x =>
    cases lt_or_ge x 0 with
    | inl h => simp [take,isNaN,isInf,sane,h,max_eq_left h.le]
    | inr h => simp [take,isNaN,isInf,sane,h.not_gt,max_eq_right h]
  | nan => exact nothing
  | inf s => exact nothing

def dropletCeiling (tierIndex : ℤ) (h : K) : K :=
  Format.literal (Format.ceil (Format.mul (Format.mul (Format.literal (K := K)
    (tierFlow (clampTierIndex tierIndex))) h) (Format.literal simDropletTolerar)) : ℤ)

def maxFall (h : K) : K :=
  Format.add (Format.literal simSpawnVyMax)
    (Format.mul (Format.literal simGravity) (min h (Format.literal 1.2)))

def fallSquared (h : K) : K :=
  Format.add (Format.mul (maxFall h) (maxFall h)) (Format.literal (simSpawnVxMax * simSpawnVxMax))

def speedCeiling (h : K) : K := Format.mul (Format.sqrt (fallSquared h)) (Format.literal 1.1)

def tiltCeiling (h : K) : K := Format.mul (Format.literal simMaxTiltRate) h

theorem maxFallNonneg {h : K} (nonneg : 0 ≤ h) : 0 ≤ maxFall h :=
  Format.addNonneg (Num.literalNonneg (by norm_num [simSpawnVyMax]))
    (Format.mulNonneg (Num.literalNonneg (by norm_num [simGravity]))
      (le_min nonneg (Num.literalNonneg (by norm_num))))

theorem fallSquaredNonneg {h : K} (nonneg : 0 ≤ h) : 0 ≤ fallSquared h :=
  Format.addNonneg (Format.mulNonneg (maxFallNonneg nonneg) (maxFallNonneg nonneg))
    (Num.literalNonneg (by norm_num [simSpawnVxMax]))

theorem flowNonneg (tierIndex : ℤ) : 0 ≤ tierFlow (clampTierIndex tierIndex) := by
  generalize clampTierIndex tierIndex = tier
  fin_cases tier <;> norm_num [tierFlow]

section Ceilings
variable {h : K} (nonneg : 0 ≤ h)
include nonneg

theorem dropletCeilingNonneg (ceils : ∀ a : K, 0 ≤ a → 0 ≤ Format.ceil a) (tierIndex : ℤ) :
    0 ≤ dropletCeiling tierIndex h := by
  have tolerance : 0 ≤ simDropletTolerar := by norm_num [simDropletTolerar]
  have room := Format.mulNonneg (Format.mulNonneg (Num.literalNonneg (flowNonneg tierIndex)) nonneg)
    (Num.literalNonneg tolerance)
  exact Num.literalNonneg (Int.cast_nonneg (ceils _ room))

theorem speedCeilingNonneg : 0 ≤ speedCeiling h :=
  Format.mulNonneg (Format.sqrtNonneg (fallSquaredNonneg nonneg)) (Num.literalNonneg (by norm_num))

theorem tiltCeilingNonneg : 0 ≤ tiltCeiling h :=
  Format.mulNonneg (Num.literalNonneg (by norm_num [simMaxTiltRate])) nonneg

end Ceilings

theorem ceilingsFin (tierIndex : ℤ) {h : K} (nonneg : 0 ≤ h) :
    telemetryCeilings tierIndex (.fin h) =
      ⟨.fin (dropletCeiling tierIndex h),.fin (speedCeiling h),.fin (tiltCeiling h)⟩ := by
  have reach : mathMin (.fin h) (1.2 : Num K) = .fin (min h (Format.literal 1.2)) := mathMinFin h _
  have root := Num.sqrtFin (fallSquaredNonneg nonneg)
  unfold fallSquared maxFall at root
  unfold telemetryCeilings
  simp only [Num.literal,reach,Num.mulFin,Num.addFin,root]
  rfl

def allowance : Num K → K
  | .fin w => min w (Format.literal simMaxPourMs)
  | _ => Format.literal simMaxPourMs

def heldMs (raw : Telemetry K) (wallClockMs : Num K) : K := min (sane raw.holdMs) (allowance wallClockMs)

def heldS (raw : Telemetry K) (wallClockMs : Num K) : K :=
  Format.div (heldMs raw wallClockMs) (Format.literal 1000)

theorem allowanceFin {wallClockMs : Num K} (nonneg : 0 ≤ wallClockMs) :
    mathMin wallClockMs (Num.literal simMaxPourMs) = .fin (allowance wallClockMs) := by
  cases wallClockMs with
  | fin w => exact mathMinFin w _
  | nan => contradiction
  | inf s =>
    cases s with
    | false => rfl
    | true => contradiction

theorem allowanceStopped (wallClockMs : Num K) :
    allowance wallClockMs ≤ Format.literal simMaxPourMs := by
  cases wallClockMs with
  | fin w => exact min_le_right ..
  | nan => exact le_rfl
  | inf s => exact le_rfl

theorem heldStopped (raw : Telemetry K) (wallClockMs : Num K) :
    heldMs raw wallClockMs ≤ Format.literal simMaxPourMs := (min_le_right ..).trans (allowanceStopped _)

theorem heldMsNonneg (raw : Telemetry K) {wallClockMs : Num K} (nonneg : 0 ≤ wallClockMs) :
    0 ≤ heldMs raw wallClockMs := by
  have stop : (0 : K) ≤ Format.literal simMaxPourMs := Num.literalNonneg (by norm_num [simMaxPourMs])
  refine le_min (saneNonneg raw.holdMs) ?_
  cases wallClockMs with
  | fin w =>
    rw [Num.zeroFin,Num.leFin] at nonneg
    exact le_min nonneg stop
  | nan => exact stop
  | inf s => exact stop

theorem heldGranted {raw : Telemetry K} {h : K} (claim : raw.holdMs = .fin h) (nonneg : 0 ≤ h)
    (stopped : h ≤ Format.literal simMaxPourMs) {wallClockMs : Num K} (covered : .fin h ≤ wallClockMs) :
    0 ≤ wallClockMs ∧ h ≤ allowance wallClockMs ∧ heldMs raw wallClockMs = h := by
  have granted : 0 ≤ wallClockMs ∧ h ≤ allowance wallClockMs := by
    cases wallClockMs with
    | fin w =>
      rw [Num.leFin] at covered
      rw [Num.zeroFin,Num.leFin]
      exact ⟨nonneg.trans covered,le_min covered stopped⟩
    | nan => contradiction
    | inf s =>
      cases s with
      | false => exact ⟨rfl,stopped⟩
      | true => contradiction
  have claimed : sane raw.holdMs = h := by
    rw [claim]
    exact max_eq_right nonneg
  refine ⟨granted.1,granted.2,?_⟩
  unfold heldMs
  rw [claimed,min_eq_left granted.2]

theorem heldSNonneg (raw : Telemetry K) {wallClockMs : Num K} (nonneg : 0 ≤ wallClockMs) :
    0 ≤ heldS raw wallClockMs :=
  Format.divNonneg (heldMsNonneg raw nonneg) (Format.literalPos (by norm_num))

theorem perSecond (h : K) : (Num.fin h / 1000 : Num K) = .fin (Format.div h (Format.literal 1000)) :=
  Num.divFin h (Format.literalPos (by norm_num)).ne'

theorem clampFin (raw : Telemetry K) (tierIndex : ℤ) {wallClockMs : Num K} (nonneg : 0 ≤ wallClockMs) :
    clampTelemetry raw tierIndex wallClockMs =
      let h := heldS raw wallClockMs
      let hold := take "holdMs" raw.holdMs (.fin (allowance wallClockMs)) none
      let droplets := take "dropletsLanded" raw.dropletsLanded (.fin (dropletCeiling tierIndex h)) hold.2
      let velocity := take "peakVelocity" raw.peakVelocity (.fin (speedCeiling h)) droplets.2
      let tilt := take "tiltEnergy" raw.tiltEnergy (.fin (tiltCeiling h)) velocity.2
      ⟨⟨droplets.1,velocity.1,tilt.1,hold.1⟩,tilt.2⟩ := by
  have held : (take "holdMs" raw.holdMs (.fin (allowance wallClockMs)) none).1 =
      .fin (heldMs raw wallClockMs) := congrArg Prod.fst (takeFin ..)
  have second : (Num.fin (heldMs raw wallClockMs) / 1000 : Num K) = .fin (heldS raw wallClockMs) :=
    perSecond _
  unfold clampTelemetry
  simp only [allowanceFin nonneg,held,second]
  rw [ceilingsFin tierIndex (heldSNonneg raw nonneg)]

theorem clampTelemetryFin (raw : Telemetry K) (tierIndex : ℤ) {wallClockMs : Num K}
    (nonneg : 0 ≤ wallClockMs) :
    (clampTelemetry raw tierIndex wallClockMs).telemetry =
      let h := heldS raw wallClockMs
      ⟨.fin (min (sane raw.dropletsLanded) (dropletCeiling tierIndex h)),
        .fin (min (sane raw.peakVelocity) (speedCeiling h)),
        .fin (min (sane raw.tiltEnergy) (tiltCeiling h)),
        .fin (heldMs raw wallClockMs)⟩ := by
  rw [clampFin raw tierIndex nonneg]
  simp only [takeFin]
  rfl

theorem permilleFinite {value max : Num K} (finite : value.isFinite = true) (bound : max.isFinite = true) :
    (permille value max).isFinite = true := by
  unfold permille
  split
  · rfl
  · rename_i positive
    have nonzero : max ≠ .fin 0 := by
      rintro rfl
      exact positive (by simp)
    have quotient := Num.floorFinite
      (Num.divFinite (Num.mulFinite finite (b := 1000) (Num.literalFinite 1000)) bound nonzero)
    dsimp only
    split
    · rfl
    · split
      · rfl
      · exact quotient

theorem jsRoundFinite {v : Num K} (finite : v.isFinite = true) : (jsRound v).isFinite = true :=
  Num.floorFinite (Num.addFinite finite (Num.literalFinite 0.5))

structure FiniteTelemetry (t : Telemetry K) : Prop where
  droplets : t.dropletsLanded.isFinite = true
  velocity : t.peakVelocity.isFinite = true
  tilt : t.tiltEnergy.isFinite = true
  hold : ∃ h : K, 0 ≤ h ∧ t.holdMs = .fin h

omit [Format K] in
theorem FiniteTelemetry.holdFinite {t : Telemetry K} (finite : FiniteTelemetry t) :
    t.holdMs.isFinite = true := by
  obtain ⟨h,-,hold⟩ := finite.hold
  rw [hold]
  rfl

theorem clampFinite (raw : Telemetry K) (tierIndex : ℤ) {wallClockMs : Num K}
    (nonneg : 0 ≤ wallClockMs) : FiniteTelemetry (clampTelemetry raw tierIndex wallClockMs).telemetry := by
  rw [clampTelemetryFin raw tierIndex nonneg]
  exact ⟨rfl,rfl,rfl,_,heldMsNonneg raw nonneg,rfl⟩

theorem perHundredFinite {a : Num K} (finite : a.isFinite = true) :
    (Num.floor (a / 100)).isFinite = true :=
  Num.floorFinite (Num.divFinite finite (Num.literalFinite 100) (Num.literalNonzero (by norm_num)))

theorem rarityScoreFinite {t : Telemetry K} (finite : FiniteTelemetry t) (tierIndex : ℤ) :
    (rarityScore t tierIndex).isFinite = true := by
  obtain ⟨h,nonneg,hold⟩ := finite.hold
  have whole : (0 : K) ≤ Format.literal (Format.floor h : ℤ) :=
    Num.literalNonneg (by exact_mod_cast Format.floorNonneg nonneg)
  have second := Format.divNonneg whole (Format.literalPos (K := K) (by norm_num : (0 : ℚ) < 1000))
  have ceilings := ceilingsFin tierIndex second
  have thousand : ∀ {a : Num K}, a.isFinite = true → (a * 1000).isFinite = true :=
    fun ha => Num.mulFinite ha (Num.literalFinite 1000)
  unfold rarityScore
  simp only [hold,Num.floorFin,Num.literal,perSecond,ceilings]
  refine perHundredFinite (Num.mulFinite (perHundredFinite ?_) rfl)
  refine Num.addFinite (Num.addFinite (Num.addFinite ?fill ?force) ?commitment) ?steadiness
  case fill => exact Num.mulFinite (permilleFinite (Num.floorFinite finite.droplets) rfl) rfl
  case force => exact Num.mulFinite (permilleFinite (jsRoundFinite finite.velocity) rfl) rfl
  case commitment => exact Num.mulFinite (permilleFinite rfl rfl) rfl
  case steadiness =>
    exact Num.mulFinite (Num.subFinite rfl
      (permilleFinite (jsRoundFinite (thousand finite.tilt)) rfl)) rfl

end MoltenPour.ServerPipeline
