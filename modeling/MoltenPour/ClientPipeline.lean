import MoltenPour.Artifact

/-! The TypeScript half: app/sigil/telemetry.ts, the hash of sigil.ts and
rarity.ts. The client previews with these; a tier index is an integer in every
caller, so `clampTierIndex` starts from one. -/
namespace MoltenPour.ClientPipeline
open NumberFormat Artifact

namespace SIM
def gravity : ℚ := 1400
def spawnVyMax : ℚ := 120
def spawnVxMax : ℚ := 45
def maxPourMs : ℚ := 15000
def maxTiltRate : ℚ := 6
def dropletTolerance : ℚ := 1.15
end SIM

def tierFlow : Fin 6 → ℚ := ![10,16,20,24,28,34]

def clampTierIndex (tierIndex : ℤ) : Fin 6 :=
  if tierIndex < 0 then 0 else if h : tierIndex < 6 then ⟨tierIndex.toNat,by omega⟩ else 5

variable {K : Type} [LinearOrder K] [Zero K] [Format K]

def telemetryCeilings (tierIndex : ℤ) (holdS : Num K) : Ceilings K :=
  let flow := Num.literal (tierFlow (clampTierIndex tierIndex))
  let maxDroplets := Num.ceil (flow * holdS * Num.literal SIM.dropletTolerance)
  let maxFall := Num.literal SIM.spawnVyMax + Num.literal SIM.gravity * Num.min holdS 1.2
  let maxSpeed := Num.sqrt (maxFall * maxFall +
    Num.literal SIM.spawnVxMax * Num.literal SIM.spawnVxMax) * 1.1
  let maxTilt := Num.literal SIM.maxTiltRate * holdS
  ⟨maxDroplets,maxSpeed,maxTilt⟩

structure ClampResult (K : Type) where
  telemetry : Telemetry K
  violations : List Field
  deriving DecidableEq, Repr

def AMOUNT_CENTS : Fin 6 → ℤ := ![0,299,1299,2999,5999,14900]

def take (key : Field) (value max : Num K) (violations : List Field) : Num K × List Field :=
  let safe := if value.isFinite then Num.max 0 value else 0
  (Num.min safe max,if max < safe then violations ++ [key] else violations)

def clampTelemetry (raw : Telemetry K) (tierIndex : ℤ) (wallClockMs : Num K) : ClampResult K :=
  let hold := take .holdMs raw.holdMs (Num.min wallClockMs (Num.literal SIM.maxPourMs)) []
  let holdS := hold.1 / 1000
  let ceilings := telemetryCeilings tierIndex holdS
  let droplets := take .dropletsLanded raw.dropletsLanded ceilings.maxDroplets hold.2
  let velocity := take .peakVelocity raw.peakVelocity ceilings.maxSpeed droplets.2
  let tilt := take .tiltEnergy raw.tiltEnergy ceilings.maxTilt velocity.2
  ⟨⟨droplets.1,velocity.1,tilt.1,hold.1⟩,tilt.2⟩

/- `>>> 0`: the integer part modulo 2^32, and 0 for NaN and the infinities. -/
def toUint32 : Num K → UInt32
  | .fin x => UInt32.ofInt (Num.truncate x)
  | _ => 0

/- Math.round: the nearest integer, ties toward +infinity. -/
def mathRound : Num K → Num K
  | .fin x => Num.literal (Format.nearest x)
  | x => x

def hashSeed (seed : BurnSeed K) : UInt32 :=
  let t := seed.telemetry
  Fnv.hash [
    toUint32 (Num.literal seed.tierIndex : Num K),
    toUint32 (Num.literal seed.amountCents : Num K),
    toUint32 (Num.literal seed.timestampMs : Num K),
    toUint32 t.dropletsLanded,
    toUint32 (mathRound t.peakVelocity),
    toUint32 (mathRound (t.tiltEnergy * 1000)),
    toUint32 t.holdMs]

def tierReachBase : ℚ := 50
def tierReachStep : ℚ := 10

structure ScoreParts (K : Type) where
  fill : Num K
  force : Num K
  commitment : Num K
  steadiness : Num K
  score : Num K
  deriving DecidableEq, Repr

def permille (value max : Num K) : Num K :=
  if max ≤ 0 then 0
  else
    let p := Num.floor (value * 1000 / max)
    if p < 0 then 0 else if (1000 : Num K) < p then 1000 else p

def scoreParts (telemetry : Telemetry K) (tierIndex : ℤ) : ScoreParts K :=
  let holdMs := Num.floor telemetry.holdMs
  let holdS := holdMs / 1000
  let ceilings := telemetryCeilings tierIndex holdS
  let maxSpeed := mathRound ceilings.maxSpeed
  let maxTiltMilli := mathRound (ceilings.maxTilt * 1000)
  let fill := permille (Num.floor telemetry.dropletsLanded) ceilings.maxDroplets
  let force := permille (mathRound telemetry.peakVelocity) maxSpeed
  let commitment := permille holdMs (Num.literal SIM.maxPourMs)
  let steadiness := 1000 - permille (mathRound (telemetry.tiltEnergy * 1000)) maxTiltMilli
  let base := Num.floor ((fill * 40 + force * 25 + commitment * 20 + steadiness * 15) / 100)
  let reach := Num.literal tierReachBase +
    Num.literal tierReachStep * Num.literal (clampTierIndex tierIndex).val
  ⟨fill,force,commitment,steadiness,Num.floor (base * reach / 100)⟩

def rarityScore (telemetry : Telemetry K) (tierIndex : ℤ) : Num K :=
  (scoreParts telemetry tierIndex).score

namespace THRESHOLDS
def uncommon : ℚ := 533
def rare : ℚ := 665
def singular : ℚ := 771
end THRESHOLDS

def classify (telemetry : Telemetry K) (tierIndex : ℤ) : Rarity :=
  let score := rarityScore telemetry tierIndex
  if Num.literal THRESHOLDS.singular ≤ score then .singular
  else if Num.literal THRESHOLDS.rare ≤ score then .rare
  else if Num.literal THRESHOLDS.uncommon ≤ score then .uncommon
  else .common

theorem takeFin (key : Field) (value : Num K) (m : K) (violations : List Field) :
    take key value (.fin m) violations =
      (.fin (min (sane value) m),if m < sane value then violations ++ [key] else violations) := by
  have nothing : (Num.min (0 : Num K) (.fin m),
      if (.fin m : Num K) < 0 then violations ++ [key] else violations) =
      (.fin (min 0 m),if m < 0 then violations ++ [key] else violations) := by
    cases lt_or_ge m 0 with
    | inl h => simp [h]
    | inr h => simp [h.not_gt]
  cases value with
  | fin x => simp [take,sane,Num.isFinite]
  | nan => exact nothing
  | inf s => exact nothing

end MoltenPour.ClientPipeline
