import MoltenPour.NumberFormat
import MoltenPour.Fnv

/-! The data both halves of the pipeline share: what a pour reports, what is
hashed, what it earns, and the constants either side carries its own copy of. -/
namespace MoltenPour.Artifact
open NumberFormat

instance tierCount : NeZero 6 := ⟨by decide⟩

structure Telemetry (K : Type) where
  dropletsLanded : Num K
  peakVelocity : Num K
  tiltEnergy : Num K
  holdMs : Num K
  deriving DecidableEq, Repr

inductive Field where
  | dropletsLanded | peakVelocity | tiltEnergy | holdMs
  deriving DecidableEq, Repr

def Field.name : Field → String
  | .dropletsLanded => "dropletsLanded"
  | .peakVelocity => "peakVelocity"
  | .tiltEnergy => "tiltEnergy"
  | .holdMs => "holdMs"

def Telemetry.claim {K : Type} (t : Telemetry K) : Field → Num K
  | .dropletsLanded => t.dropletsLanded
  | .peakVelocity => t.peakVelocity
  | .tiltEnergy => t.tiltEnergy
  | .holdMs => t.holdMs

structure BurnSeed (K : Type) where
  tierIndex : ℤ
  amountCents : ℤ
  timestampMs : ℤ
  telemetry : Telemetry K
  deriving DecidableEq, Repr

inductive Rarity where
  | common | uncommon | rare | singular
  deriving DecidableEq, Repr

def Rarity.text : Rarity → String
  | .common => "Common"
  | .uncommon => "Uncommon"
  | .rare => "Rare"
  | .singular => "Singular"

structure Ceilings (K : Type) where
  maxDroplets : Num K
  maxSpeed : Num K
  maxTilt : Num K
  deriving DecidableEq, Repr

/- What a claimed value counts as before any ceiling: NaN, the infinities and
negative values are nothing. -/
def sane {K : Type} [LinearOrder K] [Zero K] : Num K → K
  | .fin x => max 0 x
  | _ => 0

theorem saneNonneg {K : Type} [LinearOrder K] [Zero K] (x : Num K) : 0 ≤ sane x := by
  cases x with
  | fin x => exact le_max_left 0 x
  | nan => exact le_rfl
  | inf s => exact le_rfl

end MoltenPour.Artifact
