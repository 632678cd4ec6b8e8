import Mathlib.Data.Stream.Init
import Mathlib.Data.Rat.Sqrt
import MoltenPour.ClientPipeline

/-! app/ceremony/rig.ts and the tier table it reads, over any exact ordered
field. The random source is the stream of its draws; a frame carries every
argument of one call, and the power function its drag was computed with. -/
namespace MoltenPour.MetaballRig
open NumberFormat Artifact ClientPipeline

abbrev MAX_BLOBS : ℕ := 32
def SPOUT_Y : ℚ := 0.2
def FLOOR_Y : ℚ := 0.82
def SIM_HEIGHT : ℚ := 900
def FEEL_EASE_RATE : ℚ := 4.5
def MAX_FRAME_MS : ℚ := 50

structure TierFeel (K : Type) where
  viscosity : K
  iridescence : K
  roughness : K
  radius : K
  deriving DecidableEq, Repr

structure Tier (K : Type) where
  index : Fin 6
  flow : K
  feel : TierFeel K
  deriving DecidableEq, Repr

structure RigInput (K : Type) where
  pouring : Bool
  lean : K
  tier : Tier K

structure Frame (K : Type) extends RigInput K where
  dtMs : K
  width : K
  height : K
  pow : K → K → K

structure Blob (K : Type) where
  x : K
  y : K
  vx : K
  vy : K
  rad : K
  landed : Bool
  deriving DecidableEq, Repr

/- The source's four arrays, read slot by slot. -/
structure Rig (K : Type) where
  blobs : Fin MAX_BLOBS → Blob K
  cursor : Fin MAX_BLOBS
  spawnAcc : K
  feel : TierFeel K
  holdMs : K
  dropletsLanded : ℕ
  peakVelocity : K
  tiltEnergy : K
  alive : ℕ
  airborne : ℕ
  finished : Bool
  random : Stream' K

instance : SquareRoot ℚ := ⟨Rat.sqrt,fun _ => Rat.sqrt_nonneg _⟩

variable {K : Type} [Field K] [LinearOrder K] [FloorRing K] [SquareRoot K]

def TIER_FEEL : Fin 6 → TierFeel K := ![
  ⟨0.15,0,0.75,16⟩,
  ⟨0.45,0,0.4,22⟩,
  ⟨0.6,0.1,0.3,26⟩,
  ⟨0.72,0.25,0.12,30⟩,
  ⟨0.82,0.75,0.06,34⟩,
  ⟨0.92,1,0.03,40⟩]

def TIERS (index : Fin 6) : Tier K := ⟨index,tierFlow index,TIER_FEEL index⟩

def tierAt (index : ℤ) : Tier K :=
  if h : 0 ≤ index ∧ index < 6 then TIERS ⟨index.toNat,by omega⟩ else TIERS 0

/- One call of the generator: the state it moves to and the word it returns. -/
def nextWord (a : UInt32) : UInt32 × UInt32 :=
  let a := a + 0x6d2b79f5
  let t := (a ^^^ (a >>> 15)) * (1 ||| a)
  let t := (t + (t ^^^ (t >>> 7)) * (61 ||| t)) ^^^ t
  (a,t ^^^ (t >>> 14))

def makeRandom (seed : UInt32) : Stream' K :=
  Stream'.corec (fun a => ((nextWord a).2.toNat : K) / 4294967296) (fun a => (nextWord a).1) seed

def DEFAULT_SEED : UInt32 := 0x9e3779b9

def freeSlot : Blob K := ⟨0,0,0,0,0,false⟩

def createRig (tier : Tier K) (random : Stream' K) : Rig K where
  blobs _ := freeSlot
  cursor := 0
  spawnAcc := 0
  feel := tier.feel
  holdMs := 0
  dropletsLanded := 0
  peakVelocity := 0
  tiltEnergy := 0
  alive := 0
  airborne := 0
  finished := false
  random := random

def resetRig (rig : Rig K) : Rig K :=
  { createRig (TIERS 0) rig.random with feel := rig.feel }

def frameS (f : Frame K) : K := min f.dtMs MAX_FRAME_MS / 1000

def scale (f : Frame K) : K := f.height / SIM_HEIGHT

def ease (f : Frame K) (rig : Rig K) : Rig K :=
  let target := f.tier.feel
  let k := min 1 (frameS f * FEEL_EASE_RATE)
  let feel := rig.feel
  { rig with feel :=
    ⟨feel.viscosity + (target.viscosity - feel.viscosity) * k,
      feel.iridescence + (target.iridescence - feel.iridescence) * k,
      feel.roughness + (target.roughness - feel.roughness) * k,
      feel.radius + (target.radius - feel.radius) * k⟩ }

def droplet (f : Frame K) (radius : K) (random : Stream' K) : Blob K where
  x := f.width * 0.5 + (random.get 0 - 0.5) * 28 * scale f + f.lean * f.width * 0.16
  y := f.height * SPOUT_Y
  vx := ((random.get 1 - 0.5) * 2 * SIM.spawnVxMax + f.lean * SIM.spawnVxMax) * scale f
  vy := random.get 2 * SIM.spawnVyMax * scale f
  rad := radius * scale f * (0.7 + random.get 3 * 0.6)
  landed := false

def spawn (f : Frame K) (rig : Rig K) : Rig K :=
  { rig with
    spawnAcc := rig.spawnAcc - 1
    cursor := rig.cursor + 1
    blobs := Function.update rig.blobs rig.cursor (droplet f rig.feel.radius rig.random)
    random := rig.random.drop 4 }

def spawnWhile (f : Frame K) : ℕ → Rig K → Rig K
  | 0,rig => rig
  | fuel + 1,rig => if 1 ≤ rig.spawnAcc then spawnWhile f fuel (spawn f rig) else rig

def takeStream (f : Frame K) (rig : Rig K) : Rig K :=
  { rig with
    holdMs := min (rig.holdMs + f.dtMs) SIM.maxPourMs
    tiltEnergy := rig.tiltEnergy + min |f.lean| 1 * SIM.maxTiltRate * frameS f
    spawnAcc := rig.spawnAcc + frameS f * f.tier.flow }

def stream (f : Frame K) (rig : Rig K) : Rig K :=
  let rig := takeStream f rig
  spawnWhile f ⌊rig.spawnAcc⌋.toNat rig

def drag (f : Frame K) (feel : TierFeel K) : K := f.pow (1 - feel.viscosity * 0.55) (frameS f * 8)

def fall (f : Frame K) (feel : TierFeel K) (b : Blob K) : Blob K :=
  let vy := b.vy + SIM.gravity * scale f * frameS f
  let vx := b.vx * drag f feel
  { b with vx := vx, vy := vy, x := b.x + vx * frameS f, y := b.y + vy * frameS f }

def speed (f : Frame K) (b : Blob K) : K := SquareRoot.sqrt (b.vx * b.vx + b.vy * b.vy) / scale f

def onFloor (f : Frame K) (b : Blob K) : Prop := f.height * FLOOR_Y < b.y
instance (f : Frame K) (b : Blob K) : Decidable (onFloor f b) := inferInstanceAs (Decidable (_ < _))

def bounce (f : Frame K) (feel : TierFeel K) (b : Blob K) : Blob K :=
  { b with
    y := f.height * FLOOR_Y
    vy := b.vy * -(0.28 * (1 - feel.viscosity))
    vx := b.vx * (1 - feel.viscosity * 0.7)
    rad := b.rad * (1 - 0.12 * feel.viscosity)
    landed := true }

def gone (f : Frame K) (b : Blob K) : Prop := b.x < -80 ∨ f.width + 80 < b.x ∨ b.rad < 4 * scale f
instance (f : Frame K) (b : Blob K) : Decidable (gone f b) :=
  inferInstanceAs (Decidable (_ ∨ _))

def moved (f : Frame K) (feel : TierFeel K) (b : Blob K) : Blob K :=
  let b := fall f feel b
  let b := if onFloor f b then bounce f feel b else b
  if gone f b then { b with rad := 0 } else b

def moveSlot (f : Frame K) (pouring : Bool) (rig : Rig K) (i : Fin MAX_BLOBS) : Rig K :=
  let b := fall f rig.feel (rig.blobs i)
  { rig with
    alive := rig.alive + 1
    airborne := if b.landed then rig.airborne else rig.airborne + 1
    peakVelocity := if b.landed = false ∧ pouring = true ∧ rig.peakVelocity < speed f b
      then speed f b else rig.peakVelocity
    dropletsLanded := if onFloor f b ∧ b.landed = false
      then rig.dropletsLanded + 1 else rig.dropletsLanded
    blobs := Function.update rig.blobs i (moved f rig.feel (rig.blobs i)) }

def stepSlot (f : Frame K) (pouring : Bool) (rig : Rig K) (i : Fin MAX_BLOBS) : Rig K :=
  if (rig.blobs i).rad ≤ 0 then rig else moveSlot f pouring rig i

def stepSlots (f : Frame K) (pouring : Bool) (rig : Rig K) : Rig K :=
  (List.finRange MAX_BLOBS).foldl (stepSlot f pouring) { rig with alive := 0, airborne := 0 }

/- The source's `pouring`: past the hard stop the vessel takes nothing more. -/
def takes (rig : Rig K) (f : Frame K) : Bool := f.pouring && !rig.finished

def pour (f : Frame K) (rig : Rig K) : Rig K :=
  if takes rig f then stream f rig else { rig with spawnAcc := 0 }

def stepRig (rig : Rig K) (f : Frame K) : Rig K :=
  let pouring := takes rig f
  let rig := stepSlots f pouring (pour f (ease f rig))
  { rig with finished := decide (SIM.maxPourMs ≤ rig.holdMs) }

def play (frames : List (Frame K)) (rig : Rig K) : Rig K := frames.foldl stepRig rig

def isSettled (rig : Rig K) (pouring : Bool) : Bool :=
  !pouring && decide (0 < rig.holdMs) && rig.airborne == 0

def telemetryOf (rig : Rig K) : Telemetry K :=
  ⟨.fin rig.dropletsLanded,.fin rig.peakVelocity,.fin rig.tiltEnergy,.fin ⌊rig.holdMs⌋⟩

theorem playNext (frames : List (Frame K)) (f : Frame K) (rig : Rig K) :
    play (frames ++ [f]) rig = stepRig (play frames rig) f := List.foldl_append ..

omit [FloorRing K] [SquareRoot K] in
theorem spawnWhileKeeps {V : Type} (part : Rig K → V) {f : Frame K}
    (kept : ∀ rig, part (spawn f rig) = part rig) (fuel : ℕ) (rig : Rig K) :
    part (spawnWhile f fuel rig) = part rig := by
  induction fuel generalizing rig with
  | zero => rfl
  | succ fuel ih =>
    rw [spawnWhile]
    split
    · exact (ih _).trans (kept rig)
    · rfl

theorem foldKeeps {S I V : Type} (part : S → V) {step : S → I → S}
    (kept : ∀ s i, part (step s i) = part s) (indices : List I) (s : S) :
    part (indices.foldl step s) = part s := by
  induction indices generalizing s with
  | nil => rfl
  | cons i rest ih => exact (ih _).trans (kept s i)

omit [FloorRing K] in
theorem stepSlotsKeep {V : Type} (part : Rig K → V) (f : Frame K) (pouring : Bool)
    (kept : ∀ rig i, part (moveSlot f pouring rig i) = part rig) (rig : Rig K) :
    part (stepSlots f pouring rig) = part { rig with alive := 0, airborne := 0 } := by
  refine foldKeeps part (fun s i => ?_) _ _
  unfold stepSlot
  split
  · rfl
  · exact kept s i

theorem stepFinished (rig : Rig K) (f : Frame K) :
    (stepRig rig f).finished = decide (SIM.maxPourMs ≤ (stepRig rig f).holdMs) := rfl

theorem stepClocks (rig : Rig K) (f : Frame K) : (stepRig rig f).holdMs =
    (if takes rig f then takeStream f rig else rig).holdMs ∧ (stepRig rig f).tiltEnergy =
    (if takes rig f then takeStream f rig else rig).tiltEnergy := by
  have clocks := stepSlotsKeep (fun rig : Rig K => (rig.holdMs,rig.tiltEnergy)) f (takes rig f)
    (fun _ _ => rfl) (pour f (ease f rig))
  refine Prod.mk_inj.mp (clocks.trans ?_)
  change ((pour f (ease f rig)).holdMs,(pour f (ease f rig)).tiltEnergy) = _
  unfold pour
  rw [show takes (ease f rig) f = takes rig f from rfl]
  split
  · exact spawnWhileKeeps (fun rig : Rig K => (rig.holdMs,rig.tiltEnergy)) (fun _ => rfl) ..
  · rfl

omit [FloorRing K] [SquareRoot K] in
theorem frameSNonneg [IsStrictOrderedRing K] {f : Frame K} (forward : 0 ≤ f.dtMs) : 0 ≤ frameS f :=
  div_nonneg (le_min forward (by norm_num [MAX_FRAME_MS])) (by norm_num)

omit [FloorRing K] [SquareRoot K] in
theorem frameSMost [IsStrictOrderedRing K] (f : Frame K) : frameS f ≤ 0.05 := by
  refine (div_le_div_of_nonneg_right (min_le_right ..) (by norm_num)).trans ?_
  norm_num [MAX_FRAME_MS]

def Aloft (b : Blob K) : Prop := 0 < b.rad ∧ b.landed = false

omit [SquareRoot K] in
theorem pourShut {rig : Rig K} {f : Frame K} (shut : takes rig f = false) :
    pour f (ease f rig) = { ease f rig with spawnAcc := 0 } := if_neg (shut ▸ Bool.false_ne_true)

theorem stepShut {rig : Rig K} {f : Frame K} (shut : takes rig f = false) :
    (stepRig rig f).spawnAcc = 0 := by
  refine (stepSlotsKeep Rig.spawnAcc f (takes rig f) (fun _ _ => rfl) _).trans ?_
  rw [pourShut shut]

def lands (f : Frame K) (rig : Rig K) (i : Fin MAX_BLOBS) : Prop :=
  onFloor f (fall f rig.feel (rig.blobs i)) ∧ (rig.blobs i).landed = false
instance (f : Frame K) (rig : Rig K) (i : Fin MAX_BLOBS) : Decidable (lands f rig i) :=
  inferInstanceAs (Decidable (_ ∧ _))

omit [FloorRing K] in
theorem moveCounts (f : Frame K) (pouring : Bool) (rig : Rig K) (i : Fin MAX_BLOBS) :
    (moveSlot f pouring rig i).dropletsLanded =
      if lands f rig i then rig.dropletsLanded + 1 else rig.dropletsLanded := rfl

omit [FloorRing K] in
theorem moveSelf (f : Frame K) (pouring : Bool) (rig : Rig K) (i : Fin MAX_BLOBS) :
    (moveSlot f pouring rig i).blobs i = moved f rig.feel (rig.blobs i) := Function.update_self ..

omit [FloorRing K] in
theorem moveLanded (f : Frame K) (pouring : Bool) (rig : Rig K) (i : Fin MAX_BLOBS) :
    ((moveSlot f pouring rig i).blobs i).landed =
      (decide (onFloor f (fall f rig.feel (rig.blobs i))) || (rig.blobs i).landed) := by
  rw [moveSelf,moved]
  by_cases floor : onFloor f (fall f rig.feel (rig.blobs i))
  · simp only [floor,if_true,decide_true,Bool.true_or]
    split <;> rfl
  · simp only [floor,if_false,decide_false,Bool.false_or]
    split <;> rfl

omit [FloorRing K] in
theorem moveOther (f : Frame K) (pouring : Bool) (rig : Rig K) {i j : Fin MAX_BLOBS} (other : j ≠ i) :
    (moveSlot f pouring rig i).blobs j = rig.blobs j := Function.update_of_ne other ..

omit [FloorRing K] in
theorem stillAloft {f : Frame K} {pouring : Bool} {rig : Rig K} {i j : Fin MAX_BLOBS}
    (used : 0 < (rig.blobs i).rad) (up : Aloft ((moveSlot f pouring rig i).blobs j)) :
    Aloft (rig.blobs j) ∧ (lands f rig i → j ≠ i) := by
  by_cases here : j = i
  · subst here
    have air := up.2
    rw [moveLanded,Bool.or_eq_false_iff,decide_eq_false_iff_not] at air
    exact ⟨⟨used,air.2⟩,fun lands => absurd lands.1 air.1⟩
  · exact ⟨moveOther f pouring rig here ▸ up,fun _ => here⟩

omit [FloorRing K] [SquareRoot K] in
theorem aloftFell {f : Frame K} {feel : TierFeel K} {b : Blob K} (up : Aloft (moved f feel b)) :
    moved f feel b = fall f feel b := by
  unfold moved at up ⊢
  simp only at up ⊢
  by_cases floor : onFloor f (fall f feel b)
  · rw [if_pos floor] at up
    split at up
    · exact absurd up.1 (lt_irrefl _)
    · exact absurd up.2 (by simp [bounce])
  · rw [if_neg floor] at up ⊢
    split at up
    · exact absurd up.1 (lt_irrefl _)
    · next here => rw [if_neg here]

end MoltenPour.MetaballRig
