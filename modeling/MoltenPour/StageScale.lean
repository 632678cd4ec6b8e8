import MoltenPour.RigVelocity

/-! One pour on two stages. Every length of a droplet in the air goes with the
height of the stage except the margin past its sides, which no droplet in the
air ever reaches; so every stage keeps step with one of nine hundred pixels. -/
namespace MoltenPour.StageScale
open NumberFormat ClientPipeline MetaballRig RigVelocity

noncomputable section

def shown (rig : Rig ℝ) : Rig ℝ := { rig with blobs := fun _ => freeSlot, alive := 0 }

def onStage (height : ℝ) (f : Frame ℝ) : Frame ℝ :=
  { f with width := height * 9 / 16, height := height }

/- Inputs and draws as the screen makes them. The power function is asked for
no more than a power keeps: a base in (0, 1] stays there. -/
structure Played (f : Frame ℝ) : Prop where
  forward : 0 ≤ f.dtMs
  lean : |f.lean| ≤ 1
  tier : ∃ index, f.tier = TIERS index
  power : ∀ base exponent, 0 < base → base ≤ 1 → 0 ≤ exponent →
    0 < f.pow base exponent ∧ f.pow base exponent ≤ 1

def Drawn (random : Stream' ℝ) : Prop := ∀ n, 0 ≤ random.get n ∧ random.get n < 1

def enlarge (s : ℝ) (b : Blob ℝ) : Blob ℝ := ⟨b.x * s,b.y * s,b.vx * s,b.vy * s,b.rad * s,b.landed⟩

structure Flown (b : Blob ℝ) (t : ℝ) : Prop where
  since : 0 ≤ t
  down : 1400 * t ≤ b.vy
  fallen : 180 + 700 * t ^ 2 ≤ b.y
  aside : |b.x - 253.125| ≤ 95 + 90 * t
  side : |b.vx| ≤ 90

/- One slot on two stages. Once down, nothing of it is reported again. -/
inductive Alike (s : ℝ) (a b : Blob ℝ) : Prop where
  | down (left : ¬ Aloft a) (right : ¬ Aloft b)
  | up {t : ℝ} (aloft : Aloft b) (flown : Flown b t) (same : a = enlarge s b)

structure Matched (s : ℝ) (a b : Rig ℝ) : Prop where
  same : shown a = shown b
  slots : ∀ i, Alike s (a.blobs i) (b.blobs i)
  drawn : Drawn b.random
  eased : 0 ≤ b.feel.viscosity ∧ b.feel.viscosity ≤ 1

theorem Matched.reading {V : Type} {s : ℝ} {a b : Rig ℝ} (now : Matched s a b) (part : Rig ℝ → V)
    (read : ∀ rig, part (shown rig) = part rig) : part a = part b := by
  rw [← read a,now.same,read]

def counted (quick : ℝ) (pouring hit : Bool) (rig : Rig ℝ) : Rig ℝ :=
  { rig with
    airborne := rig.airborne + 1
    peakVelocity := if pouring = true ∧ rig.peakVelocity < quick then quick else rig.peakVelocity
    dropletsLanded := if hit then rig.dropletsLanded + 1 else rig.dropletsLanded }

theorem aloftCounted (f : Frame ℝ) (pouring : Bool) {rig : Rig ℝ} {i : Fin MAX_BLOBS}
    (up : Aloft (rig.blobs i)) :
    shown (stepSlot f pouring rig i) = counted (speed f (fall f rig.feel (rig.blobs i))) pouring
      (decide (onFloor f (fall f rig.feel (rig.blobs i)))) (shown rig) ∧
    (stepSlot f pouring rig i).blobs = Function.update rig.blobs i (moved f rig.feel (rig.blobs i)) := by
  have air : (fall f rig.feel (rig.blobs i)).landed = false := up.2
  rw [stepSlot,if_neg up.1.not_ge]
  refine ⟨?_,rfl⟩
  unfold moveSlot counted shown
  simp [air]

theorem downCounted (f : Frame ℝ) (pouring : Bool) {rig : Rig ℝ} {i : Fin MAX_BLOBS}
    (down : ¬ Aloft (rig.blobs i)) : shown (stepSlot f pouring rig i) = shown rig ∧
    ∃ b, ¬ Aloft b ∧ (stepSlot f pouring rig i).blobs = Function.update rig.blobs i b := by
  unfold stepSlot
  split
  · exact ⟨rfl,rig.blobs i,down,(Function.update_eq_self ..).symm⟩
  · next used =>
    have used := not_le.mp used
    have landed : (rig.blobs i).landed = true := by
      by_contra air
      exact down ⟨used,by simpa using air⟩
    refine ⟨?_,moved f rig.feel (rig.blobs i),fun up => ?_,rfl⟩
    · have still : (fall f rig.feel (rig.blobs i)).landed = true := landed
      unfold moveSlot shown
      simp [still]
    · rw [← moveSelf f pouring] at up
      exact down (stillAloft used up).1

theorem alikeUpdate {s : ℝ} {u v : Fin MAX_BLOBS → Blob ℝ} (slots : ∀ j, Alike s (u j) (v j))
    {a b : Blob ℝ} (alike : Alike s a b) (i : Fin MAX_BLOBS) :
    ∀ j, Alike s (Function.update u i a j) (Function.update v i b j) := by
  intro j
  by_cases here : j = i
  · subst here
    rwa [Function.update_self,Function.update_self]
  · rw [Function.update_of_ne here,Function.update_of_ne here]
    exact slots j

theorem floorDown {f : Frame ℝ} {feel : TierFeel ℝ} {b : Blob ℝ} (floor : onFloor f (fall f feel b)) :
    ¬ Aloft (moved f feel b) := by
  intro up
  unfold moved at up
  simp only [floor,if_true] at up
  split at up
  · exact lt_irrefl _ up.1
  · exact absurd up.2 (by simp [bounce])

section Stage
variable {height : ℝ} (positive : 0 < height) {f : Frame ℝ} (played : Played f)

theorem stageScale : scale (onStage height f) = height / 900 := by
  have tall : ((SIM_HEIGHT : ℚ) : ℝ) = 900 := by norm_num [SIM_HEIGHT]
  rw [scale,tall]
  rfl

theorem unitScale : scale (onStage 900 f) = 1 := by
  rw [stageScale]
  norm_num

theorem dropletEnlarged (radius : ℝ) (random : Stream' ℝ) :
    droplet (onStage height f) radius random =
      enlarge (height / 900) (droplet (onStage 900 f) radius random) := by
  unfold droplet enlarge
  rw [stageScale,unitScale,Blob.mk.injEq]
  simp only [onStage]
  refine ⟨?_,?_,?_,?_,?_,trivial⟩ <;> ring

theorem fallEnlarged (feel : TierFeel ℝ) (b : Blob ℝ) :
    fall (onStage height f) feel (enlarge (height / 900) b) =
      enlarge (height / 900) (fall (onStage 900 f) feel b) := by
  have second : frameS (onStage height f) = frameS (onStage 900 f) := rfl
  have slowed : drag (onStage height f) feel = drag (onStage 900 f) feel := rfl
  unfold fall enlarge
  rw [stageScale,unitScale,second,slowed]
  simp only [Blob.mk.injEq]
  refine ⟨?_,?_,?_,?_,trivial,trivial⟩ <;> ring

theorem floorAt (stage : ℝ) (b : Blob ℝ) : onFloor (onStage stage f) b ↔ stage * 0.82 < b.y := by
  have floor : ((FLOOR_Y : ℚ) : ℝ) = 0.82 := by norm_num [FLOOR_Y]
  rw [onFloor,floor]
  rfl

theorem viscous (index : Fin 6) :
    0 ≤ (TIERS index : Tier ℝ).feel.viscosity ∧ (TIERS index : Tier ℝ).feel.viscosity ≤ 1 := by
  fin_cases index <;> norm_num [TIERS,TIER_FEEL]

section Played
include played

theorem Played.second : 0 ≤ frameS f ∧ frameS f ≤ 0.05 :=
  ⟨frameSNonneg played.forward,frameSMost f⟩

theorem Played.eased {rig : Rig ℝ} (eased : 0 ≤ rig.feel.viscosity ∧ rig.feel.viscosity ≤ 1) :
    0 ≤ (ease f rig).feel.viscosity ∧ (ease f rig).feel.viscosity ≤ 1 := by
  obtain ⟨index,tier⟩ := played.tier
  obtain ⟨least,most⟩ := viscous index
  have rate : ((FEEL_EASE_RATE : ℚ) : ℝ) = 4.5 := by norm_num [FEEL_EASE_RATE]
  have whole : min 1 (frameS f * FEEL_EASE_RATE) ≤ (1 : ℝ) := min_le_left ..
  have part : 0 ≤ min 1 (frameS f * FEEL_EASE_RATE) := by
    rw [rate]
    exact le_min zero_le_one (mul_nonneg played.second.1 (by norm_num))
  change 0 ≤ rig.feel.viscosity + (f.tier.feel.viscosity - rig.feel.viscosity) *
    min 1 (frameS f * FEEL_EASE_RATE) ∧ rig.feel.viscosity +
    (f.tier.feel.viscosity - rig.feel.viscosity) * min 1 (frameS f * FEEL_EASE_RATE) ≤ 1
  rw [tier]
  constructor <;> nlinarith

theorem Played.dragged {feel : TierFeel ℝ} (eased : 0 ≤ feel.viscosity ∧ feel.viscosity ≤ 1) :
    0 < drag f feel ∧ drag f feel ≤ 1 := by
  refine played.power _ _ ?_ ?_ (mul_nonneg played.second.1 (by norm_num)) <;> linarith

theorem Played.leaning : -1 ≤ f.lean ∧ f.lean ≤ 1 := abs_le.mp played.lean

theorem flownDroplet (radius : ℝ) {random : Stream' ℝ} (drawn : Drawn random) :
    Flown (droplet (onStage 900 f) radius random) 0 := by
  obtain ⟨left,right⟩ := played.leaning
  have across := drawn 0
  have aside := drawn 1
  have down := drawn 2
  have width : (onStage 900 f).width = 506.25 := by norm_num [onStage]
  have height : (onStage 900 f).height = 900 := rfl
  have lean : (onStage 900 f).lean = f.lean := rfl
  have spout : ((SPOUT_Y : ℚ) : ℝ) = 0.2 := by norm_num [SPOUT_Y]
  have widest : ((SIM.spawnVxMax : ℚ) : ℝ) = 45 := by norm_num [SIM.spawnVxMax]
  have fastest : ((SIM.spawnVyMax : ℚ) : ℝ) = 120 := by norm_num [SIM.spawnVyMax]
  constructor
  case since => exact le_rfl
  all_goals
    simp only [droplet,unitScale,width,height,lean,spout,widest,fastest,abs_le]
  case down => linarith
  case fallen => norm_num
  case aside => constructor <;> linarith
  case side => constructor <;> linarith

theorem flownFall {feel : TierFeel ℝ} (eased : 0 ≤ feel.viscosity ∧ feel.viscosity ≤ 1) {b : Blob ℝ}
    {t : ℝ} (flown : Flown b t) : Flown (fall (onStage 900 f) feel b) (t + frameS f) := by
  obtain ⟨forward,-⟩ := played.second
  obtain ⟨some,most⟩ := played.dragged eased
  have gravity : ((SIM.gravity : ℚ) : ℝ) = 1400 := by norm_num [SIM.gravity]
  have slowed : |b.vx * drag f feel| ≤ 90 := by
    rw [abs_mul,abs_of_pos some]
    exact (mul_le_of_le_one_right (abs_nonneg _) most).trans flown.side
  have drift : |b.vx * drag f feel * frameS f| ≤ 90 * frameS f := by
    rw [abs_mul,abs_of_nonneg forward]
    exact mul_le_mul_of_nonneg_right slowed forward
  have faster : 1400 * t + 1400 * frameS f ≤ b.vy + 1400 * frameS f := by linarith [flown.down]
  have lower := mul_le_mul_of_nonneg_right faster forward
  have square := sq_nonneg (frameS f)
  change Flown ⟨b.x + b.vx * drag f feel * frameS f,
    b.y + (b.vy + SIM.gravity * scale (onStage 900 f) * frameS f) * frameS f,b.vx * drag f feel,
    b.vy + SIM.gravity * scale (onStage 900 f) * frameS f,b.rad,b.landed⟩ _
  rw [unitScale,gravity,mul_one]
  constructor
  case since => exact add_nonneg flown.since forward
  case down => linarith [faster]
  case fallen =>
    have grown : 700 * (t + frameS f) ^ 2 = 700 * t ^ 2 + 1400 * t * frameS f + 700 * frameS f ^ 2 := by
      ring
    have product : (1400 * t + 1400 * frameS f) * frameS f =
      1400 * t * frameS f + 1400 * frameS f ^ 2 := by ring
    change 180 + 700 * (t + frameS f) ^ 2 ≤ b.y + (b.vy + 1400 * frameS f) * frameS f
    linarith [flown.fallen]
  case aside =>
    have moved : b.x + b.vx * drag f feel * frameS f - 253.125 =
      b.x - 253.125 + b.vx * drag f feel * frameS f := by ring
    change |b.x + b.vx * drag f feel * frameS f - 253.125| ≤ _
    rw [moved]
    linarith [abs_add_le (b.x - 253.125) (b.vx * drag f feel * frameS f),flown.aside]
  case side => exact slowed

end Played

theorem flownInside {b : Blob ℝ} {t : ℝ} (flown : Flown b t) (air : ¬ onFloor (onStage 900 f) b) :
    0 ≤ b.x ∧ b.x ≤ 506.25 := by
  rw [floorAt,not_lt] at air
  have early : t < 0.9 := by
    by_contra late
    have fallen := flown.fallen
    nlinarith
  have aside := abs_le.mp flown.aside
  constructor <;> linarith

section Positive
include positive

theorem unitPositive : 0 < height / 900 := div_pos positive (by norm_num)

theorem aloftEnlarged (b : Blob ℝ) : Aloft (enlarge (height / 900) b) ↔ Aloft b := by
  unfold Aloft enlarge
  rw [mul_pos_iff_of_pos_right (unitPositive positive)]

theorem floorEnlarged (b : Blob ℝ) :
    onFloor (onStage height f) (enlarge (height / 900) b) ↔ onFloor (onStage 900 f) b := by
  rw [floorAt,floorAt]
  unfold enlarge
  rw [show height * 0.82 = 900 * 0.82 * (height / 900) by ring,
    mul_lt_mul_iff_of_pos_right (unitPositive positive)]

theorem speedEnlarged (b : Blob ℝ) :
    speed (onStage height f) (enlarge (height / 900) b) = speed (onStage 900 f) b := by
  have square : b.vx * (height / 900) * (b.vx * (height / 900)) +
      b.vy * (height / 900) * (b.vy * (height / 900)) =
      (b.vx * b.vx + b.vy * b.vy) * (height / 900) ^ 2 := by ring
  change √(b.vx * (height / 900) * (b.vx * (height / 900)) +
    b.vy * (height / 900) * (b.vy * (height / 900))) / scale (onStage height f) =
    √(b.vx * b.vx + b.vy * b.vy) / scale (onStage 900 f)
  rw [square,stageScale,unitScale,Real.sqrt_mul' _ (sq_nonneg _),Real.sqrt_sq (unitPositive positive).le,
    mul_div_cancel_right₀ _ (unitPositive positive).ne',div_one]

theorem goneInside {b : Blob ℝ} (inside : 0 ≤ b.x ∧ b.x ≤ 506.25) :
    gone (onStage height f) (enlarge (height / 900) b) ↔ b.rad < 4 := by
  have unit := unitPositive positive
  have left : ¬ b.x * (height / 900) < -80 := by
    have nonneg := mul_nonneg inside.1 unit.le
    linarith
  have right : ¬ height * 9 / 16 + 80 < b.x * (height / 900) := by
    have within := mul_le_mul_of_nonneg_right inside.2 unit.le
    linarith
  have shrunk : b.rad * (height / 900) < 4 * (height / 900) ↔ b.rad < 4 :=
    mul_lt_mul_iff_of_pos_right unit
  unfold gone
  rw [stageScale]
  simp only [enlarge,onStage,left,right,shrunk,false_or]

end Positive

theorem enlargeOne (b : Blob ℝ) : enlarge (900 / 900) b = b := by
  unfold enlarge
  norm_num

theorem goneUnit {b : Blob ℝ} (inside : 0 ≤ b.x ∧ b.x ≤ 506.25) : gone (onStage 900 f) b ↔ b.rad < 4 := by
  have unit := goneInside (f := f) (by norm_num : (0 : ℝ) < 900) inside
  rwa [enlargeOne] at unit

section Both
include positive played

theorem movedAlike {feel : TierFeel ℝ} (eased : 0 ≤ feel.viscosity ∧ feel.viscosity ≤ 1) {b : Blob ℝ}
    {t : ℝ} (aloft : Aloft b) (flown : Flown b t) :
    Alike (height / 900) (moved (onStage height f) feel (enlarge (height / 900) b))
      (moved (onStage 900 f) feel b) := by
  have fell := @fallEnlarged height f feel b
  have next := flownFall played eased flown
  by_cases floor : onFloor (onStage 900 f) (fall (onStage 900 f) feel b)
  · refine .down (floorDown ?_) (floorDown floor)
    rwa [fell,floorEnlarged positive]
  · have inside := flownInside next floor
    have high : ¬ onFloor (onStage height f) (fall (onStage height f) feel (enlarge (height / 900) b)) := by
      rwa [fell,floorEnlarged positive]
    unfold moved
    simp only
    rw [if_neg floor,if_neg high,fell]
    by_cases small : (fall (onStage 900 f) feel b).rad < 4
    · rw [if_pos ((goneInside positive inside).mpr small),if_pos ((goneUnit inside).mpr small)]
      exact .down (fun up => lt_irrefl _ up.1) fun up => lt_irrefl _ up.1
    · rw [if_neg (mt (goneInside positive inside).mp small),if_neg (mt (goneUnit inside).mp small)]
      exact .up aloft next rfl

theorem matchedSlot (pouring : Bool) {a b : Rig ℝ} (now : Matched (height / 900) a b)
    (i : Fin MAX_BLOBS) : Matched (height / 900) (stepSlot (onStage height f) pouring a i)
      (stepSlot (onStage 900 f) pouring b i) := by
  have feel : a.feel = b.feel := now.reading Rig.feel fun _ => rfl
  have random : (stepSlot (onStage 900 f) pouring b i).random = b.random ∧
      (stepSlot (onStage 900 f) pouring b i).feel = b.feel := by
    unfold stepSlot
    split <;> exact ⟨rfl,rfl⟩
  obtain ⟨same,slots⟩ : shown (stepSlot (onStage height f) pouring a i) =
      shown (stepSlot (onStage 900 f) pouring b i) ∧ ∀ j, Alike (height / 900)
        ((stepSlot (onStage height f) pouring a i).blobs j)
        ((stepSlot (onStage 900 f) pouring b i).blobs j) := by
    cases now.slots i with
    | down left right =>
      obtain ⟨keptA,x,downX,blobsA⟩ := downCounted (onStage height f) pouring left
      obtain ⟨keptB,y,downY,blobsB⟩ := downCounted (onStage 900 f) pouring right
      rw [keptA,keptB,blobsA,blobsB]
      exact ⟨now.same,alikeUpdate now.slots (.down downX downY) i⟩
    | up aloft flown same =>
      have up : Aloft (a.blobs i) := by rwa [same,aloftEnlarged positive]
      obtain ⟨countA,blobsA⟩ := aloftCounted (onStage height f) pouring up
      obtain ⟨countB,blobsB⟩ := aloftCounted (onStage 900 f) pouring aloft
      rw [countA,countB,blobsA,blobsB,now.same,feel,same,fallEnlarged,speedEnlarged positive]
      refine ⟨?_,alikeUpdate now.slots (movedAlike positive played now.eased aloft flown) i⟩
      simp only [floorEnlarged positive]
  exact ⟨same,slots,random.1 ▸ now.drawn,random.2 ▸ now.eased⟩

theorem matchedSlots (pouring : Bool) {a b : Rig ℝ} (now : Matched (height / 900) a b) :
    Matched (height / 900) (stepSlots (onStage height f) pouring a)
      (stepSlots (onStage 900 f) pouring b) := by
  refine List.foldl_rel ⟨?_,now.slots,now.drawn,now.eased⟩ fun i _ _ _ next =>
    matchedSlot positive played pouring next i
  exact congrArg (fun rig : Rig ℝ => { rig with airborne := 0 }) now.same

theorem matchedSpawn {a b : Rig ℝ} (now : Matched (height / 900) a b) :
    Matched (height / 900) (spawn (onStage height f) a) (spawn (onStage 900 f) b) := by
  have same : ∀ rig : Rig ℝ, shown (spawn (onStage 900 f) rig) = shown (spawn f (shown rig)) := fun _ => rfl
  have radius : a.feel.radius = b.feel.radius := now.reading (fun rig => rig.feel.radius) fun _ => rfl
  have random : a.random = b.random := now.reading Rig.random fun _ => rfl
  have cursor : a.cursor = b.cursor := now.reading Rig.cursor fun _ => rfl
  have drop := @dropletEnlarged height f b.feel.radius b.random
  have fresh : Alike (height / 900) (droplet (onStage height f) b.feel.radius b.random)
      (droplet (onStage 900 f) b.feel.radius b.random) := by
    by_cases aloft : Aloft (droplet (onStage 900 f) b.feel.radius b.random)
    · exact .up aloft (flownDroplet played _ now.drawn) drop
    · refine .down ?_ aloft
      rwa [drop,aloftEnlarged positive]
  refine ⟨(same a).trans ((congrArg (fun rig => shown (spawn f rig)) now.same).trans (same b).symm),?_,
    fun n => now.drawn (n + 4),now.eased⟩
  unfold spawn
  simp only [radius,random,cursor]
  exact alikeUpdate now.slots fresh b.cursor

theorem matchedSpawns (fuel : ℕ) {a b : Rig ℝ} (now : Matched (height / 900) a b) :
    Matched (height / 900) (spawnWhile (onStage height f) fuel a) (spawnWhile (onStage 900 f) fuel b) := by
  induction fuel generalizing a b with
  | zero => exact now
  | succ fuel ih =>
    have carried : a.spawnAcc = b.spawnAcc := now.reading Rig.spawnAcc fun _ => rfl
    unfold spawnWhile
    rw [carried]
    split
    · exact ih (matchedSpawn positive played now)
    · exact now

omit positive in
theorem matchedEase {a b : Rig ℝ} (now : Matched (height / 900) a b) :
    Matched (height / 900) (ease (onStage height f) a) (ease (onStage 900 f) b) :=
  ⟨congrArg (ease f) now.same,now.slots,now.drawn,played.eased now.eased⟩

omit positive played in
theorem matchedTakes {a b : Rig ℝ} (now : Matched (height / 900) a b) :
    takes a (onStage height f) = takes b (onStage 900 f) := by
  rw [takes,now.reading Rig.finished fun _ => rfl]
  rfl

theorem matchedPour {a b : Rig ℝ} (now : Matched (height / 900) a b) :
    Matched (height / 900) (pour (onStage height f) a) (pour (onStage 900 f) b) := by
  unfold pour
  rw [matchedTakes now]
  split
  · have taken : Matched (height / 900) (takeStream (onStage height f) a) (takeStream (onStage 900 f) b) :=
      ⟨congrArg (takeStream f) now.same,now.slots,now.drawn,now.eased⟩
    have carried : (takeStream (onStage height f) a).spawnAcc = (takeStream (onStage 900 f) b).spawnAcc :=
      taken.reading Rig.spawnAcc fun _ => rfl
    unfold stream
    simp only [carried]
    exact matchedSpawns positive played _ taken
  · exact ⟨congrArg (fun rig => { rig with spawnAcc := 0 }) now.same,now.slots,now.drawn,now.eased⟩

theorem matchedStep {a b : Rig ℝ} (now : Matched (height / 900) a b) :
    Matched (height / 900) (stepRig a (onStage height f)) (stepRig b (onStage 900 f)) := by
  have next := matchedSlots positive played (takes b (onStage 900 f))
    (matchedPour positive played (matchedEase played now))
  unfold stepRig
  rw [matchedTakes now]
  exact ⟨congrArg (fun rig : Rig ℝ => { rig with finished := decide (SIM.maxPourMs ≤ rig.holdMs) })
    next.same,next.slots,next.drawn,next.eased⟩

end Both

end Stage

theorem matchedPlay {height : ℝ} (positive : 0 < height) {frames : List (Frame ℝ)}
    (played : ∀ f ∈ frames, Played f) {a b : Rig ℝ} (start : Matched (height / 900) a b) :
    Matched (height / 900) (play (frames.map (onStage height)) a) (play (frames.map (onStage 900)) b) := by
  induction frames generalizing a b with
  | nil => exact start
  | cons f rest ih =>
    have first := matchedStep positive (played f (by simp)) start
    exact ih (fun g mem => played g (by simp [mem])) first

theorem matchedStart (s : ℝ) (tierIndex : Fin 6) {random : Stream' ℝ} (drawn : Drawn random) :
    Matched s (createRig (TIERS tierIndex) random) (createRig (TIERS tierIndex) random) :=
  ⟨rfl,fun _ => .down (fun up => lt_irrefl _ up.1) fun up => lt_irrefl _ up.1,drawn,viscous tierIndex⟩

structure EarnsAlike (a b : Rig ℝ) : Prop where
  holdMs : a.holdMs = b.holdMs
  dropletsLanded : a.dropletsLanded = b.dropletsLanded
  peakVelocity : a.peakVelocity = b.peakVelocity
  tiltEnergy : a.tiltEnergy = b.tiltEnergy
  airborne : a.airborne = b.airborne
  finished : a.finished = b.finished

theorem stageless (tierIndex : Fin 6) (random : Stream' ℝ) (drawn : Drawn random) (height height' : ℝ)
    (positive : 0 < height) (positive' : 0 < height') (frames : List (Frame ℝ))
    (played : ∀ f ∈ frames, Played f) :
    EarnsAlike (play (frames.map (onStage height)) (createRig (TIERS tierIndex) random))
      (play (frames.map (onStage height')) (createRig (TIERS tierIndex) random)) := by
  have one := matchedPlay positive played (matchedStart _ tierIndex drawn)
  have other := matchedPlay positive' played (matchedStart _ tierIndex drawn)
  have same {V : Type} (part : Rig ℝ → V) (read : ∀ rig, part (shown rig) = part rig) :=
    (one.reading part read).trans (other.reading part read).symm
  exact ⟨same Rig.holdMs fun _ => rfl,same Rig.dropletsLanded fun _ => rfl,
    same Rig.peakVelocity fun _ => rfl,same Rig.tiltEnergy fun _ => rfl,same Rig.airborne fun _ => rfl,
    same Rig.finished fun _ => rfl⟩

def leant (pouring : Bool) : Frame ℝ := { straight (fun _ _ => 1) pouring 16 with lean := 1 }

theorem stagelessLeant :
    EarnsAlike (play ((List.replicate 20 (leant true) ++ [leant false]).map (onStage 320))
        (createRig (TIERS 5) draws))
      (play ((List.replicate 20 (leant true) ++ [leant false]).map (onStage 4096))
        (createRig (TIERS 5) draws)) := by
  refine stageless 5 draws (fun n => ?_) 320 4096 (by norm_num) (by norm_num) _ fun f mem => ?_
  · rw [Stream'.get,draws]
    split <;> norm_num
  · have either : f = leant true ∨ f = leant false := by
      rcases List.mem_append.mp mem with opened | shut
      · exact .inl (List.eq_of_mem_replicate opened)
      · exact .inr (List.mem_singleton.mp shut)
    rcases either with rfl | rfl
    · exact ⟨by norm_num [leant,straight],by norm_num [leant],⟨5,rfl⟩,fun _ _ _ _ _ => ⟨one_pos,le_rfl⟩⟩
    · exact ⟨by norm_num [leant,straight],by norm_num [leant],⟨5,rfl⟩,fun _ _ _ _ _ => ⟨one_pos,le_rfl⟩⟩

end
end MoltenPour.StageScale
