import MoltenPour.RigDescent
import MoltenPour.RigFrozen

/-! The ring of slots is large enough. A slot is filled again only after thirty-two
more droplets, and by then its droplet has landed; nothing in the air leaves the
stage. So the rig counts what its stream supplied, to the droplet. -/
namespace MoltenPour.RigRing
open NumberFormat ClientPipeline MetaballRig RigWatch RigSettling RigFrozen RigDescent

section Watched
variable {K : Type} [Field K] [LinearOrder K] [FloorRing K] [SquareRoot K]

structure Meter (K : Type) where
  holdMs : K
  carry : K
  total : ℕ

def Meter.none : Meter K := ⟨0,0,0⟩

def Meter.step (meter : Meter K) (f : Frame K) : Meter K :=
  if f.pouring = true ∧ meter.holdMs < 15000 then
    let carry := meter.carry + frameS f * f.tier.flow
    ⟨min (meter.holdMs + f.dtMs) 15000,Int.fract carry,meter.total + ⌊carry⌋.toNat⟩
  else ⟨meter.holdMs,0,meter.total⟩

def Meter.act (meter : Meter K) : Act K → Meter K
  | .step f => meter.step f
  | .reset => .none

def metered (acts : List (Act K)) : Meter K := acts.foldl Meter.act .none

instance (b : Blob K) : Decidable (Aloft b) := inferInstanceAs (Decidable (_ ∧ _))

def inAir (blobs : Fin MAX_BLOBS → Blob K) : ℕ := (Finset.univ.filter fun i => Aloft (blobs i)).card

omit [FloorRing K] [SquareRoot K] in
theorem inAirUpdate (blobs : Fin MAX_BLOBS → Blob K) (i : Fin MAX_BLOBS) (b : Blob K) :
    inAir (Function.update blobs i b) + (if Aloft (blobs i) then 1 else 0) =
      inAir blobs + if Aloft b then 1 else 0 := by
  have counted (slots : Fin MAX_BLOBS → Blob K) :
      inAir slots = (if Aloft (slots i) then 1 else 0) + ∑ j ∈ Finset.univ.erase i,
        if Aloft (slots j) then 1 else 0 := by
    rw [inAir,Finset.card_filter]
    exact (Finset.add_sum_erase _ _ (Finset.mem_univ i)).symm
  have others : ∑ j ∈ Finset.univ.erase i, (if Aloft (Function.update blobs i b j) then 1 else 0) =
      ∑ j ∈ Finset.univ.erase i, if Aloft (blobs j) then 1 else 0 :=
    Finset.sum_congr rfl fun j mem => by rw [Function.update_of_ne (Finset.ne_of_mem_erase mem)]
  rw [counted (Function.update blobs i b),counted blobs,Function.update_self,others]
  omega

omit [FloorRing K] [SquareRoot K] in
theorem groundedNone {rig : Rig K} (down : Grounded rig) : inAir rig.blobs = 0 :=
  Finset.card_eq_zero.mpr (Finset.filter_eq_empty_iff.mpr fun i _ => down i)

omit [FloorRing K] in
theorem moveConserves {feel : TierFeel K} {rig : Rig K} {pouring : Bool} {i : Fin MAX_BLOBS}
    (same : rig.feel = feel) (used : 0 < (rig.blobs i).rad)
    (stays : Aloft (rig.blobs i) → ¬ onFloor f (fall f feel (rig.blobs i)) → ¬ gone f (fall f feel (rig.blobs i))) :
    (moveSlot f pouring rig i).dropletsLanded + inAir (moveSlot f pouring rig i).blobs =
      rig.dropletsLanded + inAir rig.blobs := by
  have moving := inAirUpdate rig.blobs i (moved f rig.feel (rig.blobs i))
  have landed := moveLanded f pouring rig i
  rw [moveSelf] at landed
  rw [moveCounts]
  change ite _ _ _ + inAir (Function.update rig.blobs i (moved f rig.feel (rig.blobs i))) = _
  subst same
  by_cases air : (rig.blobs i).landed = false
  · have up : Aloft (rig.blobs i) := ⟨used,air⟩
    rw [if_pos up] at moving
    by_cases floor : onFloor f (fall f rig.feel (rig.blobs i))
    · have down : ¬ Aloft (moved f rig.feel (rig.blobs i)) := by
        rintro ⟨-,still⟩
        simp [landed,floor] at still
      rw [if_neg down] at moving
      rw [if_pos ⟨floor,air⟩]
      omega
    · have still : Aloft (moved f rig.feel (rig.blobs i)) := by
        unfold moved
        simp only [if_neg floor,if_neg (stays up floor)]
        exact up
      rw [if_pos still] at moving
      rw [if_neg fun lands => floor lands.1]
      omega
  · have before : ¬ Aloft (rig.blobs i) := fun up => air up.2
    have after : ¬ Aloft (moved f rig.feel (rig.blobs i)) := by
      rintro ⟨-,still⟩
      simp [landed,air] at still
    rw [if_neg before,if_neg after] at moving
    rw [if_neg fun lands => air lands.2]
    exact congrArg _ moving

omit [FloorRing K] in
theorem slotsKept (f : Frame K) (pouring : Bool) (s : Rig K × Descent K) :
    let t := descents.stepSlots f pouring s
    t.1.random = s.1.random ∧ t.1.feel = s.1.feel ∧ t.1.spawnAcc = s.1.spawnAcc ∧
      t.1.cursor = s.1.cursor ∧ t.2.spawned = s.2.spawned :=
  descents.stepSlotsRule (fun _ t => t.1.random = s.1.random ∧ t.1.feel = s.1.feel ∧
    t.1.spawnAcc = s.1.spawnAcc ∧ t.1.cursor = s.1.cursor ∧ t.2.spawned = s.2.spawned) f pouring
    (fun _ same _ => same) (fun _ same _ => same) ⟨rfl,rfl,rfl,rfl,rfl⟩

omit [FloorRing K] in
theorem slotsConserve {f : Frame K} {pouring : Bool} {s : Rig K × Descent K}
    (stays : ∀ i, Aloft (s.1.blobs i) → ¬ onFloor f (fall f s.1.feel (s.1.blobs i)) →
      ¬ gone f (fall f s.1.feel (s.1.blobs i))) :
    (descents.stepSlots f pouring s).1.dropletsLanded + inAir (descents.stepSlots f pouring s).1.blobs =
      s.1.dropletsLanded + inAir s.1.blobs := by
  have visited := descents.stepSlotsRule (s := s) (fun rest t => t.1.feel = s.1.feel ∧
      (∀ j ∈ rest, t.1.blobs j = s.1.blobs j) ∧
      t.1.dropletsLanded + inAir t.1.blobs = s.1.dropletsLanded + inAir s.1.blobs) f pouring
    ?moved ?skipped ⟨rfl,fun _ _ => rfl,rfl⟩
  case moved =>
    rintro i rest t fresh ⟨feel,waiting,count⟩ used
    refine ⟨feel,fun j mem => ?_,?_⟩
    · have other : j ≠ i := fun here => fresh (here ▸ mem)
      exact (moveOther f pouring t.1 other).trans (waiting j (by simp [mem]))
    · have blob := waiting i (by simp)
      refine (moveConserves feel used ?_).trans count
      rw [blob]
      exact stays i
  case skipped =>
    rintro i rest t fresh ⟨feel,waiting,count⟩ -
    exact ⟨feel,fun j mem => waiting j (by simp [mem]),count⟩
  exact visited.2.2

/- What the screen can be trusted to hand the rig: one stage, a clock that goes
forward, a lean within the vessel, Math.pow as documented between zero and one;
and at the Full Pour, at least twenty-one frames a second. -/
structure Playable (width height : K) (f : Frame K) : Prop where
  wide : f.width = width
  high : f.height = height
  forward : 0 ≤ f.dtMs
  lean : |f.lean| ≤ 1
  tier : ∃ index, f.tier = TIERS index ∧ (index = 5 → f.dtMs ≤ 48)
  pow : ∀ x y, 0 ≤ x → x ≤ 1 → 0 ≤ y → 0 ≤ f.pow x y ∧ f.pow x y ≤ 1

structure Feels (feel : TierFeel K) : Prop where
  viscous : 0 ≤ feel.viscosity ∧ feel.viscosity ≤ 1
  round : 16 ≤ feel.radius

structure Straight (width stage : K) (b : Blob K) (airS : K) : Prop where
  side : |b.vx| ≤ 90 * stage
  near : |b.x - width / 2| ≤ 14 * stage + 0.16 * width + 90 * stage * airS
  size : 11.2 * stage ≤ b.rad

/- A droplet in its slot: on its way down, and not yet overtaken by the supply. -/
structure Slotted (width height : K) (spawned : ℕ) (supply : K) (i : Fin MAX_BLOBS) (b : Blob K)
    (airS : K) (number : ℕ) : Prop where
  falling : Falling height b airS
  straight : Straight width (height / 900) b airS
  place : number % MAX_BLOBS = i
  known : number < spawned
  young : supply - number < 1 + 34 * airS

structure Ringed (width height pending : K) (s : Rig K × Descent K) : Prop where
  draws : ∀ n, 0 ≤ s.1.random.get n ∧ s.1.random.get n ≤ 1
  feels : Feels s.1.feel
  carried : 0 ≤ s.1.spawnAcc ∧ s.1.spawnAcc < 1 + pending
  cursor : s.1.cursor = s.2.spawned % MAX_BLOBS
  slots : ∀ i, Aloft (s.1.blobs i) → Slotted width height s.2.spawned (s.2.spawned + s.1.spawnAcc - pending)
    i (s.1.blobs i) (s.2.airS i) (s.2.number i)
  count : s.1.dropletsLanded + inAir s.1.blobs = s.2.spawned

end Watched

section Exact
variable {K : Type} [Field K] [LinearOrder K] [IsStrictOrderedRing K] [FloorRing K] [SquareRoot K]

omit [FloorRing K] [SquareRoot K] in
theorem pendingMost {width height : K} {f : Frame K} (playable : Playable width height f) :
    0 ≤ frameS f * f.tier.flow ∧ frameS f * f.tier.flow ≤ 1.632 ∧
      frameS f * f.tier.flow ≤ 34 * frameS f := by
  obtain ⟨index,tier,full⟩ := playable.tier
  have dt : 0 ≤ frameS f := frameSNonneg playable.forward
  have short : frameS f ≤ 0.05 := frameSMost f
  have flow : f.tier.flow = (tierFlow index : K) := by rw [tier,TIERS]
  have flows : ∀ i, 0 ≤ tierFlow i ∧ tierFlow i ≤ 34 ∧ (i ≠ 5 → tierFlow i ≤ 28) := by decide +kernel
  have slow : (0 : K) ≤ tierFlow index ∧ (tierFlow index : K) ≤ 34 := by
    exact ⟨by exact_mod_cast (flows index).1,by exact_mod_cast (flows index).2.1⟩
  rw [flow]
  refine ⟨mul_nonneg dt slow.1,?_,?_⟩
  · by_cases last : index = 5
    · have shorter : frameS f ≤ 0.048 := by
        refine (div_le_div_of_nonneg_right ((min_le_left ..).trans (full last)) (by norm_num)).trans ?_
        norm_num
      calc frameS f * (tierFlow index : K) ≤ 0.048 * 34 :=
            mul_le_mul shorter slow.2 slow.1 (by norm_num)
        _ = 1.632 := by norm_num
    · have slower : (tierFlow index : K) ≤ 28 := by exact_mod_cast (flows index).2.2 last
      calc frameS f * (tierFlow index : K) ≤ 0.05 * 28 :=
            mul_le_mul short slower slow.1 (by norm_num)
        _ ≤ 1.632 := by norm_num
  · rw [mul_comm]
    exact mul_le_mul_of_nonneg_right slow.2 dt

omit [FloorRing K] [SquareRoot K] in
theorem feelsEase {f : Frame K} {rig : Rig K} (feels : Feels rig.feel) (forward : 0 ≤ f.dtMs)
    (tier : ∃ index, f.tier = TIERS index) : Feels (ease f rig).feel := by
  obtain ⟨index,tier⟩ := tier
  have rate : ((FEEL_EASE_RATE : ℚ) : K) = 4.5 := by norm_num [FEEL_EASE_RATE]
  have within : 0 ≤ min 1 (frameS f * FEEL_EASE_RATE) ∧ min 1 (frameS f * FEEL_EASE_RATE) ≤ (1 : K) := by
    rw [rate]
    exact ⟨le_min zero_le_one (mul_nonneg (frameSNonneg forward) (by norm_num)),min_le_left ..⟩
  have target : 0 ≤ f.tier.feel.viscosity ∧ f.tier.feel.viscosity ≤ 1 ∧ 16 ≤ f.tier.feel.radius := by
    rw [tier,TIERS]
    fin_cases index <;> norm_num [TIER_FEEL]
  obtain ⟨low,high,round⟩ := target
  simp only [ease]
  generalize min 1 (frameS f * FEEL_EASE_RATE) = k at within
  obtain ⟨nonneg,most⟩ := within
  have mixed (x y : K) : x + (y - x) * k = (1 - k) * x + k * y := by ring
  refine ⟨⟨?_,?_⟩,?_⟩
  · rw [mixed]
    exact add_nonneg (mul_nonneg (sub_nonneg.mpr most) feels.viscous.1) (mul_nonneg nonneg low)
  · rw [mixed]
    linarith [mul_le_mul_of_nonneg_left feels.viscous.2 (sub_nonneg.mpr most),
      mul_le_mul_of_nonneg_left high nonneg]
  · rw [mixed]
    linarith [mul_le_mul_of_nonneg_left feels.round (sub_nonneg.mpr most),
      mul_le_mul_of_nonneg_left round nonneg]

section Stage
variable {width height : K} (positive : 0 < height) (room : 0.31 * height ≤ width) {f : Frame K}
  (playable : Playable width height f)
include positive room playable

omit [FloorRing K] [SquareRoot K] in
theorem dropletStraight {feel : TierFeel K} (feels : Feels feel) {random : Stream' K}
    (draws : ∀ n, 0 ≤ random.get n ∧ random.get n ≤ 1) :
    Straight width (height / 900) (droplet f feel.radius random) 0 := by
  have stage : 0 < height / 900 := by positivity
  have wide : 0 ≤ width := by linarith
  have lean := abs_le.mp playable.lean
  have most : ((SIM.spawnVxMax : ℚ) : K) = 45 := by norm_num [SIM.spawnVxMax]
  simp only [droplet,stageScaled playable.high,playable.wide,most]
  refine ⟨?side,?near,?size⟩
  case side =>
    rw [abs_mul,abs_of_pos stage]
    refine mul_le_mul_of_nonneg_right (abs_le.mpr ⟨?_,?_⟩) stage.le
    · linarith [(draws 1).1]
    · linarith [(draws 1).2]
  case near =>
    have drawn : |(random.get 0 - 0.5) * 28 * (height / 900)| ≤ 14 * (height / 900) := by
      rw [abs_mul,abs_of_pos stage]
      refine mul_le_mul_of_nonneg_right (abs_le.mpr ⟨?_,?_⟩) stage.le
      · linarith [(draws 0).1]
      · linarith [(draws 0).2]
    have leant : |f.lean * width * 0.16| ≤ 0.16 * width := by
      rw [abs_mul,abs_mul,abs_of_nonneg wide,abs_of_nonneg (by norm_num : (0 : K) ≤ 0.16)]
      linarith [mul_le_of_le_one_left wide playable.lean]
    have apart : width * 0.5 + (random.get 0 - 0.5) * 28 * (height / 900) + f.lean * width * 0.16 - width / 2 =
        (random.get 0 - 0.5) * 28 * (height / 900) + f.lean * width * 0.16 := by ring
    rw [apart,mul_zero,add_zero]
    exact (abs_add_le ..).trans (add_le_add drawn leant)
  case size =>
    have jitter : 0.7 ≤ 0.7 + random.get 3 * 0.6 := by linarith [(draws 3).1]
    calc 11.2 * (height / 900) = 16 * (height / 900) * 0.7 := by ring
      _ ≤ feel.radius * (height / 900) * (0.7 + random.get 3 * 0.6) :=
          mul_le_mul (mul_le_mul_of_nonneg_right feels.round stage.le) jitter (by norm_num)
            (mul_nonneg (le_trans (by norm_num) feels.round) stage.le)

omit [FloorRing K] [SquareRoot K] positive room in
theorem fallStraight {feel : TierFeel K} (feels : Feels feel) {b : Blob K} {airS : K}
    (straight : Straight width (height / 900) b airS) :
    Straight width (height / 900) (fall f feel b) (airS + frameS f) := by
  have dt : 0 ≤ frameS f := frameSNonneg playable.forward
  obtain ⟨zero,one⟩ : 0 ≤ drag f feel ∧ drag f feel ≤ 1 := by
    refine playable.pow _ _ ?_ ?_ (mul_nonneg dt (by norm_num))
    · linarith [feels.viscous.2]
    · linarith [feels.viscous.1]
  have side : |(fall f feel b).vx| ≤ 90 * (height / 900) := by
    simp only [fall]
    rw [abs_mul,abs_of_nonneg zero]
    exact (mul_le_of_le_one_right (abs_nonneg _) one).trans straight.side
  refine ⟨side,?_,straight.size⟩
  have moved : (fall f feel b).x - width / 2 = (b.x - width / 2) + (fall f feel b).vx * frameS f := by
    simp only [fall]
    ring
  have along : |(fall f feel b).vx * frameS f| ≤ 90 * (height / 900) * frameS f := by
    rw [abs_mul,abs_of_nonneg dt]
    exact mul_le_mul_of_nonneg_right side dt
  rw [moved]
  calc |b.x - width / 2 + (fall f feel b).vx * frameS f|
      ≤ (14 * (height / 900) + 0.16 * width + 90 * (height / 900) * airS) +
          90 * (height / 900) * frameS f := (abs_add_le ..).trans (add_le_add straight.near along)
    _ = 14 * (height / 900) + 0.16 * width + 90 * (height / 900) * (airS + frameS f) := by ring

omit [FloorRing K] [SquareRoot K] in
theorem straightStays {b : Blob K} {airS : K} (falling : Falling height b airS)
    (straight : Straight width (height / 900) b airS) : ¬ gone f b := by
  have stage : 0 < height / 900 := by positivity
  have drift : 90 * (height / 900) * airS ≤ 90 * (height / 900) * 0.893 :=
    mul_le_mul_of_nonneg_left (falling.short positive).le (by positivity)
  obtain ⟨left,right⟩ := abs_le.mp straight.near
  have size := straight.size
  unfold gone
  rw [stageScaled playable.high,playable.wide]
  rintro (low | high | small)
  · linarith
  · linarith
  · linarith

omit [FloorRing K] [SquareRoot K] room playable in
theorem cursorFree {pending : K} (small : pending ≤ 1.632) {s : Rig K × Descent K}
    (ringed : Ringed width height pending s) (more : 1 ≤ s.1.spawnAcc) :
    ¬ Aloft (s.1.blobs s.1.cursor) := by
  intro up
  have slot := ringed.slots _ up
  have lap : s.2.number s.1.cursor + 32 ≤ s.2.spawned := by
    have place := slot.place
    have known := slot.known
    have cursor := ringed.cursor
    simp only [MAX_BLOBS] at place cursor
    omega
  have laps : (s.2.number s.1.cursor : K) + 32 ≤ s.2.spawned := by exact_mod_cast lap
  have young := slot.young
  have short := slot.falling.short positive
  linarith

omit [FloorRing K] [SquareRoot K] in
theorem ringedSpawn {pending : K} (small : pending ≤ 1.632) {s : Rig K × Descent K}
    (ringed : Ringed width height pending s) (more : 1 ≤ s.1.spawnAcc) :
    Ringed width height pending (descents.spawn f s) := by
  have free := cursorFree positive small ringed more
  have supply : ((s.2.spawned + 1 : ℕ) : K) + (s.1.spawnAcc - 1) - pending =
      s.2.spawned + s.1.spawnAcc - pending := by
    push_cast
    ring
  have fresh : Aloft (droplet f s.1.feel.radius s.1.random) := by
    have size := (dropletStraight positive room playable ringed.feels ringed.draws).size
    exact ⟨lt_of_lt_of_le (by positivity) size,rfl⟩
  refine ⟨fun n => ringed.draws _,ringed.feels,?carried,?cursor,?slots,?count⟩
  case carried =>
    change 0 ≤ s.1.spawnAcc - 1 ∧ s.1.spawnAcc - 1 < 1 + pending
    exact ⟨sub_nonneg.mpr more,by linarith [ringed.carried.2]⟩
  case cursor =>
    change ((s.1.cursor + 1 : Fin MAX_BLOBS) : ℕ) = (s.2.spawned + 1) % MAX_BLOBS
    rw [Fin.val_add,ringed.cursor]
    simp [MAX_BLOBS,Nat.add_mod]
  case slots =>
    intro i up
    change Slotted width height (s.2.spawned + 1) (((s.2.spawned + 1 : ℕ) : K) + (s.1.spawnAcc - 1) - pending)
      i _ _ _
    rw [supply]
    by_cases here : i = s.1.cursor
    · subst here
      obtain ⟨blob,age,number⟩ := spawnedHere f s
      rw [blob,age,number]
      refine ⟨dropletFalling positive playable.high _ fun n => (ringed.draws n).1,
        dropletStraight positive room playable ringed.feels ringed.draws,ringed.cursor.symm,
        Nat.lt_succ_self _,?_⟩
      linarith [ringed.carried.2]
    · obtain ⟨blob,age,number⟩ := spawnedElse f s here
      rw [blob] at up ⊢
      rw [age,number]
      have slot := ringed.slots i up
      exact { slot with known := slot.known.trans (Nat.lt_succ_self _) }
  case count =>
    have one := inAirUpdate s.1.blobs s.1.cursor (droplet f s.1.feel.radius s.1.random)
    rw [if_neg free,if_pos fresh] at one
    change s.1.dropletsLanded + inAir (Function.update s.1.blobs s.1.cursor _) = s.2.spawned + 1
    have count := ringed.count
    omega

omit [FloorRing K] [SquareRoot K] in
theorem movedSlot {spawned : ℕ} {supply later : K} (soon : later ≤ supply + 34 * frameS f) {feel : TierFeel K}
    (feels : Feels feel) {i : Fin MAX_BLOBS} {b : Blob K} {airS : K} {number : ℕ}
    (slot : Slotted width height spawned supply i b airS number) (above : ¬ onFloor f (fall f feel b)) :
    Slotted width height spawned later i (fall f feel b) (airS + frameS f) number ∧
      ¬ gone f (fall f feel b) := by
  have falling := fallFalling positive playable.high playable.forward feel slot.falling above
  have straight := fallStraight playable feels slot.straight
  refine ⟨⟨falling,straight,slot.place,slot.known,?_⟩,straightStays positive room playable falling straight⟩
  linarith [slot.young]

omit [FloorRing K] in
theorem ringedSlots {pending : K} (soon : pending ≤ 34 * frameS f) (pouring : Bool) {s : Rig K × Descent K}
    (ringed : Ringed width height pending s) (spent : s.1.spawnAcc < 1) :
    Ringed width height 0 (descents.stepSlots f pouring s) := by
  have stays : ∀ i, Aloft (s.1.blobs i) → ¬ onFloor f (fall f s.1.feel (s.1.blobs i)) →
      ¬ gone f (fall f s.1.feel (s.1.blobs i)) := fun i up above =>
    (movedSlot positive room playable (le_add_of_nonneg_right (mul_nonneg (by norm_num)
      (frameSNonneg playable.forward))) ringed.feels (ringed.slots i up) above).2
  obtain ⟨random,feel,acc,cursor,spawned⟩ := slotsKept f pouring s
  refine ⟨random ▸ ringed.draws,feel ▸ ringed.feels,?_,by rw [cursor,spawned,ringed.cursor],?_,
    ((slotsConserve stays).trans ringed.count).trans spawned.symm⟩
  · rw [acc]
    exact ⟨ringed.carried.1,by linarith⟩
  · rw [acc,spawned,sub_zero]
    refine slotsEach (s := s) (fun i b airS number => Aloft b → Slotted width height s.2.spawned
        (s.2.spawned + s.1.spawnAcc - pending) i b airS number)
      (fun i b airS number => Aloft b → Slotted width height s.2.spawned
        (s.2.spawned + s.1.spawnAcc) i b airS number) ?_ ?_ ringed.slots
    · intro i b airS number used slot up
      rw [aloftFell up]
      exact (movedSlot positive room playable (by linarith) ringed.feels (slot (aloftBefore used up))
        (aloftAbove up)).1
    · exact fun i b airS number free slot up => absurd up.1 free.not_gt

omit [SquareRoot K] in
theorem ringedStream {pending : K} (small : pending ≤ 1.632) (fuel : ℕ) {s : Rig K × Descent K}
    (ringed : Ringed width height pending s) (enough : ⌊s.1.spawnAcc⌋.toNat = fuel) :
    let t := descents.spawnWhile f fuel s
    Ringed width height pending t ∧ t.1.spawnAcc = Int.fract s.1.spawnAcc ∧
      t.2.spawned = s.2.spawned + fuel := by
  induction fuel generalizing s with
  | zero =>
    have none : ⌊s.1.spawnAcc⌋ = 0 :=
      le_antisymm (Int.toNat_eq_zero.mp enough) (Int.floor_nonneg.mpr ringed.carried.1)
    exact ⟨ringed,by simp [Watch.spawnWhile,Int.fract,none],rfl⟩
  | succ fuel ih =>
    have more : 1 ≤ s.1.spawnAcc := by
      have one : 1 ≤ ⌊s.1.spawnAcc⌋ := by omega
      exact_mod_cast Int.le_floor.mp one
    have left : (descents.spawn f s).1.spawnAcc = s.1.spawnAcc - 1 := rfl
    have next : ⌊(descents.spawn f s).1.spawnAcc⌋.toNat = fuel := by
      rw [left,Int.floor_sub_one]
      omega
    obtain ⟨ringed,carry,spawned⟩ := ih (ringedSpawn positive room playable small ringed more) next
    rw [Watch.spawnWhile,if_pos more]
    refine ⟨ringed,carry.trans ?_,spawned.trans ?_⟩
    · rw [left,Int.fract_sub_one]
    · exact (Nat.add_assoc ..).trans (congrArg _ (Nat.add_comm ..))

end Stage

structure Agrees (s : Rig K × Descent K) (meter : Meter K) : Prop where
  hold : s.1.holdMs = meter.holdMs
  carry : s.1.spawnAcc = meter.carry
  total : s.2.spawned = meter.total
  finished : s.1.finished = decide (15000 ≤ s.1.holdMs)

structure Opened (width height : K) (f : Frame K) (s t : Rig K × Descent K) (pending : K) : Prop where
  ringed : Ringed width height pending t
  soon : pending ≤ 34 * frameS f
  carry : t.1.spawnAcc = if takes s.1 f then Int.fract (s.1.spawnAcc + frameS f * f.tier.flow) else 0
  spawned : t.2.spawned = s.2.spawned +
    if takes s.1 f then ⌊s.1.spawnAcc + frameS f * f.tier.flow⌋.toNat else 0

section Step
variable {width height : K} (positive : 0 < height) (room : 0.31 * height ≤ width) {f : Frame K}
  (playable : Playable width height f)
include positive room playable

omit [SquareRoot K] in
theorem ringedOpened {s : Rig K × Descent K} (ringed : Ringed width height 0 s) :
    ∃ pending, Opened width height f s (descents.opened s f) pending := by
  obtain ⟨nonneg,small,soon⟩ := pendingMost playable
  have feels : Feels (ease f s.1).feel :=
    feelsEase ringed.feels playable.forward (playable.tier.imp fun _ tier => tier.1)
  have carried := ringed.carried
  rw [add_zero] at carried
  unfold Watch.opened Watch.pour
  rw [show takes (ease f s.1) f = takes s.1 f from rfl]
  cases opens : takes s.1 f with
  | true =>
    have taken : Ringed width height (frameS f * f.tier.flow) (takeStream f (ease f s.1),s.2) := by
      refine ⟨ringed.draws,feels,⟨add_nonneg carried.1 nonneg,add_lt_add_left carried.2 _⟩,
        ringed.cursor,fun i up => ?_,ringed.count⟩
      have supply : (s.2.spawned : K) + (s.1.spawnAcc + frameS f * f.tier.flow) - frameS f * f.tier.flow =
          s.2.spawned + s.1.spawnAcc - 0 := by ring
      change Slotted width height s.2.spawned ((s.2.spawned : K) + (s.1.spawnAcc + frameS f * f.tier.flow) -
        frameS f * f.tier.flow) i _ _ _
      rw [supply]
      exact ringed.slots i up
    obtain ⟨streamed,carry,spawned⟩ := ringedStream positive room playable small _ taken rfl
    rw [if_pos rfl]
    exact ⟨_,streamed,soon,carry.trans (by rw [if_pos opens]; rfl),
      spawned.trans (by rw [if_pos opens]; rfl)⟩
  | false =>
    rw [if_neg Bool.false_ne_true]
    refine ⟨0,⟨ringed.draws,feels,by simp,ringed.cursor,fun i up => ?_,ringed.count⟩,
      mul_nonneg (by norm_num) (frameSNonneg playable.forward),by simp [opens],by simp [opens]⟩
    have slot := ringed.slots i up
    refine { slot with young := ?_ }
    have young := slot.young
    change (s.2.spawned : K) + 0 - 0 - _ < _
    linarith

theorem agreesStep {s : Rig K × Descent K} {meter : Meter K} (ringed : Ringed width height 0 s)
    (agrees : Agrees s meter) :
    Ringed width height 0 (descents.step s f) ∧ Agrees (descents.step s f) (meter.step f) := by
  have stop : ((SIM.maxPourMs : ℚ) : K) = 15000 := by norm_num [SIM.maxPourMs]
  have opens : takes s.1 f = true ↔ f.pouring = true ∧ meter.holdMs < 15000 := by
    simp [takes,agrees.finished,agrees.hold]
  have hold := (stepClocks s.1 f).1
  have finished := stepFinished s.1 f
  rw [← descents.stepRigged] at hold finished
  rw [stop] at finished
  obtain ⟨pending,opened⟩ := ringedOpened positive room playable ringed
  have spent : (descents.opened s f).1.spawnAcc < 1 := by
    rw [opened.carry]
    split
    · exact Int.fract_lt_one _
    · exact zero_lt_one
  have slots := ringedSlots positive room playable opened.soon (takes s.1 f) opened.ringed spent
  have stepped : Ringed width height 0 (descents.step s f) :=
    ⟨slots.draws,slots.feels,slots.carried,slots.cursor,slots.slots,slots.count⟩
  obtain ⟨-,-,carry,-,spawned⟩ := slotsKept f (takes s.1 f) (descents.opened s f)
  have carry := carry.trans opened.carry
  have spawned := spawned.trans opened.spawned
  change (descents.step s f).1.spawnAcc = _ at carry
  change (descents.step s f).2.spawned = _ at spawned
  refine ⟨stepped,?_⟩
  unfold Meter.step
  by_cases taking : f.pouring = true ∧ meter.holdMs < 15000
  · rw [if_pos (opens.mpr taking)] at hold carry spawned
    rw [if_pos taking]
    refine ⟨hold.trans ?_,carry.trans (by rw [agrees.carry]),spawned.trans (by rw [agrees.carry,agrees.total]),
      finished⟩
    rw [takeStream,stop,agrees.hold]
  · have shut := mt opens.mp taking
    rw [if_neg shut] at hold carry spawned
    rw [if_neg taking]
    exact ⟨hold.trans agrees.hold,carry,spawned.trans agrees.total,finished⟩

end Step

omit [SquareRoot K] in
theorem ringedEmpty (width height : K) (tier : Tier K) {random : Stream' K} {feel : TierFeel K}
    (draws : ∀ n, 0 ≤ random.get n ∧ random.get n ≤ 1) (feels : Feels feel) :
    Ringed width height 0 ({ createRig tier random with feel := feel },unspawned) ∧
      Agrees ({ createRig tier random with feel := feel },unspawned) .none := by
  have none : ∀ i, ¬ Aloft ((createRig tier random).blobs i) := fun _ up => lt_irrefl _ up.1
  refine ⟨⟨draws,feels,by simp [createRig],rfl,fun i up => absurd up (none i),?_⟩,rfl,rfl,rfl,?_⟩
  · exact (congrArg _ (groundedNone none)).trans rfl
  · exact (decide_eq_false (not_le.mpr (by norm_num : (0 : K) < 15000))).symm

theorem ringedDrive {width height : K} (positive : 0 < height) (room : 0.31 * height ≤ width)
    (index : Fin 6) {random : Stream' K} (draws : ∀ n, 0 ≤ random.get n ∧ random.get n ≤ 1)
    {acts : List (Act K)} (playable : ∀ f, .step f ∈ acts → Playable width height f) :
    ∃ d, Ringed width height 0 (drive acts (createRig (TIERS index) random),d) ∧
      Agrees (drive acts (createRig (TIERS index) random),d) (metered acts) := by
  induction acts using List.reverseRecOn with
  | nil =>
    have feels : Feels (TIERS index : Tier K).feel := by
      fin_cases index <;> constructor <;> norm_num [TIERS,TIER_FEEL]
    exact ⟨unspawned,ringedEmpty width height (TIERS index) draws feels⟩
  | append_singleton acts last ih =>
    obtain ⟨d,ringed,agrees⟩ := ih fun f mem => playable f (List.mem_append_left _ mem)
    have driven : drive (acts ++ [last]) (createRig (TIERS index) random) =
        act (drive acts (createRig (TIERS index) random)) last := List.foldl_append ..
    have meter : metered (acts ++ [last]) = (metered acts).act last := List.foldl_append ..
    rw [driven,meter]
    cases last with
    | step f =>
      have stepped := agreesStep positive room (playable f (by simp)) ringed agrees
      have rigged : (descents.step (drive acts (createRig (TIERS index) random),d) f).1 =
          stepRig (drive acts (createRig (TIERS index) random)) f := descents.stepRigged ..
      refine ⟨(descents.step (drive acts (createRig (TIERS index) random),d) f).2,?_⟩
      rw [act,← rigged]
      exact stepped
    | reset => exact ⟨unspawned,ringedEmpty width height _ ringed.draws ringed.feels⟩

omit [IsStrictOrderedRing K] in
theorem settledGrounded (tier : Tier K) (random : Stream' K) (acts : List (Act K))
    (settled : isSettled (drive acts (createRig tier random)) false = true) :
    Grounded (drive acts (createRig tier random)) := by
  induction acts using List.reverseRecOn with
  | nil => exact emptyGrounded tier random
  | append_singleton acts last _ =>
    have driven : drive (acts ++ [last]) (createRig tier random) =
        act (drive acts (createRig tier random)) last := List.foldl_append ..
    rw [driven] at settled ⊢
    cases last with
    | step f => exact (settledStill settled).2.grounded
    | reset => exact emptyGrounded (TIERS 0) (drive acts (createRig tier random)).random

omit [SquareRoot K] in
theorem meteredStretch {flow : K} (nonneg : 0 ≤ flow) {frames : List (Frame K)} {meter : Meter K}
    (carried : 0 ≤ meter.carry ∧ meter.carry < 1) (forward : ∀ f ∈ frames, 0 ≤ f.dtMs)
    (rate : ∀ f ∈ frames, f.tier.flow = flow) (opened : ∀ f ∈ frames, f.pouring = true)
    (early : ∀ seen f rest, frames = seen ++ f::rest → meter.holdMs + (seen.map Frame.dtMs).sum < 15000) :
    let last := frames.foldl Meter.step meter
    0 ≤ last.carry ∧ last.carry < 1 ∧
      (last.total : K) + last.carry = meter.total + meter.carry + flow * elapsedS frames := by
  induction frames generalizing meter with
  | nil => exact ⟨carried.1,carried.2,by simp [elapsedS]⟩
  | cons f rest ih =>
    have now : meter.holdMs < 15000 := by simpa using early [] f rest rfl
    have stepped : meter.step f = ⟨min (meter.holdMs + f.dtMs) 15000,
        Int.fract (meter.carry + frameS f * flow),meter.total + ⌊meter.carry + frameS f * flow⌋.toNat⟩ := by
      rw [Meter.step,if_pos ⟨opened f (by simp),now⟩,rate f (by simp)]
    have supply : 0 ≤ meter.carry + frameS f * flow :=
      add_nonneg carried.1 (mul_nonneg (frameSNonneg (forward f (by simp))) nonneg)
    have part : 0 ≤ (meter.step f).carry ∧ (meter.step f).carry < 1 :=
      stepped ▸ ⟨Int.fract_nonneg _,Int.fract_lt_one _⟩
    obtain ⟨low,high,total⟩ := ih part
      (fun g mem => forward g (by simp [mem])) (fun g mem => rate g (by simp [mem]))
      (fun g mem => opened g (by simp [mem])) (by
        intro seen g more whole
        have within := early (f::seen) g more (by simp [whole])
        rw [stepped]
        refine lt_of_le_of_lt (add_le_add_left (min_le_left ..) _) ?_
        simpa [add_assoc] using within)
    refine ⟨low,high,total.trans ?_⟩
    have whole : ((⌊meter.carry + frameS f * flow⌋.toNat : ℕ) : K) = ⌊meter.carry + frameS f * flow⌋ := by
      rw [← Int.cast_natCast,Int.toNat_of_nonneg (Int.floor_nonneg.mpr supply)]
    have parts := Int.floor_add_fract (meter.carry + frameS f * flow)
    rw [stepped]
    simp only [Nat.cast_add,whole,elapsedS,List.map_cons,List.sum_cons]
    linarith

omit [SquareRoot K] [IsStrictOrderedRing K] in
theorem meteredShut {frames : List (Frame K)} {meter : Meter K} (shut : ∀ f ∈ frames, f.pouring = false) :
    (frames.foldl Meter.step meter).total = meter.total := by
  induction frames generalizing meter with
  | nil => rfl
  | cons f rest ih =>
    refine (ih fun g mem => shut g (by simp [mem])).trans ?_
    rw [Meter.step,if_neg (by simp [shut f (by simp)])]

omit [SquareRoot K] [IsStrictOrderedRing K] in
theorem meteredFrames (frames : List (Frame K)) :
    metered (frames.map Act.step) = frames.foldl Meter.step .none := List.foldl_map ..

omit [IsStrictOrderedRing K] in
theorem driveFrames (frames : List (Frame K)) (rig : Rig K) :
    drive (frames.map .step) rig = play frames rig := List.foldl_map ..

section Counted
variable (width height : K) (positive : 0 < height) (room : 0.31 * height ≤ width) (index : Fin 6)
  (random : Stream' K) (draws : ∀ n, 0 ≤ random.get n ∧ random.get n < 1)
include positive room draws

theorem inFlight {acts : List (Act K)} (playable : ∀ f, .step f ∈ acts → Playable width height f) :
    let rig := drive acts (createRig (TIERS index) random)
    rig.holdMs = (metered acts).holdMs ∧ rig.dropletsLanded + inAir rig.blobs = (metered acts).total := by
  obtain ⟨d,ringed,agrees⟩ := ringedDrive positive room index (fun n => ⟨(draws n).1,(draws n).2.le⟩) playable
  exact ⟨agrees.hold,ringed.count.trans agrees.total⟩

theorem settledCount {acts : List (Act K)} (playable : ∀ f, .step f ∈ acts → Playable width height f)
    (settled : isSettled (drive acts (createRig (TIERS index) random)) false = true) :
    (drive acts (createRig (TIERS index) random)).dropletsLanded = (metered acts).total := by
  have total := (inFlight width height positive room index random draws playable).2
  rwa [groundedNone (settledGrounded _ _ _ settled),Nat.add_zero] at total

theorem longSettled {acts : List (Act K)} (playable : ∀ f, .step f ∈ acts → Playable width height f)
    (held : 0 < (metered acts).holdMs) {shuts : List (Frame K)} {f : Frame K}
    (sized : ∀ g ∈ shuts, g.height = height ∧ 0 ≤ g.dtMs ∧ g.pouring = false) (shut : f.pouring = false)
    (long : 0.893 ≤ elapsedS shuts) :
    isSettled (stepRig (play shuts (drive acts (createRig (TIERS index) random))) f) false = true := by
  obtain ⟨d,ringed,agrees⟩ := ringedDrive positive room index (fun n => ⟨(draws n).1,(draws n).2.le⟩) playable
  have hold : 0 < (drive acts (createRig (TIERS index) random)).holdMs := agrees.hold ▸ held
  exact stillSettled (shutSettles positive (fun n => (ringed.draws n).1)
    (fun i up => (ringed.slots i up).falling) hold sized shut long)

theorem nothingLost (acts : List (Act K)) (playable : ∀ f, .step f ∈ acts → Playable width height f) :
    let rig := drive acts (createRig (TIERS index) random)
    rig.holdMs = (metered acts).holdMs ∧ rig.dropletsLanded + inAir rig.blobs = (metered acts).total ∧
      (isSettled rig false = true → rig.dropletsLanded = (metered acts).total) := by
  intro rig
  obtain ⟨hold,total⟩ := inFlight width height positive room index random draws playable
  exact ⟨hold,total,settledCount width height positive room index random draws playable⟩

theorem heldOnce (opens shuts : List (Frame K)) (playable : ∀ f ∈ opens ++ shuts, Playable width height f)
    (tier : ∀ f ∈ opens, f.tier = TIERS index) (opened : ∀ f ∈ opens, f.pouring = true)
    (shut : ∀ f ∈ shuts, f.pouring = false)
    (early : (opens.dropLast.map Frame.dtMs).sum < 15000)
    (settled : isSettled (play (opens ++ shuts) (createRig (TIERS index) random)) false = true) :
    (play (opens ++ shuts) (createRig (TIERS index) random)).dropletsLanded =
      ⌊(tierFlow index : K) * elapsedS opens⌋ := by
  have flow : (0 : K) ≤ tierFlow index := by
    fin_cases index <;> norm_num [tierFlow]
  rw [← driveFrames] at settled ⊢
  have count := settledCount width height positive room index random draws (by simpa using playable) settled
  have forward : ∀ f ∈ opens, 0 ≤ f.dtMs := fun f mem => (playable f (List.mem_append_left _ mem)).forward
  have before : ∀ seen f rest, opens = seen ++ f::rest → (seen.map Frame.dtMs).sum < 15000 := by
    intro seen f rest whole
    refine lt_of_le_of_lt ?_ early
    rw [whole,List.dropLast_append_of_ne_nil (by simp),List.map_append,List.sum_append]
    refine le_add_of_nonneg_right (List.sum_nonneg fun x mem => ?_)
    obtain ⟨g,from',rfl⟩ := List.mem_map.mp mem
    exact forward g (whole ▸ List.mem_append_right _ (List.dropLast_subset _ from'))
  rw [count,meteredFrames,List.foldl_append,meteredShut shut]
  have fresh : 0 ≤ (Meter.none : Meter K).carry ∧ (Meter.none : Meter K).carry < 1 := ⟨le_rfl,zero_lt_one⟩
  obtain ⟨low,high,total⟩ := meteredStretch flow fresh
    forward (fun f mem => by rw [tier f mem,TIERS]) opened (by simpa [Meter.none] using before)
  have supply : (tierFlow index : K) * elapsedS opens =
      (opens.foldl Meter.step .none).total + (opens.foldl Meter.step .none).carry := by
    rw [total]
    simp [Meter.none]
  rw [supply,Int.floor_natCast_add,Int.floor_eq_zero_iff.mpr ⟨low,high⟩,add_zero]

end Counted
end Exact

section Example

def leant (pouring : Bool) (dtMs : ℚ) : Frame ℚ := ⟨⟨pouring,-1,TIERS 5⟩,dtMs,506,900,fun _ _ => 1⟩

def opened : List (Frame ℚ) := List.replicate 5 (leant true 16)

def closed : List (Frame ℚ) := List.replicate 22 (leant false 48)

theorem leantPlayable (pouring : Bool) {dtMs : ℚ} (forward : 0 ≤ dtMs) (short : dtMs ≤ 48) :
    Playable 506 900 (leant pouring dtMs) where
  wide := rfl
  high := rfl
  forward := forward
  lean := by norm_num [leant]
  tier := ⟨5,rfl,fun _ => short⟩
  pow _ _ _ _ _ := ⟨zero_le_one,le_rfl⟩

theorem generated (n : ℕ) : 0 ≤ (makeRandom DEFAULT_SEED : Stream' ℚ).get n ∧
    (makeRandom DEFAULT_SEED : Stream' ℚ).get n < 1 := by
  rw [makeRandom,Stream'.corec,Stream'.get_map]
  have word := UInt32.toNat_lt (nextWord ((Stream'.iterate (fun a => (nextWord a).1) DEFAULT_SEED).get n)).2
  refine ⟨by positivity,?_⟩
  rw [div_lt_one (by norm_num)]
  exact_mod_cast word

theorem leftAlone (acts : List (Act ℚ)) (playable : ∀ f, .step f ∈ acts → Playable 506 900 f)
    (held : 0 < (metered acts).holdMs) :
    isSettled (stepRig (play closed (drive acts (createRig (TIERS 5) (makeRandom DEFAULT_SEED))))
      (leant false 16)) false = true :=
  longSettled 506 900 (by norm_num) (by norm_num) 5 (makeRandom DEFAULT_SEED) generated playable held
    (fun g mem => List.eq_of_mem_replicate mem ▸ ⟨rfl,by norm_num [leant],rfl⟩) rfl (by decide +kernel)

theorem openedFrames : ∀ f ∈ opened, Playable 506 900 f :=
  fun _ mem => List.eq_of_mem_replicate mem ▸ leantPlayable true (by norm_num) (by norm_num)

theorem closedFrames : ∀ f ∈ closed ++ [leant false 16], Playable 506 900 f := by
  intro f mem
  rcases List.mem_append.mp mem with mem | mem
  · exact List.eq_of_mem_replicate mem ▸ leantPlayable false (by norm_num) (by norm_num)
  · exact List.mem_singleton.mp mem ▸ leantPlayable false (by norm_num) (by norm_num)

theorem twoLanded :
    (play (opened ++ (closed ++ [leant false 16]))
      (createRig (TIERS 5) (makeRandom DEFAULT_SEED))).dropletsLanded =
      ⌊(tierFlow 5 : ℚ) * elapsedS opened⌋ := by
  refine heldOnce 506 900 (by norm_num) (by norm_num) 5 (makeRandom DEFAULT_SEED) generated opened
    (closed ++ [leant false 16]) (fun f mem => (List.mem_append.mp mem).elim (openedFrames f) (closedFrames f))
    (fun f mem => List.eq_of_mem_replicate mem ▸ rfl) (fun f mem => List.eq_of_mem_replicate mem ▸ rfl)
    ?shut (by norm_num [opened,leant]) ?settled
  case shut =>
    intro f mem
    rcases List.mem_append.mp mem with mem | mem
    · exact List.eq_of_mem_replicate mem ▸ rfl
    · exact List.mem_singleton.mp mem ▸ rfl
  case settled =>
    have alone := leftAlone (opened.map .step) (by simpa using openedFrames) (by decide +kernel)
    rw [driveFrames] at alone
    simpa only [play,List.foldl_append,List.foldl_cons,List.foldl_nil] using alone

def again : List (Act ℚ) := opened.map .step ++ [.reset] ++ opened.map .step

theorem againLanded :
    let acts := again ++ (closed ++ [leant false 16]).map .step
    (drive acts (createRig (TIERS 5) (makeRandom DEFAULT_SEED))).dropletsLanded = (metered acts).total := by
  intro acts
  have playable : ∀ f, .step f ∈ again → Playable 506 900 f := by
    simpa [again] using openedFrames
  refine (nothingLost 506 900 (by norm_num) (by norm_num) 5 (makeRandom DEFAULT_SEED) generated acts ?_).2.2 ?_
  · intro f mem
    rcases List.mem_append.mp mem with mem | mem
    · exact playable f mem
    · exact closedFrames f (by simpa using mem)
  · have alone := leftAlone _ playable (by decide +kernel)
    rw [← driveFrames] at alone
    simpa only [acts,drive,act,List.foldl_append,List.map_append,List.map_cons,List.map_nil,List.foldl_cons,
      List.foldl_nil] using alone

end Example
end MoltenPour.RigRing
