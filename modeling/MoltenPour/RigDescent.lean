import MoltenPour.RigSettling

/-! The way down. Every droplet in the air has fallen for some time, at least as
far and as fast as gravity alone would have taken it from the spout; so none is in
the air for long, and a closed stream settles. -/
namespace MoltenPour.RigDescent
open NumberFormat ClientPipeline MetaballRig RigWatch RigSettling

structure Descent (K : Type) where
  airS : Fin MAX_BLOBS → K
  number : Fin MAX_BLOBS → ℕ
  spawned : ℕ

section Watched
variable {K : Type} [Field K] [LinearOrder K] [FloorRing K] [SquareRoot K]

def unspawned : Descent K := ⟨fun _ => 0,fun _ => 0,0⟩

def descents : Watch K (Descent K) where
  spawned _ rig d :=
    ⟨Function.update d.airS rig.cursor 0,Function.update d.number rig.cursor d.spawned,d.spawned + 1⟩
  moved f _ i d := { d with airS := Function.update d.airS i (d.airS i + frameS f) }

omit [FloorRing K] [SquareRoot K] in
theorem spawnedHere (f : Frame K) (s : Rig K × Descent K) :
    (descents.spawn f s).1.blobs s.1.cursor = droplet f s.1.feel.radius s.1.random ∧
    (descents.spawn f s).2.airS s.1.cursor = 0 ∧
    (descents.spawn f s).2.number s.1.cursor = s.2.spawned :=
  ⟨Function.update_self ..,Function.update_self ..,Function.update_self ..⟩

omit [FloorRing K] [SquareRoot K] in
theorem spawnedElse (f : Frame K) (s : Rig K × Descent K) {i : Fin MAX_BLOBS} (other : i ≠ s.1.cursor) :
    (descents.spawn f s).1.blobs i = s.1.blobs i ∧ (descents.spawn f s).2.airS i = s.2.airS i ∧
    (descents.spawn f s).2.number i = s.2.number i :=
  ⟨Function.update_of_ne other ..,Function.update_of_ne other ..,Function.update_of_ne other ..⟩

omit [FloorRing K] in
theorem slotsEach (before after : Fin MAX_BLOBS → Blob K → K → ℕ → Prop) {f : Frame K} {pouring : Bool}
    {s : Rig K × Descent K}
    (moves : ∀ i b airS number, 0 < b.rad → before i b airS number →
      after i (moved f s.1.feel b) (airS + frameS f) number)
    (stays : ∀ i b airS number, b.rad ≤ 0 → before i b airS number → after i b airS number)
    (now : ∀ i, before i (s.1.blobs i) (s.2.airS i) (s.2.number i)) (i : Fin MAX_BLOBS) :
    after i ((descents.stepSlots f pouring s).1.blobs i) ((descents.stepSlots f pouring s).2.airS i)
      ((descents.stepSlots f pouring s).2.number i) := by
  -- A frame moves every slot in use once; what one move makes of a slot and of what is written
  -- beside it, the frame makes of them all.
  have visited := descents.stepSlotsRule (s := s) (fun rest t => t.1.feel = s.1.feel ∧ ∀ j,
      (j ∈ rest → before j (t.1.blobs j) (t.2.airS j) (t.2.number j)) ∧
      (j ∉ rest → after j (t.1.blobs j) (t.2.airS j) (t.2.number j))) f pouring ?moved ?skipped ?start
  case start => exact ⟨rfl,fun j => ⟨fun _ => now j,fun out => absurd (List.mem_finRange j) out⟩⟩
  case moved =>
    rintro i rest t fresh ⟨feel,each⟩ used
    refine ⟨feel,fun j => ?_⟩
    by_cases here : j = i
    · subst here
      have blob : (descents.moveSlot f pouring t j).1.blobs j = moved f s.1.feel (t.1.blobs j) :=
        feel ▸ moveSelf ..
      have age : (descents.moveSlot f pouring t j).2.airS j = t.2.airS j + frameS f :=
        Function.update_self ..
      rw [blob,age]
      exact ⟨fun mem => absurd mem fresh,fun _ => moves j _ _ _ used ((each j).1 (by simp))⟩
    · have blob : (descents.moveSlot f pouring t i).1.blobs j = t.1.blobs j := moveOther _ _ _ here
      have age : (descents.moveSlot f pouring t i).2.airS j = t.2.airS j :=
        Function.update_of_ne here ..
      rw [blob,age]
      exact ⟨fun mem => (each j).1 (by simp [mem]),fun out => (each j).2 (by simp [here,out])⟩
  case skipped =>
    rintro i rest t fresh ⟨feel,each⟩ free
    refine ⟨feel,fun j => ⟨fun mem => (each j).1 (by simp [mem]),fun out => ?_⟩⟩
    by_cases here : j = i
    · subst here
      exact stays j _ _ _ free ((each j).1 (by simp))
    · exact (each j).2 (by simp [here,out])
  exact (visited.2 i).2 (by simp)

omit [FloorRing K] [SquareRoot K] in
theorem aloftAbove {f : Frame K} {feel : TierFeel K} {b : Blob K} (up : Aloft (moved f feel b)) :
    ¬ onFloor f (fall f feel b) := by
  intro floor
  have air := up.2
  unfold moved at air
  simp only [if_pos floor] at air
  split at air <;> simp [bounce] at air

omit [FloorRing K] [SquareRoot K] in
theorem aloftBefore {f : Frame K} {feel : TierFeel K} {b : Blob K} (used : 0 < b.rad)
    (up : Aloft (moved f feel b)) : Aloft b := by
  have air := up.2
  rw [aloftFell up] at air
  exact ⟨used,air⟩

end Watched

section Exact
variable {K : Type} [Field K] [LinearOrder K] [IsStrictOrderedRing K] [FloorRing K] [SquareRoot K]

structure Falling (height : K) (b : Blob K) (airS : K) : Prop where
  nonneg : 0 ≤ airS
  faster : 1400 * airS * (height / 900) ≤ b.vy
  lower : height * 0.2 + 700 * airS ^ 2 * (height / 900) ≤ b.y
  above : b.y ≤ height * 0.82

omit [FloorRing K] [SquareRoot K] in
theorem Falling.short {height airS : K} {b : Blob K} (positive : 0 < height)
    (falling : Falling height b airS) : airS < 0.893 := by
  have room : 700 * airS ^ 2 * (height / 900) ≤ 558 * (height / 900) := by
    linarith [falling.lower.trans falling.above]
  have brief : 700 * airS ^ 2 ≤ 558 := le_of_mul_le_mul_right room (by positivity)
  refine lt_of_pow_lt_pow_left₀ 2 (by norm_num) ?_
  norm_num
  linarith

omit [LinearOrder K] [IsStrictOrderedRing K] [FloorRing K] [SquareRoot K] in
theorem stageScaled {height : K} {f : Frame K} (sized : f.height = height) : scale f = height / 900 := by
  rw [scale,sized]
  norm_num [SIM_HEIGHT]

omit [FloorRing K] [SquareRoot K] in
theorem floorBelow {height : K} {f : Frame K} (sized : f.height = height) (b : Blob K) :
    ¬ onFloor f b ↔ b.y ≤ height * 0.82 := by
  have line : ((FLOOR_Y : ℚ) : K) = 0.82 := by norm_num [FLOOR_Y]
  rw [onFloor,not_lt,sized,line]

omit [FloorRing K] [SquareRoot K] in
theorem dropletFalling {height : K} (positive : 0 < height) {f : Frame K} (sized : f.height = height)
    (radius : K) {random : Stream' K} (draws : ∀ n, 0 ≤ random.get n) :
    Falling height (droplet f radius random) 0 := by
  have line : ((SPOUT_Y : ℚ) : K) = 0.2 := by norm_num [SPOUT_Y]
  have down : 0 ≤ (droplet f radius random).vy := by
    simp only [droplet]
    rw [stageScaled sized]
    have most : (0 : K) ≤ SIM.spawnVyMax := by norm_num [SIM.spawnVyMax]
    exact mul_nonneg (mul_nonneg (draws 2) most) (by positivity)
  have spout : (droplet f radius random).y = height * 0.2 := by
    simp only [droplet]
    rw [sized,line]
  refine ⟨le_rfl,by simpa using down,by simp [spout],?_⟩
  rw [spout]
  linarith

omit [FloorRing K] [SquareRoot K] in
theorem fallFalling {height airS : K} (positive : 0 < height) {f : Frame K} (sized : f.height = height)
    (forward : 0 ≤ f.dtMs) (feel : TierFeel K) {b : Blob K} (falling : Falling height b airS)
    (above : ¬ onFloor f (fall f feel b)) : Falling height (fall f feel b) (airS + frameS f) := by
  have dt : 0 ≤ frameS f := frameSNonneg forward
  have stage : 0 < height / 900 := by positivity
  have speed : (fall f feel b).vy = b.vy + 1400 * (height / 900) * frameS f := by
    have pull : ((SIM.gravity : ℚ) : K) = 1400 := by norm_num [SIM.gravity]
    simp only [fall]
    rw [stageScaled sized,pull]
  have place : (fall f feel b).y = b.y + (fall f feel b).vy * frameS f := rfl
  have faster : 1400 * (airS + frameS f) * (height / 900) ≤ (fall f feel b).vy := by
    rw [speed]
    linarith [falling.faster]
  refine ⟨add_nonneg falling.nonneg dt,faster,?_,(floorBelow sized _).mp above⟩
  have further := mul_le_mul_of_nonneg_right faster dt
  have more : 0 ≤ 700 * (frameS f) ^ 2 * (height / 900) := by positivity
  rw [place]
  calc height * 0.2 + 700 * (airS + frameS f) ^ 2 * (height / 900)
      ≤ height * 0.2 + 700 * airS ^ 2 * (height / 900) +
          1400 * (airS + frameS f) * (height / 900) * frameS f := by linarith
    _ ≤ b.y + (fall f feel b).vy * frameS f := add_le_add falling.lower further

def Descending (height : K) (s : Rig K × Descent K) : Prop :=
  ∀ i, Aloft (s.1.blobs i) → Falling height (s.1.blobs i) (s.2.airS i)

def Aged (airS : K) (s : Rig K × Descent K) : Prop := ∀ i, Aloft (s.1.blobs i) → airS ≤ s.2.airS i

section Stage
variable {height : K} (positive : 0 < height) {f : Frame K} (sized : f.height = height)
include positive sized

omit [FloorRing K] [SquareRoot K] in
theorem descendingSpawn {s : Rig K × Descent K} (draws : ∀ n, 0 ≤ s.1.random.get n)
    (now : Descending height s) : Descending height (descents.spawn f s) := by
  intro i up
  by_cases here : i = s.1.cursor
  · subst here
    obtain ⟨blob,age,-⟩ := spawnedHere f s
    rw [blob,age]
    exact dropletFalling positive sized _ draws
  · obtain ⟨blob,age,-⟩ := spawnedElse f s here
    rw [blob] at up ⊢
    rw [age]
    exact now i up

theorem descendingStep (forward : 0 ≤ f.dtMs) {s : Rig K × Descent K}
    (draws : ∀ n, 0 ≤ s.1.random.get n) (now : Descending height s) :
    (∀ n, 0 ≤ (descents.step s f).1.random.get n) ∧ Descending height (descents.step s f) := by
  have opened : (∀ n, 0 ≤ (descents.opened s f).1.random.get n) ∧
      Descending height (descents.opened s f) := by
    unfold Watch.opened Watch.pour
    split
    · refine descents.spawnWhileRule (fun t => (∀ n, 0 ≤ t.1.random.get n) ∧ Descending height t)
        (fun {t} both _ => ?_) _ ⟨draws,now⟩
      exact ⟨fun n => both.1 _,descendingSpawn positive sized both.1 both.2⟩
    · exact ⟨draws,now⟩
  have random : (descents.step s f).1.random = (descents.opened s f).1.random :=
    descents.stepSlotsRule (fun _ t => t.1.random = (descents.opened s f).1.random) f _
      (fun _ same _ => same) (fun _ same _ => same) rfl
  refine ⟨random ▸ opened.1,?_⟩
  refine slotsEach (fun _ b airS _ => Aloft b → Falling height b airS)
    (fun _ b airS _ => Aloft b → Falling height b airS) ?_ (fun _ _ _ _ _ falling => falling) opened.2
  intro i b airS number used falling up
  have fell := fallFalling positive sized forward (descents.opened s f).1.feel
    (falling (aloftBefore used up)) (aloftAbove up)
  rwa [aloftFell up]

end Stage

theorem agedShut {airS : K} {f : Frame K} {s : Rig K × Descent K} (shut : takes s.1 f = false)
    (aged : Aged airS s) : Aged (airS + frameS f) (descents.step s f) := by
  have opened : Aged airS (descents.opened s f) := by
    unfold Watch.opened Watch.pour
    rw [show takes (ease f s.1) f = false from shut,if_neg Bool.false_ne_true]
    exact aged
  refine slotsEach (fun _ b age _ => Aloft b → airS ≤ age)
    (fun _ b age _ => Aloft b → airS + frameS f ≤ age) ?_ ?_ opened
  · exact fun i b age number used long up => add_le_add_left (long (aloftBefore used up)) _
  · exact fun i b age number free long up => absurd up.1 free.not_gt

omit [FloorRing K] [SquareRoot K] in
theorem agedGrounded {height airS : K} (positive : 0 < height) {s : Rig K × Descent K}
    (now : Descending height s) (aged : Aged airS s) (long : 0.893 ≤ airS) : Grounded s.1 := by
  intro i up
  exact ((long.trans (aged i up)).trans_lt ((now i up).short positive)).false

omit [FloorRing K] [SquareRoot K] [IsStrictOrderedRing K] in
theorem groundedDescending {height : K} {s : Rig K × Descent K} (down : Grounded s.1) : Descending height s :=
  fun i up => absurd up (down i)

omit [FloorRing K] [SquareRoot K] [IsStrictOrderedRing K] in
theorem emptyGrounded (tier : Tier K) (random : Stream' K) : Grounded (createRig tier random) :=
  fun _ up => lt_irrefl _ up.1

omit [FloorRing K] [SquareRoot K] [IsStrictOrderedRing K] in
theorem Descending.aged {height : K} {s : Rig K × Descent K} (now : Descending height s) : Aged 0 s :=
  fun i up => (now i up).nonneg

def elapsedS (frames : List (Frame K)) : K := (frames.map frameS).sum

theorem shutSettles {height : K} (positive : 0 < height) {rig : Rig K} {d : Descent K}
    (draws : ∀ n, 0 ≤ rig.random.get n) (now : Descending height (rig,d)) (held : 0 < rig.holdMs)
    {frames : List (Frame K)} {f : Frame K}
    (sized : ∀ g ∈ frames, g.height = height ∧ 0 ≤ g.dtMs ∧ g.pouring = false) (shut : f.pouring = false)
    (long : 0.893 ≤ elapsedS frames) : Still (stepRig (play frames rig) f) := by
  suffices sunk : ∀ (airS : K) (rig : Rig K) (d : Descent K), (∀ n, 0 ≤ rig.random.get n) →
      Descending height (rig,d) → Aged airS (rig,d) → 0 < rig.holdMs → 0.893 ≤ airS + elapsedS frames →
      Still (stepRig (play frames rig) f) from sunk 0 rig d draws now now.aged held (by simpa using long)
  clear draws now held long
  induction frames with
  | nil =>
    intro airS rig d _ now aged held long
    refine groundedSettles (agedGrounded positive now aged (by simpa [elapsedS] using long)) held ?_
    simp [takes,shut]
  | cons g rest ih =>
    intro airS rig d draws now aged held long
    obtain ⟨size,forward,closed⟩ := sized g (by simp)
    have shut : takes rig g = false := by simp [takes,closed]
    have hold := (stepClocks rig g).1
    rw [shut,if_neg Bool.false_ne_true] at hold
    have same : (descents.step (rig,d) g).1 = stepRig rig g := descents.stepRigged ..
    obtain ⟨draws,next⟩ := descendingStep positive size forward (s := (rig,d)) draws now
    have older := agedShut (s := (rig,d)) shut aged
    refine ih (fun g mem => sized g (by simp [mem])) (airS + frameS g) (stepRig rig g)
      (descents.step (rig,d) g).2 (same ▸ draws) (fun i up => same ▸ next i (same ▸ up))
      (fun i up => older i (same ▸ up)) (hold ▸ held) ?_
    simpa [elapsedS,add_assoc] using long

end Exact
end MoltenPour.RigDescent
