import MoltenPour.RigDroplets

/-! How many droplets a hold can supply. The stream carries its fraction from
frame to frame and loses it on release; a frame supplies for fifty milliseconds
at most, and the hold counts all of it up to the hard stop. -/
namespace MoltenPour.RigFlow
open NumberFormat Artifact ClientPipeline MetaballRig RigReport RigWatch RigDroplets
variable {K : Type} [Field K] [LinearOrder K] [IsStrictOrderedRing K] [FloorRing K] [SquareRoot K]

def supply (s : Rig K × Tally) : K := s.2.spawned + s.1.spawnAcc

structure Supplied (flow : K) (s : Rig K × Tally) : Prop where
  carried : 0 ≤ s.1.spawnAcc
  running : s.1.finished = false → s.1.holdMs < 15000 ∧ supply s ≤ flow * (s.1.holdMs / 1000)
  stopped : s.1.finished = true → s.1.holdMs = 15000 ∧ supply s ≤ flow * 15.05

omit [FloorRing K] in
theorem spawnSupply {f : Frame K} {total : K} {s : Rig K × Tally} (fuel : ℕ)
    (start : 0 ≤ s.1.spawnAcc ∧ supply s = total) :
    0 ≤ (tally.spawnWhile f fuel s).1.spawnAcc ∧ supply (tally.spawnWhile f fuel s) = total := by
  refine tally.spawnWhileRule (fun s => 0 ≤ s.1.spawnAcc ∧ supply s = total) ?_ fuel start
  intro s now more
  have carried : (tally.spawn f s).1.spawnAcc = s.1.spawnAcc - 1 := rfl
  have spawned : (tally.spawn f s).2.spawned = s.2.spawned + 1 := rfl
  refine ⟨carried ▸ sub_nonneg.mpr more,?_⟩
  rw [← now.2,supply,carried,spawned,supply]
  push_cast
  ring

omit [IsStrictOrderedRing K] [FloorRing K] in
theorem slotsSupply (f : Frame K) (pouring : Bool) (s : Rig K × Tally) :
    (tally.stepSlots f pouring s).1.spawnAcc = s.1.spawnAcc ∧
    (tally.stepSlots f pouring s).2.spawned = s.2.spawned := by
  refine tally.stepSlotsRule
    (fun _ t => t.1.spawnAcc = s.1.spawnAcc ∧ t.2.spawned = s.2.spawned) f pouring ?_ ?_ ⟨rfl,rfl⟩
  · intro i rest t _ now _
    refine ⟨now.1,?_⟩
    rw [← now.2]
    change (ite _ _ t.2).spawned = _
    split <;> rfl
  · exact fun _ now _ => now

theorem stepSupply {f : Frame K} {s : Rig K × Tally} (carried : 0 ≤ s.1.spawnAcc)
    (forward : 0 < f.dtMs) (flow : 0 ≤ f.tier.flow) :
    0 ≤ (tally.step s f).1.spawnAcc ∧
    (takes s.1 f = true → supply (tally.step s f) = supply s + frameS f * f.tier.flow) ∧
    (takes s.1 f = false → supply (tally.step s f) ≤ supply s) := by
  have kept : (tally.step s f).1.spawnAcc = (tally.opened s f).1.spawnAcc ∧
      (tally.step s f).2.spawned = (tally.opened s f).2.spawned := slotsSupply ..
  have same : supply (tally.step s f) = supply (tally.opened s f) := by
    rw [supply,kept.1,kept.2,supply]
  have length : 0 ≤ frameS f := frameSNonneg forward.le
  rw [kept.1,same]
  unfold Watch.opened Watch.pour
  rw [show takes (ease f s.1) f = takes s.1 f from rfl]
  by_cases opens : takes s.1 f = true
  · rw [if_pos opens]
    have more : 0 ≤ (takeStream f (ease f s.1)).spawnAcc ∧
        supply (takeStream f (ease f s.1),s.2) = supply s + frameS f * f.tier.flow :=
      ⟨add_nonneg carried (mul_nonneg length flow),(add_assoc ..).symm⟩
    obtain ⟨left,total⟩ := @spawnSupply K _ _ _ _ f _ (takeStream f (ease f s.1),s.2)
      ⌊(takeStream f (ease f s.1)).spawnAcc⌋.toNat more
    exact ⟨left,fun _ => total,fun shut => by simp [opens] at shut⟩
  · rw [if_neg opens]
    refine ⟨le_rfl,fun opened => absurd opened opens,fun _ => ?_⟩
    change (s.2.spawned : K) + 0 ≤ s.2.spawned + s.1.spawnAcc
    linarith

omit [SquareRoot K] [FloorRing K] in
theorem suppliedOpen {flow : K} {f : Frame K} {s t : Rig K × Tally} (now : Supplied flow s)
    (nonneg : 0 ≤ flow) (running : s.1.finished = false) (carried : 0 ≤ t.1.spawnAcc)
    (hold : t.1.holdMs = min (s.1.holdMs + f.dtMs) 15000)
    (finished : t.1.finished = decide (15000 ≤ t.1.holdMs))
    (added : supply t = supply s + frameS f * flow) : Supplied flow t := by
  obtain ⟨before,supplied⟩ := now.running running
  refine ⟨carried,?running,?stopped⟩
  case running =>
    intro notYet
    have early : s.1.holdMs + f.dtMs < 15000 := by
      rw [finished,hold,decide_eq_false_iff_not,not_le,min_lt_iff] at notYet
      exact notYet.resolve_right (lt_irrefl _)
    have frame : frameS f * flow ≤ flow * (f.dtMs / 1000) := by
      rw [mul_comm]
      exact mul_le_mul_of_nonneg_left
        (div_le_div_of_nonneg_right (min_le_left ..) (by norm_num)) nonneg
    rw [hold,min_eq_left early.le,added,add_div,mul_add]
    exact ⟨early,add_le_add supplied frame⟩
  case stopped =>
    intro already
    have late : 15000 ≤ s.1.holdMs + f.dtMs := by
      rw [finished,hold,decide_eq_true_iff,le_min_iff] at already
      exact already.1
    have frame := frameSMost f
    have held : s.1.holdMs / 1000 ≤ 15 := by linarith
    rw [hold,min_eq_right late,added]
    refine ⟨rfl,?_⟩
    calc supply s + frameS f * flow
        ≤ flow * 15 + flow * 0.05 := by
          rw [mul_comm (frameS f)]
          exact add_le_add (supplied.trans (mul_le_mul_of_nonneg_left held nonneg))
            (mul_le_mul_of_nonneg_left frame nonneg)
      _ = flow * 15.05 := by ring

omit [IsStrictOrderedRing K] [SquareRoot K] [FloorRing K] in
theorem suppliedShut {flow : K} {s t : Rig K × Tally} (now : Supplied flow s)
    (carried : 0 ≤ t.1.spawnAcc) (hold : t.1.holdMs = s.1.holdMs)
    (finished : t.1.finished = decide (15000 ≤ t.1.holdMs)) (lost : supply t ≤ supply s) :
    Supplied flow t := by
  refine ⟨carried,?running,?stopped⟩
  case running =>
    intro notYet
    have early : s.1.holdMs < 15000 := by
      rwa [finished,hold,decide_eq_false_iff_not,not_le] at notYet
    have running : s.1.finished = false := by
      by_contra already
      exact early.ne (now.stopped (by simpa using already)).1
    rw [hold]
    exact ⟨early,lost.trans (now.running running).2⟩
  case stopped =>
    intro already
    have late : 15000 ≤ s.1.holdMs := by
      rwa [finished,hold,decide_eq_true_iff] at already
    have stopped : s.1.finished = true := by
      by_contra running
      exact (now.running (by simpa using running)).1.not_ge late
    rw [hold]
    exact ⟨(now.stopped stopped).1,lost.trans (now.stopped stopped).2⟩

theorem suppliedStep {flow : K} {f : Frame K} {s : Rig K × Tally} (now : Supplied flow s)
    (forward : 0 < f.dtMs) (nonneg : 0 ≤ flow) (rate : f.tier.flow = flow) :
    Supplied flow (tally.step s f) := by
  obtain ⟨carried,more,less⟩ := stepSupply now.carried forward (rate ▸ nonneg)
  rw [rate] at more
  have hold := (stepClocks s.1 f).1
  have finished := stepFinished s.1 f
  have stop : ((SIM.maxPourMs : ℚ) : K) = 15000 := by norm_num [SIM.maxPourMs]
  rw [← tally.stepRigged] at hold finished
  rw [stop] at finished
  by_cases opens : takes s.1 f = true
  · have running : s.1.finished = false := by
      unfold takes at opens
      simpa using (Bool.and_eq_true_iff.mp opens).2
    rw [if_pos opens] at hold
    change (tally.step s f).1.holdMs = min (s.1.holdMs + f.dtMs) SIM.maxPourMs at hold
    rw [stop] at hold
    exact suppliedOpen now nonneg running carried hold finished (more opens)
  · rw [if_neg opens] at hold
    exact suppliedShut now carried hold finished (less (by simpa using opens))

theorem suppliedPlay {flow : K} {frames : List (Frame K)} {s : Rig K × Tally} (start : Supplied flow s)
    (forward : ∀ f ∈ frames, 0 < f.dtMs) (nonneg : 0 ≤ flow) (rate : ∀ f ∈ frames, f.tier.flow = flow) :
    Supplied flow (tally.play frames s) := by
  induction frames generalizing s with
  | nil => exact start
  | cons f rest ih =>
    have first := suppliedStep start (forward f (by simp)) nonneg (rate f (by simp))
    exact ih first (fun g mem => forward g (by simp [mem])) fun g mem => rate g (by simp [mem])

omit [SquareRoot K] in
theorem suppliedStart (flow : K) (tier : Tier K) (random : Stream' K) :
    Supplied flow (createRig tier random,nothing) := by
  constructor <;> norm_num [createRig,supply,nothing]

omit [SquareRoot K] in
theorem suppliedCeiling {flow : K} (nonneg : 0 ≤ flow) (fastest : flow ≤ 34) {s : Rig K × Tally}
    (supplied : Supplied flow s) (held : Held s.1) :
    (s.2.spawned : ℤ) ≤ ⌈flow * reportedS s.1 * 1.15⌉ := by
  -- Fifteen parts in a hundred cover the floored millisecond from the seventh on, and before
  -- the seventh no tier has spawned a droplet.
  have below : (⌊s.1.holdMs⌋ : K) ≤ s.1.holdMs := Int.floor_le _
  have above : s.1.holdMs < ⌊s.1.holdMs⌋ + 1 := Int.lt_floor_add_one _
  have spawned : (s.2.spawned : K) ≤ supply s := le_add_of_nonneg_right supplied.carried
  have within : (s.2.spawned : K) ≤ flow * reportedS s.1 * 1.15 → (s.2.spawned : ℤ) ≤
      ⌈flow * reportedS s.1 * 1.15⌉ := by
    intro le
    have up := le.trans (Int.le_ceil _)
    rw [← Int.cast_natCast] at up
    exact Int.cast_le.mp up
  unfold reportedS at within ⊢
  cases finished : s.1.finished with
  | true =>
    obtain ⟨hold,total⟩ := supplied.stopped finished
    have whole : ⌊s.1.holdMs⌋ = 15000 := by
      rw [hold]
      exact Int.floor_ofNat 15000
    refine within (spawned.trans (total.trans ?_))
    rw [whole]
    push_cast
    linarith
  | false =>
    obtain ⟨-,total⟩ := supplied.running finished
    rcases lt_or_ge ⌊s.1.holdMs⌋ 7 with short | long
    · have first : (⌊s.1.holdMs⌋ : K) ≤ 6 := by exact_mod_cast Int.lt_add_one_iff.mp short
      have none : (s.2.spawned : K) < 1 := by
        have ms : s.1.holdMs / 1000 < 7 / 1000 := by linarith
        have most : flow * (s.1.holdMs / 1000) ≤ 34 * (7 / 1000) :=
          mul_le_mul fastest ms.le (div_nonneg held.nonneg (by norm_num)) (by norm_num)
        linarith
      have zero : s.2.spawned = 0 := by exact_mod_cast Nat.lt_one_iff.mp (by exact_mod_cast none)
      rw [zero]
      exact Int.ceil_nonneg (mul_nonneg (mul_nonneg nonneg held.reportedNonneg) (by norm_num))
    · have seven : (7 : K) ≤ ⌊s.1.holdMs⌋ := by exact_mod_cast long
      have covers : s.1.holdMs / 1000 ≤ ⌊s.1.holdMs⌋ / 1000 * 1.15 := by linarith
      refine within (spawned.trans (total.trans ?_))
      rw [mul_assoc]
      exact mul_le_mul_of_nonneg_left covers nonneg

theorem tierKept (tierIndex : Fin 6) : clampTierIndex tierIndex = tierIndex := by
  fin_cases tierIndex <;> rfl

theorem flowBetween (tierIndex : Fin 6) : 0 ≤ tierFlow tierIndex ∧ tierFlow tierIndex ≤ 34 := by
  fin_cases tierIndex <;> norm_num [tierFlow]

structure Accounted (tierIndex : Fin 6) (rig : Rig K) (t : Tally) : Prop where
  once : t.counted.Nodup
  known : ∀ d ∈ t.counted, d < t.spawned
  landed : rig.dropletsLanded = t.counted.length
  spawned : rig.dropletsLanded ≤ t.spawned
  ceiling : (t.spawned : ℤ) ≤
    ⌈(tierFlow tierIndex : K) * (⌊rig.holdMs⌋ / 1000) * SIM.dropletTolerance⌉
  unlisted : ∀ wallClockMs : Num K, (telemetryOf rig).holdMs ≤ wallClockMs →
    .dropletsLanded ∉ (clampTelemetry (telemetryOf rig) tierIndex wallClockMs).violations

theorem dropletsAccounted (tierIndex : Fin 6) (random : Stream' K) (frames : List (Frame K))
    (forward : ∀ f ∈ frames, 0 < f.dtMs) (fixed : ∀ f ∈ frames, f.tier = TIERS tierIndex) :
    let last := tally.play frames (createRig (TIERS tierIndex) random,nothing)
    last.1 = play frames (createRig (TIERS tierIndex) random) ∧ Accounted tierIndex last.1 last.2 := by
  intro last
  have rigged : last.1 = play frames (createRig (TIERS tierIndex) random) := tally.playRig ..
  have tallied : Tallied last.1.blobs last.1.dropletsLanded last.2 :=
    talliedPlay frames (talliedStart ..)
  have held : Held last.1 := rigged ▸ heldPlay (heldStart ..) forward
  obtain ⟨nonneg,fastest⟩ := flowBetween tierIndex
  have supplied : Supplied (tierFlow tierIndex : K) last :=
    suppliedPlay (suppliedStart ..) forward (Rat.cast_nonneg.mpr nonneg) fun f mem => by
      rw [fixed f mem,TIERS]
  have ceiling := suppliedCeiling (Rat.cast_nonneg.mpr nonneg) (by exact_mod_cast fastest) supplied held
  have tolerance : ((SIM.dropletTolerance : ℚ) : K) = 1.15 := by norm_num [SIM.dropletTolerance]
  have landed := countedWithin tallied
  refine ⟨rigged,tallied.once,tallied.known,tallied.all.symm,landed,tolerance ▸ ceiling,?_⟩
  intro wallClockMs covered
  rw [dropletsListed held tierIndex covered,tierKept,not_lt]
  exact (Int.ofNat_le.mpr landed).trans ceiling

def openly (tierIndex : Fin 6) : Frame ℚ := ⟨⟨true,1,TIERS tierIndex⟩,100,506,900,fun _ _ => 1⟩

theorem dropletsAccountedOnce :
    let last := tally.play (List.replicate 200 (openly 5))
      (createRig (TIERS 5) (makeRandom DEFAULT_SEED),nothing)
    Accounted 5 last.1 last.2 := by
  refine (dropletsAccounted 5 (makeRandom DEFAULT_SEED) (List.replicate 200 (openly 5)) ?_ ?_).2
  · intro f mem
    rw [List.eq_of_mem_replicate mem]
    norm_num [openly]
  · intro f mem
    rw [List.eq_of_mem_replicate mem,openly]

end MoltenPour.RigFlow
