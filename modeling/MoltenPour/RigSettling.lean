import MoltenPour.RigWatch

/-! What settled means to the rig: the stream closed, a hold on the clock and
nothing in the air. From there no frame changes the telemetry. -/
namespace MoltenPour.RigSettling
open NumberFormat ClientPipeline MetaballRig RigWatch
variable {K : Type} [Field K] [LinearOrder K] [FloorRing K] [SquareRoot K]

def Grounded (rig : Rig K) : Prop := ∀ i, ¬ Aloft (rig.blobs i)

def unwatched : Watch K Unit := ⟨fun _ _ _ => (),fun _ _ _ _ => ()⟩

omit [FloorRing K] in
theorem airborneNone (f : Frame K) (pouring : Bool) (rig : Rig K) :
    (stepSlots f pouring rig).airborne = 0 ↔ Grounded rig := by
  have visited := unwatched.stepSlotsRule (s := (rig,()))
    (fun rest t => (∀ j ∈ rest, t.1.blobs j = rig.blobs j) ∧
      (t.1.airborne = 0 ↔ ∀ j, j ∉ rest → ¬ Aloft (rig.blobs j))) f pouring ?moved ?skipped ?start
  case start => exact ⟨fun _ _ => rfl,by simp [Watch.clearCounts]⟩
  case moved =>
    rintro i rest t fresh ⟨waiting,count⟩ used
    have same : t.1.blobs i = rig.blobs i := waiting i (by simp)
    refine ⟨fun j mem => ?_,?_⟩
    · have other : j ≠ i := fun here => fresh (here ▸ mem)
      exact (moveOther f pouring t.1 other).trans (waiting j (by simp [mem]))
    · have counts : (unwatched.moveSlot f pouring t i).1.airborne =
          if (t.1.blobs i).landed then t.1.airborne else t.1.airborne + 1 := rfl
      rw [counts]
      cases landed : (t.1.blobs i).landed with
      | true =>
        rw [if_pos rfl,count]
        refine ⟨fun none j out up => ?_,fun none j out => none j fun mem => out (by simp [mem])⟩
        by_cases here : j = i
        · subst here
          exact absurd up.2 (by rw [← same,landed]; decide)
        · exact none j (by simp [here,out]) up
      | false =>
        rw [if_neg Bool.false_ne_true]
        exact ⟨fun zero => absurd zero (Nat.succ_ne_zero _),
          fun none => absurd ⟨same ▸ used,same ▸ landed⟩ (none i fresh)⟩
  case skipped =>
    rintro i rest t fresh ⟨waiting,count⟩ free
    refine ⟨fun j mem => waiting j (by simp [mem]),count.trans ?_⟩
    refine ⟨fun none j out up => ?_,fun none j out => none j fun mem => out (by simp [mem])⟩
    by_cases here : j = i
    · subst here
      exact absurd up.1 (waiting j (by simp) ▸ free.not_gt)
    · exact none j (by simp [here,out]) up
  rw [unwatched.stepSlotsRig] at visited
  simpa [Grounded] using visited.2

omit [FloorRing K] in
theorem groundedSlots (f : Frame K) (pouring : Bool) {rig : Rig K} (down : Grounded rig) :
    Grounded (stepSlots f pouring rig) ∧
    (stepSlots f pouring rig).dropletsLanded = rig.dropletsLanded ∧
    (stepSlots f pouring rig).peakVelocity = rig.peakVelocity := by
  have visited := unwatched.stepSlotsRule (s := (rig,()))
    (fun _ t => Grounded t.1 ∧ t.1.dropletsLanded = rig.dropletsLanded ∧
      t.1.peakVelocity = rig.peakVelocity) f pouring ?moved (fun _ now _ => now) ⟨down,rfl,rfl⟩
  case moved =>
    rintro i rest t - ⟨down,count,peak⟩ used
    have landed : (t.1.blobs i).landed = true := by
      by_contra air
      exact down i ⟨used,by simpa using air⟩
    refine ⟨fun j up => down j (stillAloft used up).1,?_,?_⟩
    · refine (moveCounts f pouring t.1 i).trans ((if_neg fun lands => ?_).trans count)
      exact absurd lands.2 (by simp [landed])
    · refine (if_neg fun sampled => ?_).trans peak
      exact absurd sampled.1 (by simp [fall,landed])
  rw [unwatched.stepSlotsRig] at visited
  exact visited

theorem groundedStep {rig : Rig K} {f : Frame K} (down : Grounded (pour f (ease f rig))) :
    Grounded (stepRig rig f) ∧ (stepRig rig f).airborne = 0 :=
  ⟨(groundedSlots f (takes rig f) down).1,(airborneNone f (takes rig f) _).mpr down⟩

structure Still (rig : Rig K) : Prop where
  held : 0 < rig.holdMs
  grounded : Grounded rig
  airborne : rig.airborne = 0

omit [FloorRing K] [SquareRoot K] in
theorem stillSettled {rig : Rig K} (still : Still rig) : isSettled rig false = true := by
  simp [isSettled,still.held,still.airborne]

theorem settledStill {rig : Rig K} {f : Frame K} {pouring : Bool}
    (settled : isSettled (stepRig rig f) pouring = true) : pouring = false ∧ Still (stepRig rig f) := by
  simp only [isSettled,Bool.and_eq_true,Bool.not_eq_true',decide_eq_true_iff,beq_iff_eq] at settled
  obtain ⟨⟨shut,held⟩,airborne⟩ := settled
  have down := (airborneNone f (takes rig f) (pour f (ease f rig))).mp airborne
  exact ⟨shut,held,(groundedStep down).1,airborne⟩

theorem groundedSettles {rig : Rig K} {f : Frame K} (down : Grounded rig) (held : 0 < rig.holdMs)
    (shut : takes rig f = false) : Still (stepRig rig f) := by
  have hold := (stepClocks rig f).1
  rw [shut,if_neg Bool.false_ne_true] at hold
  have opened : Grounded (pour f (ease f rig)) := by
    rw [pourShut shut]
    exact down
  exact ⟨hold ▸ held,(groundedStep opened).1,(groundedStep opened).2⟩

theorem stillReport {rig : Rig K} {f : Frame K} (still : Still rig) (shut : takes rig f = false) :
    telemetryOf (stepRig rig f) = telemetryOf rig := by
  have closed := pourShut shut
  have down : Grounded (pour f (ease f rig)) := by
    rw [closed]
    exact still.grounded
  obtain ⟨-,landed,peak⟩ := groundedSlots f (takes rig f) down
  obtain ⟨hold,tilt⟩ := stepClocks rig f
  rw [shut,if_neg Bool.false_ne_true] at hold tilt
  have landed : (stepRig rig f).dropletsLanded = rig.dropletsLanded := by
    refine landed.trans ?_
    rw [closed]
    rfl
  have peak : (stepRig rig f).peakVelocity = rig.peakVelocity := by
    refine peak.trans ?_
    rw [closed]
    rfl
  rw [telemetryOf,telemetryOf,landed,peak,tilt,hold]

omit [SquareRoot K] in
theorem pourShort {rig : Rig K} {f : Frame K} (opens : takes rig f = true)
    (short : (takeStream f (ease f rig)).spawnAcc < 1) :
    pour f (ease f rig) = takeStream f (ease f rig) := by
  have nothing : ⌊(takeStream f (ease f rig)).spawnAcc⌋.toNat = 0 := by
    refine Int.toNat_of_nonpos (Int.lt_add_one_iff.mp (Int.floor_lt.mpr ?_))
    simpa using short
  refine (if_pos opens).trans ?_
  unfold stream
  simp only [nothing,spawnWhile]

end MoltenPour.RigSettling
