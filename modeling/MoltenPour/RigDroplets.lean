import MoltenPour.RigReport
import MoltenPour.RigWatch

/-! Droplets spawned against droplets counted. The tally numbers every droplet
as it is spawned, remembers which one each slot of the ring holds, and writes a
number down whenever the rig's own counter moves. -/
namespace MoltenPour.RigDroplets
open NumberFormat Artifact ClientPipeline MetaballRig RigReport RigWatch
variable {K : Type} [Field K] [LinearOrder K] [FloorRing K] [SquareRoot K]

structure Tally where
  occupant : Fin MAX_BLOBS → ℕ
  spawned : ℕ
  counted : List ℕ

def nothing : Tally := ⟨fun _ => 0,0,[]⟩

def tally : Watch K Tally where
  spawned _ rig t := { t with
    occupant := Function.update t.occupant rig.cursor t.spawned
    spawned := t.spawned + 1 }
  moved f rig i t :=
    if rig.dropletsLanded < (moveSlot f false rig i).dropletsLanded
    then { t with counted := t.occupant i::t.counted } else t

/- Whatever is in the air has not been counted, and no two slots hold one droplet. -/
structure Tallied (blobs : Fin MAX_BLOBS → Blob K) (landed : ℕ) (t : Tally) : Prop where
  once : t.counted.Nodup
  all : t.counted.length = landed
  known : ∀ d ∈ t.counted, d < t.spawned
  aloft : ∀ i, Aloft (blobs i) → t.occupant i < t.spawned ∧ t.occupant i ∉ t.counted
  apart : ∀ i j, Aloft (blobs i) → Aloft (blobs j) → t.occupant i = t.occupant j → i = j

omit [FloorRing K] in
theorem talliedSpawn {f : Frame K} {s : Rig K × Tally}
    (now : Tallied s.1.blobs s.1.dropletsLanded s.2) :
    Tallied (tally.spawn f s).1.blobs (tally.spawn f s).1.dropletsLanded (tally.spawn f s).2 := by
  have filled : ∀ i, i = s.1.cursor → (tally.spawn f s).2.occupant i = s.2.spawned := by
    rintro i rfl
    exact Function.update_self ..
  have kept : ∀ i, i ≠ s.1.cursor → (tally.spawn f s).2.occupant i = s.2.occupant i ∧
      (tally.spawn f s).1.blobs i = s.1.blobs i :=
    fun i other => ⟨Function.update_of_ne other ..,Function.update_of_ne other ..⟩
  have grown : (tally.spawn f s).2.spawned = s.2.spawned + 1 := rfl
  refine ⟨now.once,now.all,fun d mem => (now.known d mem).trans (Nat.lt_succ_self _),?aloft,?apart⟩
  case aloft =>
    intro i up
    by_cases here : i = s.1.cursor
    · rw [filled i here,grown]
      exact ⟨Nat.lt_succ_self _,fun mem => (now.known _ mem).false⟩
    · obtain ⟨same,blob⟩ := kept i here
      obtain ⟨old,fresh⟩ := now.aloft i (blob ▸ up)
      rw [same,grown]
      exact ⟨old.trans (Nat.lt_succ_self _),fresh⟩
  case apart =>
    intro i j upI upJ same
    by_cases hereI : i = s.1.cursor
    · by_cases hereJ : j = s.1.cursor
      · exact hereI.trans hereJ.symm
      · obtain ⟨occupant,blob⟩ := kept j hereJ
        rw [filled i hereI,occupant] at same
        exact absurd (now.aloft j (blob ▸ upJ)).1 (same ▸ lt_irrefl _)
    · obtain ⟨occupant,blob⟩ := kept i hereI
      by_cases hereJ : j = s.1.cursor
      · rw [filled j hereJ,occupant] at same
        exact absurd (now.aloft i (blob ▸ upI)).1 (same ▸ lt_irrefl _)
      · obtain ⟨occupantJ,blobJ⟩ := kept j hereJ
        rw [occupant,occupantJ] at same
        exact now.apart i j (blob ▸ upI) (blobJ ▸ upJ) same

omit [FloorRing K] in
theorem talliedMove {f : Frame K} {s : Rig K × Tally} {pouring : Bool} {i : Fin MAX_BLOBS}
    (now : Tallied s.1.blobs s.1.dropletsLanded s.2) (used : 0 < (s.1.blobs i).rad) :
    Tallied (tally.moveSlot f pouring s i).1.blobs (tally.moveSlot f pouring s i).1.dropletsLanded
      (tally.moveSlot f pouring s i).2 := by
  have next : (tally.moveSlot f pouring s i).2 =
      if lands f s.1 i then { s.2 with counted := s.2.occupant i::s.2.counted } else s.2 := by
    unfold Watch.moveSlot tally
    simp only [moveCounts]
    split <;> simp
  have count := moveCounts f pouring s.1 i
  have apart : ∀ j k, Aloft ((moveSlot f pouring s.1 i).blobs j) →
      Aloft ((moveSlot f pouring s.1 i).blobs k) → s.2.occupant j = s.2.occupant k → j = k :=
    fun j k upJ upK => now.apart j k (stillAloft used upJ).1 (stillAloft used upK).1
  rw [next]
  change Tallied (moveSlot f pouring s.1 i).blobs (moveSlot f pouring s.1 i).dropletsLanded _
  by_cases landing : lands f s.1 i
  · obtain ⟨old,fresh⟩ := now.aloft i ⟨used,landing.2⟩
    rw [count,if_pos landing,if_pos landing]
    refine ⟨List.nodup_cons.mpr ⟨fresh,now.once⟩,by simp [now.all],?known,?aloft,apart⟩
    case known =>
      intro d mem
      cases List.mem_cons.mp mem with
      | inl here => exact here ▸ old
      | inr earlier => exact now.known d earlier
    case aloft =>
      intro j up
      obtain ⟨before,other⟩ := stillAloft used up
      obtain ⟨oldJ,freshJ⟩ := now.aloft j before
      refine ⟨oldJ,fun mem => ?_⟩
      cases List.mem_cons.mp mem with
      | inl same => exact other landing (now.apart j i before ⟨used,landing.2⟩ same)
      | inr earlier => exact freshJ earlier
  · rw [count,if_neg landing,if_neg landing]
    exact ⟨now.once,now.all,now.known,fun j up => now.aloft j (stillAloft used up).1,apart⟩

theorem talliedPlay (frames : List (Frame K)) {s : Rig K × Tally}
    (start : Tallied s.1.blobs s.1.dropletsLanded s.2) :
    let last := tally.play frames s
    Tallied last.1.blobs last.1.dropletsLanded last.2 := by
  induction frames generalizing s with
  | nil => exact start
  | cons f rest ih => exact ih (tally.stepRule Tallied talliedSpawn talliedMove start)

omit [FloorRing K] [SquareRoot K] in
theorem talliedStart (tier : Tier K) (random : Stream' K) :
    Tallied (createRig tier random).blobs (createRig tier random).dropletsLanded nothing := by
  have none : ∀ i, ¬ Aloft ((createRig tier random).blobs i) := fun i up => lt_irrefl _ up.1
  exact ⟨List.nodup_nil,rfl,by simp [nothing],fun i up => absurd up (none i),
    fun i j up => absurd up (none i)⟩

omit [FloorRing K] [SquareRoot K] in
theorem countedWithin {blobs : Fin MAX_BLOBS → Blob K} {landed : ℕ} {t : Tally}
    (now : Tallied blobs landed t) : landed ≤ t.spawned := by
  have within : t.counted ⊆ List.range t.spawned := fun d mem => List.mem_range.mpr (now.known d mem)
  have fewer := (now.once.subperm within).length_le
  rwa [now.all,List.length_range] at fewer

end MoltenPour.RigDroplets
