import MoltenPour.MetaballRig

/-! A rig watched from outside: a record kept beside it, told of every spawn and
of every slot that moves. Forgetting the record gives the rig back; what each
spawn and each move keep, a whole frame and a whole run keep. -/
namespace MoltenPour.RigWatch
open NumberFormat ClientPipeline MetaballRig
variable {K G : Type} [Field K] [LinearOrder K] [FloorRing K] [SquareRoot K]

/- Either is told the rig as it was just before. -/
structure Watch (K G : Type) where
  spawned : Frame K → Rig K → G → G
  moved : Frame K → Rig K → Fin MAX_BLOBS → G → G

namespace Watch
variable (watch : Watch K G)

def spawn (f : Frame K) (s : Rig K × G) : Rig K × G :=
  (MetaballRig.spawn f s.1,watch.spawned f s.1 s.2)

def spawnWhile (f : Frame K) : ℕ → Rig K × G → Rig K × G
  | 0,s => s
  | fuel + 1,s => if 1 ≤ s.1.spawnAcc then spawnWhile f fuel (watch.spawn f s) else s

def pour (f : Frame K) (s : Rig K × G) : Rig K × G :=
  if takes s.1 f then
    watch.spawnWhile f ⌊(takeStream f s.1).spawnAcc⌋.toNat (takeStream f s.1,s.2)
  else ({ s.1 with spawnAcc := 0 },s.2)

def moveSlot (f : Frame K) (pouring : Bool) (s : Rig K × G) (i : Fin MAX_BLOBS) : Rig K × G :=
  (MetaballRig.moveSlot f pouring s.1 i,watch.moved f s.1 i s.2)

def stepSlot (f : Frame K) (pouring : Bool) (s : Rig K × G) (i : Fin MAX_BLOBS) : Rig K × G :=
  if (s.1.blobs i).rad ≤ 0 then s else watch.moveSlot f pouring s i

def clearCounts (s : Rig K × G) : Rig K × G := ({ s.1 with alive := 0, airborne := 0 },s.2)

def stepSlots (f : Frame K) (pouring : Bool) (s : Rig K × G) : Rig K × G :=
  (List.finRange MAX_BLOBS).foldl (watch.stepSlot f pouring) (clearCounts s)

def close (s : Rig K × G) : Rig K × G :=
  ({ s.1 with finished := decide (SIM.maxPourMs ≤ s.1.holdMs) },s.2)

def opened (s : Rig K × G) (f : Frame K) : Rig K × G := watch.pour f (ease f s.1,s.2)

def step (s : Rig K × G) (f : Frame K) : Rig K × G :=
  close (watch.stepSlots f (takes s.1 f) (watch.opened s f))

def play (frames : List (Frame K)) (s : Rig K × G) : Rig K × G := frames.foldl watch.step s

theorem playNext (frames : List (Frame K)) (f : Frame K) (s : Rig K × G) :
    watch.play (frames ++ [f]) s = watch.step (watch.play frames s) f := List.foldl_append ..

omit [SquareRoot K] in
theorem openedTakes {s : Rig K × G} {f : Frame K} (opens : takes s.1 f = true) :
    watch.opened s f = watch.spawnWhile f ⌊(takeStream f (ease f s.1)).spawnAcc⌋.toNat
      (takeStream f (ease f s.1),s.2) := if_pos opens

omit [FloorRing K] [SquareRoot K] in
theorem spawnWhileRig (f : Frame K) (fuel : ℕ) (s : Rig K × G) :
    (watch.spawnWhile f fuel s).1 = MetaballRig.spawnWhile f fuel s.1 := by
  induction fuel generalizing s with
  | zero => rfl
  | succ fuel ih =>
    rw [spawnWhile,MetaballRig.spawnWhile]
    split
    · exact ih _
    · rfl

omit [SquareRoot K] in
theorem pourRig (f : Frame K) (s : Rig K × G) : (watch.pour f s).1 = MetaballRig.pour f s.1 := by
  rw [pour,MetaballRig.pour]
  split
  · exact watch.spawnWhileRig ..
  · rfl

omit [FloorRing K] in
theorem stepSlotRig (f : Frame K) (pouring : Bool) (s : Rig K × G) (i : Fin MAX_BLOBS) :
    (watch.stepSlot f pouring s i).1 = MetaballRig.stepSlot f pouring s.1 i := by
  rw [stepSlot,MetaballRig.stepSlot]
  split <;> rfl

omit [FloorRing K] in
theorem stepSlotsRig (f : Frame K) (pouring : Bool) (s : Rig K × G) :
    (watch.stepSlots f pouring s).1 = MetaballRig.stepSlots f pouring s.1 :=
  (List.foldl_hom Prod.fst fun t i => (watch.stepSlotRig f pouring t i).symm).symm

theorem stepRigged (s : Rig K × G) (f : Frame K) : (watch.step s f).1 = stepRig s.1 f := by
  unfold step stepRig close opened
  rw [watch.stepSlotsRig,watch.pourRig]

theorem playRig (frames : List (Frame K)) (s : Rig K × G) :
    (watch.play frames s).1 = MetaballRig.play frames s.1 :=
  (List.foldl_hom Prod.fst fun t f => (watch.stepRigged t f).symm).symm

omit [FloorRing K] [SquareRoot K] in
theorem spawnWhileRule (holds : Rig K × G → Prop) {f : Frame K}
    (kept : ∀ {s}, holds s → 1 ≤ s.1.spawnAcc → holds (watch.spawn f s))
    (fuel : ℕ) {s : Rig K × G} (start : holds s) : holds (watch.spawnWhile f fuel s) := by
  induction fuel generalizing s with
  | zero => exact start
  | succ fuel ih =>
    rw [spawnWhile]
    split
    · next more => exact ih (kept start more)
    · exact start

omit [FloorRing K] in
theorem stepSlotsRule (holds : List (Fin MAX_BLOBS) → Rig K × G → Prop) (f : Frame K) (pouring : Bool)
    (moved : ∀ {i rest s}, i ∉ rest → holds (i::rest) s → 0 < (s.1.blobs i).rad →
      holds rest (watch.moveSlot f pouring s i))
    (skipped : ∀ {i rest s}, i ∉ rest → holds (i::rest) s → (s.1.blobs i).rad ≤ 0 → holds rest s)
    {s : Rig K × G} (start : holds (List.finRange MAX_BLOBS) (clearCounts s)) :
    holds [] (watch.stepSlots f pouring s) := by
  unfold stepSlots
  have once := List.nodup_finRange MAX_BLOBS
  generalize List.finRange MAX_BLOBS = slots at once start
  generalize clearCounts s = t at start
  induction slots generalizing t with
  | nil => exact start
  | cons i rest ih =>
    obtain ⟨fresh,once⟩ := List.nodup_cons.mp once
    refine ih once _ ?_
    unfold stepSlot
    split
    · next free => exact skipped fresh start free
    · next used => exact moved fresh start (not_le.mp used)

omit [SquareRoot K] in
theorem openedRule (holds : (Fin MAX_BLOBS → Blob K) → ℕ → G → Prop) {f : Frame K}
    (spawned : ∀ {s : Rig K × G}, holds s.1.blobs s.1.dropletsLanded s.2 →
      holds (watch.spawn f s).1.blobs (watch.spawn f s).1.dropletsLanded (watch.spawn f s).2)
    {s : Rig K × G} (start : holds s.1.blobs s.1.dropletsLanded s.2) :
    holds (watch.opened s f).1.blobs (watch.opened s f).1.dropletsLanded (watch.opened s f).2 := by
  unfold opened pour
  split
  · exact watch.spawnWhileRule (fun s => holds s.1.blobs s.1.dropletsLanded s.2)
      (fun now _ => spawned now) _ start
  · exact start

theorem stepRule (holds : (Fin MAX_BLOBS → Blob K) → ℕ → G → Prop) {f : Frame K}
    (spawned : ∀ {s : Rig K × G}, holds s.1.blobs s.1.dropletsLanded s.2 →
      holds (watch.spawn f s).1.blobs (watch.spawn f s).1.dropletsLanded (watch.spawn f s).2)
    (moved : ∀ {s : Rig K × G} {pouring i}, holds s.1.blobs s.1.dropletsLanded s.2 →
      0 < (s.1.blobs i).rad → holds (watch.moveSlot f pouring s i).1.blobs
        (watch.moveSlot f pouring s i).1.dropletsLanded (watch.moveSlot f pouring s i).2)
    {s : Rig K × G} (start : holds s.1.blobs s.1.dropletsLanded s.2) :
    holds (watch.step s f).1.blobs (watch.step s f).1.dropletsLanded (watch.step s f).2 :=
  watch.stepSlotsRule (fun _ s => holds s.1.blobs s.1.dropletsLanded s.2) f _
    (fun _ now used => moved now used) (fun _ now _ => now) (watch.openedRule holds spawned start)

end Watch
end MoltenPour.RigWatch
