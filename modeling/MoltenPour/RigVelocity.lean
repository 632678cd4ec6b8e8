import Mathlib.Analysis.SpecialFunctions.Pow.Real
import MoltenPour.RigFlow

/-! The peak velocity against its ceiling. A droplet's speed goes with its time
in the air, the ceiling with the time the stream was open; the flights kept
beside the rig say when the first outruns the second. -/
namespace MoltenPour.RigVelocity
open NumberFormat Artifact ClientPipeline MetaballRig RigReport RigWatch

/- A droplet's flight in sim units: its sideways speed as the drag has left it,
its speed down at the spout, and the seconds it has been falling. -/
structure Flight (K : Type) where
  side : K
  down : K
  airS : K

section Exact
variable {K : Type} [Field K] [LinearOrder K] [FloorRing K] [SquareRoot K]

def launch (f : Frame K) (random : Stream' K) : Flight K :=
  ⟨(random.get 1 - 0.5) * 2 * SIM.spawnVxMax + f.lean * SIM.spawnVxMax,
    random.get 2 * SIM.spawnVyMax,0⟩

def Flight.on (f : Frame K) (feel : TierFeel K) (g : Flight K) : Flight K :=
  ⟨g.side * drag f feel,g.down,g.airS + frameS f⟩

def Flight.vy (g : Flight K) : K := g.down + SIM.gravity * g.airS

def Flight.speedSquared (g : Flight K) : K := g.side * g.side + g.vy * g.vy

def flights : Watch K (Fin MAX_BLOBS → Flight K) where
  spawned f rig g := Function.update g rig.cursor (launch f rig.random)
  moved f rig i g := Function.update g i ((g i).on f rig.feel)

def grounded : Fin MAX_BLOBS → Flight K := fun _ => ⟨0,0,0⟩

def Flying (stage : K) (blobs : Fin MAX_BLOBS → Blob K) (g : Fin MAX_BLOBS → Flight K) : Prop :=
  ∀ i, Aloft (blobs i) → (blobs i).vx = (g i).side * stage ∧ (blobs i).vy = (g i).vy * stage

omit [FloorRing K] [SquareRoot K] in
theorem launched (f : Frame K) (s : Rig K × (Fin MAX_BLOBS → Flight K)) :
    (flights.spawn f s).1.blobs s.1.cursor = droplet f s.1.feel.radius s.1.random ∧
    (flights.spawn f s).2 s.1.cursor = launch f s.1.random :=
  ⟨Function.update_self ..,Function.update_self ..⟩

omit [FloorRing K] [SquareRoot K] in
theorem flyingSpawn {stage : K} {f : Frame K} (sized : scale f = stage)
    {s : Rig K × (Fin MAX_BLOBS → Flight K)} (now : Flying stage s.1.blobs s.2) :
    Flying stage (flights.spawn f s).1.blobs (flights.spawn f s).2 := by
  intro i up
  by_cases here : i = s.1.cursor
  · subst here
    obtain ⟨blob,flight⟩ := launched f s
    rw [blob,flight,← sized]
    refine ⟨rfl,?_⟩
    simp only [droplet,launch,Flight.vy]
    ring
  · have blob : (flights.spawn f s).1.blobs i = s.1.blobs i := Function.update_of_ne here ..
    have flight : (flights.spawn f s).2 i = s.2 i := Function.update_of_ne here ..
    rw [blob] at up ⊢
    rw [flight]
    exact now i up

omit [FloorRing K] [SquareRoot K] in
theorem flyingFall {stage : K} {f : Frame K} (sized : scale f = stage) (feel : TierFeel K) {b : Blob K}
    {g : Flight K} (now : b.vx = g.side * stage ∧ b.vy = g.vy * stage) :
    (fall f feel b).vx = (g.on f feel).side * stage ∧ (fall f feel b).vy = (g.on f feel).vy * stage := by
  simp only [fall,Flight.on,Flight.vy] at now ⊢
  rw [now.1,now.2,sized]
  constructor <;> ring

omit [FloorRing K] in
theorem flyingMove {stage : K} {f : Frame K} (sized : scale f = stage) {pouring : Bool}
    {i : Fin MAX_BLOBS} {s : Rig K × (Fin MAX_BLOBS → Flight K)} (now : Flying stage s.1.blobs s.2)
    (used : 0 < (s.1.blobs i).rad) :
    Flying stage (flights.moveSlot f pouring s i).1.blobs (flights.moveSlot f pouring s i).2 := by
  intro j up
  have before := (stillAloft used up).1
  by_cases here : j = i
  · subst here
    have blob : (flights.moveSlot f pouring s j).1.blobs j = moved f s.1.feel (s.1.blobs j) :=
      moveSelf ..
    have flight : (flights.moveSlot f pouring s j).2 j = (s.2 j).on f s.1.feel :=
      Function.update_self ..
    rw [blob] at up ⊢
    rw [aloftFell up,flight]
    exact flyingFall sized s.1.feel (now j before)
  · have blob : (flights.moveSlot f pouring s i).1.blobs j = s.1.blobs j := moveOther _ _ _ here
    have flight : (flights.moveSlot f pouring s i).2 j = s.2 j := Function.update_of_ne here ..
    rw [blob,flight]
    exact now j before

theorem flyingPlay {stage : K} {frames : List (Frame K)} (sized : ∀ f ∈ frames, scale f = stage)
    {s : Rig K × (Fin MAX_BLOBS → Flight K)} (start : Flying stage s.1.blobs s.2) :
    Flying stage (flights.play frames s).1.blobs (flights.play frames s).2 := by
  induction frames generalizing s with
  | nil => exact start
  | cons f rest ih =>
    have first := flights.stepRule (fun blobs _ g => Flying stage blobs g)
      (flyingSpawn (sized f (by simp))) (flyingMove (sized f (by simp))) start
    exact ih (fun g mem => sized g (by simp [mem])) first

omit [FloorRing K] in
theorem movePeak (f : Frame K) (pouring : Bool) (rig : Rig K) (i : Fin MAX_BLOBS) (c : K) :
    (moveSlot f pouring rig i).peakVelocity ≤ c ↔ rig.peakVelocity ≤ c ∧
      (pouring = true → (rig.blobs i).landed = false → speed f (fall f rig.feel (rig.blobs i)) ≤ c) := by
  have peak : (moveSlot f pouring rig i).peakVelocity =
      if (rig.blobs i).landed = false ∧ pouring = true ∧
        rig.peakVelocity < speed f (fall f rig.feel (rig.blobs i))
      then speed f (fall f rig.feel (rig.blobs i)) else rig.peakVelocity := rfl
  rw [peak]
  split
  · next sampled =>
    obtain ⟨air,opened,higher⟩ := sampled
    exact ⟨fun le => ⟨higher.le.trans le,fun _ _ => le⟩,fun both => both.2 opened air⟩
  · next kept =>
    refine ⟨fun le => ⟨le,fun opened air => ?_⟩,fun both => both.1⟩
    exact (not_lt.mp fun higher => kept ⟨air,opened,higher⟩).trans le

omit [FloorRing K] in
theorem slotsPeak (f : Frame K) (pouring : Bool) (rig : Rig K) (c : K) :
    (stepSlots f pouring rig).peakVelocity ≤ c ↔ rig.peakVelocity ≤ c ∧
      (pouring = true → ∀ i, Aloft (rig.blobs i) → speed f (fall f rig.feel (rig.blobs i)) ≤ c) := by
  have visited := flights.stepSlotsRule (s := (rig,grounded))
    (fun rest t => t.1.feel = rig.feel ∧ (∀ j ∈ rest, t.1.blobs j = rig.blobs j) ∧
      (t.1.peakVelocity ≤ c ↔ rig.peakVelocity ≤ c ∧ (pouring = true → ∀ j, j ∉ rest →
        Aloft (rig.blobs j) → speed f (fall f rig.feel (rig.blobs j)) ≤ c))) f pouring ?moved ?skipped ?start
  case start => exact ⟨rfl,fun _ _ => rfl,by simp [Watch.clearCounts]⟩
  case moved =>
    rintro i rest t fresh ⟨feel,waiting,peak⟩ used
    have blob := waiting i (by simp)
    refine ⟨feel,?_,?_⟩
    · intro j mem
      have other : j ≠ i := fun same => fresh (same ▸ mem)
      exact (moveOther f pouring t.1 other).trans (waiting j (by simp [mem]))
    · have same : t.1.blobs i = rig.blobs i := blob
      refine (movePeak f pouring t.1 i c).trans ?_
      rw [peak,feel,same,and_assoc]
      refine and_congr_right fun _ => ?_
      constructor
      · rintro ⟨earlier,here⟩ opened j out up
        by_cases now : j = i
        · exact now ▸ here opened (now ▸ up.2)
        · exact earlier opened j (by simp [now,out]) up
      · intro all
        refine ⟨fun opened j out up => all opened j (fun mem => out (by simp [mem])) up,?_⟩
        exact fun opened air => all opened i fresh ⟨same ▸ used,air⟩
  case skipped =>
    rintro i rest t fresh ⟨feel,waiting,peak⟩ free
    have blob := waiting i (by simp)
    refine ⟨feel,fun j mem => waiting j (by simp [mem]),peak.trans ?_⟩
    refine and_congr_right fun _ => imp_congr_right fun _ => ?_
    constructor
    · intro bound j out up
      by_cases here : j = i
      · subst here
        exact absurd up.1 (blob ▸ free.not_gt)
      · exact bound j (by simp [here,out]) up
    · exact fun bound j out up => bound j (fun mem => out (by simp [mem])) up
  rw [flights.stepSlotsRig] at visited
  simpa using visited.2.2

omit [FloorRing K] in
theorem slotsMoved (f : Frame K) (pouring : Bool) (s : Rig K × (Fin MAX_BLOBS → Flight K))
    {i : Fin MAX_BLOBS} (used : 0 < (s.1.blobs i).rad) :
    (flights.stepSlots f pouring s).1.blobs i = moved f s.1.feel (s.1.blobs i) ∧
    (flights.stepSlots f pouring s).2 i = (s.2 i).on f s.1.feel := by
  have visited := flights.stepSlotsRule (s := s) (fun rest t => t.1.feel = s.1.feel ∧
      (i ∈ rest → t.1.blobs i = s.1.blobs i ∧ t.2 i = s.2 i) ∧
      (i ∉ rest → t.1.blobs i = moved f s.1.feel (s.1.blobs i) ∧ t.2 i = (s.2 i).on f s.1.feel))
    f pouring ?moved ?skipped ?start
  case start => exact ⟨rfl,fun _ => ⟨rfl,rfl⟩,fun out => absurd (List.mem_finRange i) out⟩
  case moved =>
    rintro j rest t fresh ⟨feel,waiting,done⟩ -
    by_cases here : i = j
    · subst here
      obtain ⟨blob,flight⟩ := waiting (by simp)
      refine ⟨feel,fun mem => absurd mem fresh,fun _ => ⟨?_,?_⟩⟩
      · rw [← feel,← blob]
        exact moveSelf f pouring t.1 i
      · rw [← feel,← flight]
        exact Function.update_self ..
    · have blob : (flights.moveSlot f pouring t j).1.blobs i = t.1.blobs i := moveOther _ _ _ here
      have flight : (flights.moveSlot f pouring t j).2 i = t.2 i := Function.update_of_ne here ..
      rw [blob,flight]
      exact ⟨feel,fun mem => waiting (by simp [mem]),fun out => done (by simp [here,out])⟩
  case skipped =>
    rintro j rest t fresh ⟨feel,waiting,done⟩ free
    have other : i ≠ j := by
      rintro rfl
      exact absurd used ((waiting (by simp)).1 ▸ free.not_gt)
    exact ⟨feel,fun mem => waiting (by simp [mem]),fun out => done (by simp [other,out])⟩
  exact visited.2.2 (by simp)

omit [SquareRoot K] in
theorem pourPeak (f : Frame K) (rig : Rig K) : (pour f rig).peakVelocity = rig.peakVelocity := by
  unfold pour
  split
  · exact spawnWhileKeeps Rig.peakVelocity (fun _ => rfl) ..
  · rfl

theorem stepPeak (s : Rig K × (Fin MAX_BLOBS → Flight K)) (f : Frame K) (c : K) :
    (flights.step s f).1.peakVelocity ≤ c ↔ s.1.peakVelocity ≤ c ∧ (takes s.1 f = true →
      ∀ i, Aloft ((flights.opened s f).1.blobs i) →
        speed f (fall f (flights.opened s f).1.feel ((flights.opened s f).1.blobs i)) ≤ c) := by
  have opened : (flights.opened s f).1 = pour f (ease f s.1) := flights.pourRig ..
  rw [flights.stepRigged,opened]
  refine (slotsPeak f (takes s.1 f) (pour f (ease f s.1)) c).trans ?_
  rw [pourPeak]
  rfl

end Exact

noncomputable section
instance : SquareRoot ℝ := ⟨Real.sqrt,fun _ => Real.sqrt_nonneg _⟩

def ceilingSquared (h : ℝ) : ℝ := 1.21 * ((120 + 1400 * min h 1.2) ^ 2 + 45 ^ 2)

theorem ceilingRoot (h : ℝ) : ServerPipeline.speedCeiling h = √(ceilingSquared h) := by
  have reach : ServerPipeline.maxFall h = 120 + 1400 * min h 1.2 := by
    change ((ServerPipeline.simSpawnVyMax : ℚ) : ℝ) + (ServerPipeline.simGravity : ℚ) *
      min h ((1.2 : ℚ) : ℝ) = _
    norm_num [ServerPipeline.simSpawnVyMax,ServerPipeline.simGravity]
  have square : ServerPipeline.fallSquared h = (120 + 1400 * min h 1.2) ^ 2 + 45 ^ 2 := by
    change ServerPipeline.maxFall h * ServerPipeline.maxFall h +
      ((ServerPipeline.simSpawnVxMax * ServerPipeline.simSpawnVxMax : ℚ) : ℝ) = _
    rw [reach,sq (120 + 1400 * min h 1.2)]
    norm_num [ServerPipeline.simSpawnVxMax]
  have tolerance : ((1.1 : ℚ) : ℝ) = √1.21 := by
    rw [show (1.21 : ℝ) = 1.1 ^ 2 by norm_num,Real.sqrt_sq (by norm_num)]
    norm_num
  change √(ServerPipeline.fallSquared h) * ((1.1 : ℚ) : ℝ) = _
  rw [square,tolerance,ceilingSquared,Real.sqrt_mul (by norm_num),mul_comm]

theorem ceilingSquaredMono {h k : ℝ} (nonneg : 0 ≤ h) (le : h ≤ k) : ceilingSquared h ≤ ceilingSquared k := by
  unfold ceilingSquared
  have reach : 0 ≤ min h (1.2 : ℝ) := le_min nonneg (by norm_num)
  gcongr

theorem speedRoot {stage : ℝ} (positive : 0 < stage) {f : Frame ℝ} (sized : scale f = stage) {b : Blob ℝ}
    {g : Flight ℝ} (flying : b.vx = g.side * stage ∧ b.vy = g.vy * stage) :
    speed f b = √g.speedSquared := by
  have square : b.vx * b.vx + b.vy * b.vy = g.speedSquared * stage ^ 2 := by
    rw [flying.1,flying.2,Flight.speedSquared]
    ring
  change √(b.vx * b.vx + b.vy * b.vy) / scale f = _
  rw [square,sized,Real.sqrt_mul' _ (sq_nonneg stage),Real.sqrt_sq positive.le,
    mul_div_cancel_right₀ _ positive.ne']

/- In an open frame, no droplet in the air flies faster than the hold, this
frame added and floored, allows. -/
def Fits (s : Rig ℝ × (Fin MAX_BLOBS → Flight ℝ)) (f : Frame ℝ) : Prop :=
  takes s.1 f = true → ∀ i, Aloft ((flights.opened s f).1.blobs i) →
    (((flights.opened s f).2 i).on f (flights.opened s f).1.feel).speedSquared ≤
      ceilingSquared (⌊min (s.1.holdMs + f.dtMs) 15000⌋ / 1000)

theorem fitsStep {stage : ℝ} (positive : 0 < stage) {f : Frame ℝ} (sized : scale f = stage)
    {s : Rig ℝ × (Fin MAX_BLOBS → Flight ℝ)} (flying : Flying stage s.1.blobs s.2) :
    (flights.step s f).1.peakVelocity ≤ ServerPipeline.speedCeiling (reportedS (flights.step s f).1) ↔
      s.1.peakVelocity ≤ ServerPipeline.speedCeiling (reportedS (flights.step s f).1) ∧ Fits s f := by
  have aloft := flights.openedRule (fun blobs _ g => Flying stage blobs g) (flyingSpawn sized) flying
  rw [stepPeak]
  refine and_congr_right fun _ => forall_congr' fun opens => forall₂_congr fun i up => ?_
  have hold : (flights.step s f).1.holdMs = min (s.1.holdMs + f.dtMs) 15000 := by
    rw [flights.stepRigged,(stepClocks s.1 f).1,if_pos opens]
    change min (s.1.holdMs + f.dtMs) ((SIM.maxPourMs : ℚ) : ℝ) = _
    norm_num [SIM.maxPourMs]
  rw [speedRoot positive sized (flyingFall sized _ (aloft i up)),ceilingRoot,reportedS,hold,
    Real.sqrt_le_sqrt_iff]
  unfold ceilingSquared
  positivity

structure Legal (tierIndex : Fin 6) (rig : Rig ℝ) : Prop where
  within : .fin rig.peakVelocity ≤
    (telemetryCeilings (K := ℝ) tierIndex (.fin (⌊rig.holdMs⌋ / 1000))).maxSpeed
  unlisted : ∀ wallClockMs : Num ℝ, (telemetryOf rig).holdMs ≤ wallClockMs →
    .peakVelocity ∉ (clampTelemetry (telemetryOf rig) tierIndex wallClockMs).violations

theorem legalIff (tierIndex : Fin 6) {rig : Rig ℝ} (held : Held rig) :
    Legal tierIndex rig ↔ rig.peakVelocity ≤ ServerPipeline.speedCeiling (reportedS rig) := by
  have ceiling : (telemetryCeilings (K := ℝ) tierIndex (.fin (⌊rig.holdMs⌋ / 1000))).maxSpeed =
      .fin (ServerPipeline.speedCeiling (reportedS rig)) := by
    rw [ClampAgreement.ceilingsAgree ClampAgreement.squaresAlike]
    exact congrArg Ceilings.maxSpeed (ServerPipeline.ceilingsFin tierIndex held.reportedNonneg)
  constructor
  · intro legal
    have within := legal.within
    rwa [ceiling,Num.leFin] at within
  · intro under
    refine ⟨ceiling ▸ (Num.leFin ..).mpr under,fun wallClockMs covered => ?_⟩
    rw [velocityListed held tierIndex covered,not_lt]
    exact under

theorem velocityIff (tierIndex : Fin 6) (random : Stream' ℝ) (height : ℝ) (positive : 0 < height)
    (frames : List (Frame ℝ)) (forward : ∀ f ∈ frames, 0 < f.dtMs)
    (fixed : ∀ f ∈ frames, f.height = height) :
    (∀ seen rest, frames = seen ++ rest →
      Legal tierIndex (play seen (createRig (TIERS tierIndex) random))) ↔
    ∀ seen f rest, frames = seen ++ f::rest →
      Fits (flights.play seen (createRig (TIERS tierIndex) random,grounded)) f := by
  have stage : 0 < height / (SIM_HEIGHT : ℝ) := div_pos positive (by norm_num [SIM_HEIGHT])
  have step : ∀ seen f rest, frames = seen ++ f::rest →
      let s := flights.play seen (createRig (TIERS tierIndex) random,grounded)
      Held s.1 ∧ Held (flights.step s f).1 ∧ reportedS s.1 ≤ reportedS (flights.step s f).1 ∧
      ((flights.step s f).1.peakVelocity ≤ ServerPipeline.speedCeiling (reportedS (flights.step s f).1) ↔
        s.1.peakVelocity ≤ ServerPipeline.speedCeiling (reportedS (flights.step s f).1) ∧ Fits s f) := by
    intro seen f rest whole s
    subst whole
    have held : Held s.1 := by
      rw [flights.playRig]
      exact heldPlay (heldStart ..) fun g mem => forward g (by simp [mem])
    have flying : Flying (height / SIM_HEIGHT) s.1.blobs s.2 :=
      flyingPlay (fun g mem => congrArg (· / (SIM_HEIGHT : ℝ)) (fixed g (by simp [mem])))
        fun i up => absurd up.1 (lt_irrefl _)
    refine ⟨held,?_,?_,fitsStep stage (congrArg (· / (SIM_HEIGHT : ℝ)) (fixed f (by simp))) flying⟩
    · exact flights.stepRigged s f ▸ heldStep held (forward f (by simp))
    · exact flights.stepRigged s f ▸ holdGrows held (forward f (by simp))
  constructor
  · intro legal seen f rest whole
    obtain ⟨-,held,-,iff⟩ := step seen f rest whole
    have next := legal (seen ++ [f]) rest (by simpa using whole)
    rw [← flights.playRig _ (_,grounded),flights.playNext] at next
    exact (iff.mp ((legalIff tierIndex held).mp next)).2
  · intro fits seen
    induction seen using List.reverseRecOn with
    | nil =>
      intro rest _
      refine (legalIff tierIndex (heldStart ..)).mpr ?_
      rw [ceilingRoot]
      exact Real.sqrt_nonneg _
    | append_singleton before f ih =>
      intro rest whole
      have split : frames = before ++ f::rest := by simpa using whole
      obtain ⟨held,next,grows,iff⟩ := step before f rest split
      have legal := ih (f::rest) split
      rw [← flights.playRig _ (_,grounded)] at legal ⊢
      have under := (legalIff tierIndex held).mp legal
      rw [flights.playNext]
      refine (legalIff tierIndex next).mpr (iff.mpr ⟨under.trans ?_,fits before f rest split⟩)
      rw [ceilingRoot,ceilingRoot]
      exact Real.sqrt_le_sqrt (ceilingSquaredMono held.reportedNonneg grows)

def straight (pow : ℝ → ℝ → ℝ) (pouring : Bool) (dtMs : ℝ) : Frame ℝ :=
  ⟨⟨pouring,0,TIERS 5⟩,dtMs,506,900,pow⟩

def draws : Stream' ℝ := fun n => if n = 2 then 0.9 else 0.5

theorem straightScale (pow : ℝ → ℝ → ℝ) (pouring : Bool) (dtMs : ℝ) :
    scale (straight pow pouring dtMs) = 1 := by
  norm_num [scale,straight,SIM_HEIGHT]

theorem straightSecond (pow : ℝ → ℝ → ℝ) (pouring : Bool) {dtMs : ℝ} (short : dtMs ≤ 50) :
    frameS (straight pow pouring dtMs) = dtMs / 1000 := by
  have cap : ((MAX_FRAME_MS : ℚ) : ℝ) = 50 := by norm_num [MAX_FRAME_MS]
  rw [frameS,cap,straight,min_eq_left short]

theorem fallsStraight (pow : ℝ → ℝ → ℝ) (pouring : Bool) {dtMs : ℝ} (short : dtMs ≤ 50) (y vy : ℝ)
    (feel : TierFeel ℝ) (high : y + (vy + 1400 * (dtMs / 1000)) * (dtMs / 1000) ≤ 738) :
    moved (straight pow pouring dtMs) feel ⟨253,y,0,vy,40,false⟩ =
      ⟨253,y + (vy + 1400 * (dtMs / 1000)) * (dtMs / 1000),0,vy + 1400 * (dtMs / 1000),40,false⟩ := by
  have second := straightSecond pow pouring short
  have stage := straightScale pow pouring dtMs
  have fell : fall (straight pow pouring dtMs) feel ⟨253,y,0,vy,40,false⟩ =
      ⟨253,y + (vy + 1400 * (dtMs / 1000)) * (dtMs / 1000),0,vy + 1400 * (dtMs / 1000),40,false⟩ := by
    have gravity : ((SIM.gravity : ℚ) : ℝ) = 1400 := by norm_num [SIM.gravity]
    simp [fall,second,stage,gravity]
  have above : ¬ onFloor (straight pow pouring dtMs)
      ⟨253,y + (vy + 1400 * (dtMs / 1000)) * (dtMs / 1000),0,vy + 1400 * (dtMs / 1000),40,false⟩ := by
    have floor : (straight pow pouring dtMs).height * ((FLOOR_Y : ℚ) : ℝ) = 738 := by
      norm_num [straight,FLOOR_Y]
    rw [onFloor,floor]
    exact high.not_gt
  unfold moved
  rw [fell]
  simp only
  rw [if_neg above,if_neg]
  rw [gone,stage]
  norm_num [straight]

section Reopened
variable (pow : ℝ → ℝ → ℝ)

def start : Rig ℝ × (Fin MAX_BLOBS → Flight ℝ) := (createRig (TIERS 5) draws,grounded)

theorem topFlow : (TIERS 5 : Tier ℝ).flow = 34 := by
  change ((tierFlow 5 : ℚ) : ℝ) = 34
  rw [show tierFlow 5 = 34 from rfl]
  norm_num

theorem topRadius : (TIERS 5 : Tier ℝ).feel.radius = 40 := rfl

theorem firstOpened : flights.opened start (straight pow true 30) = flights.spawn (straight pow true 30)
    (takeStream (straight pow true 30) (ease (straight pow true 30) start.1),start.2) := by
  have carried : (takeStream (straight pow true 30) (ease (straight pow true 30) start.1)).spawnAcc =
      1.02 := by
    norm_num [takeStream,ease,start,createRig,frameS,straight,MAX_FRAME_MS,topFlow]
  have one : ⌊(1.02 : ℝ)⌋.toNat = 1 := by norm_num
  have opens : takes start.1 (straight pow true 30) = true := rfl
  rw [flights.openedTakes opens,carried,one,Watch.spawnWhile,if_pos (by rw [carried]; norm_num)]
  rfl

theorem firstSpawn :
    (flights.opened start (straight pow true 30)).1.blobs 0 = ⟨253,180,0,108,40,false⟩ ∧
    (flights.opened start (straight pow true 30)).2 0 = ⟨0,108,0⟩ := by
  rw [firstOpened]
  obtain ⟨blob,flight⟩ := launched (straight pow true 30)
    (takeStream (straight pow true 30) (ease (straight pow true 30) start.1),start.2)
  refine ⟨blob.trans ?_,flight.trans ?_⟩
  · have radius : (takeStream (straight pow true 30) (ease (straight pow true 30) start.1)).feel.radius =
        40 := by
      norm_num [takeStream,ease,start,createRig,straight,topRadius]
    have random : (takeStream (straight pow true 30) (ease (straight pow true 30) start.1)).random =
        draws := rfl
    rw [radius,random]
    simp only [droplet,straightScale]
    norm_num [straight,draws,Stream'.get,SPOUT_Y,SIM.spawnVxMax,SIM.spawnVyMax]
  · norm_num [launch,straight,takeStream,ease,start,createRig,draws,Stream'.get,
      SIM.spawnVxMax,SIM.spawnVyMax]

theorem flownOn (pouring : Bool) (dtMs : ℝ) (short : dtMs ≤ 50) {y vy : ℝ} {g : Flight ℝ}
    {s : Rig ℝ × (Fin MAX_BLOBS → Flight ℝ)}
    (blob : (flights.opened s (straight pow pouring dtMs)).1.blobs 0 = ⟨253,y,0,vy,40,false⟩)
    (flight : (flights.opened s (straight pow pouring dtMs)).2 0 = g) (still : g.side = 0)
    (high : y + (vy + 1400 * (dtMs / 1000)) * (dtMs / 1000) ≤ 738) :
    (flights.step s (straight pow pouring dtMs)).1.blobs 0 =
      ⟨253,y + (vy + 1400 * (dtMs / 1000)) * (dtMs / 1000),0,vy + 1400 * (dtMs / 1000),40,false⟩ ∧
    (flights.step s (straight pow pouring dtMs)).2 0 = ⟨0,g.down,g.airS + dtMs / 1000⟩ := by
  have used : 0 < ((flights.opened s (straight pow pouring dtMs)).1.blobs 0).rad := by
    rw [blob]
    norm_num
  obtain ⟨fell,flew⟩ := slotsMoved (straight pow pouring dtMs)
    (takes s.1 (straight pow pouring dtMs)) _ used
  rw [blob,fallsStraight pow pouring short _ _ _ high] at fell
  rw [flight,Flight.on,still,zero_mul,straightSecond pow pouring short] at flew
  exact ⟨fell,flew⟩

def released (shutMs : ℝ) : Rig ℝ × (Fin MAX_BLOBS → Flight ℝ) :=
  flights.play [straight pow true 30,straight pow false shutMs] start

theorem releasedSlot {shutMs : ℝ} (nonneg : 0 ≤ shutMs) (short : shutMs ≤ 50) :
    (∃ y, (released pow shutMs).1.blobs 0 = ⟨253,y,0,150 + 1400 * (shutMs / 1000),40,false⟩) ∧
    (released pow shutMs).2 0 = ⟨0,108,0.03 + shutMs / 1000⟩ := by
  obtain ⟨blob,flight⟩ := firstSpawn pow
  obtain ⟨fell,flew⟩ := flownOn pow true 30 (by norm_num) blob flight rfl (by norm_num)
  have speed : (108 + 1400 * (30 / 1000) : ℝ) = 150 := by norm_num
  rw [speed] at fell
  obtain ⟨fallen,flown⟩ := flownOn pow false shutMs short
    (s := flights.step start (straight pow true 30)) fell flew rfl (by nlinarith)
  exact ⟨⟨_,fallen⟩,flown.trans (by norm_num)⟩

theorem releasedClocks (shutMs : ℝ) : (released pow shutMs).1.holdMs = 30 ∧
    (released pow shutMs).1.finished = false ∧ (released pow shutMs).1.spawnAcc = 0 := by
  have stop : ((SIM.maxPourMs : ℚ) : ℝ) = 15000 := by norm_num [SIM.maxPourMs]
  have first : (stepRig start.1 (straight pow true 30)).holdMs = 30 := by
    have opens : takes start.1 (straight pow true 30) = true := rfl
    rw [(stepClocks ..).1,if_pos opens]
    norm_num [takeStream,start,createRig,straight,stop]
  have rig : (released pow shutMs).1 =
      stepRig (stepRig start.1 (straight pow true 30)) (straight pow false shutMs) :=
    flights.playRig ..
  have shut : takes (stepRig start.1 (straight pow true 30)) (straight pow false shutMs) = false := rfl
  have hold : (released pow shutMs).1.holdMs = 30 := by
    rw [rig,(stepClocks ..).1,if_neg (by simp [shut]),first]
  have acc : (released pow shutMs).1.spawnAcc = 0 := rig ▸ stepShut shut
  refine ⟨hold,?_,acc⟩
  rw [rig,stepFinished,← rig,hold,stop]
  norm_num

theorem releasedTakes (shutMs : ℝ) :
    takes (released pow shutMs).1 (straight pow true 16) = true := by
  simp [takes,(releasedClocks pow shutMs).2.1,straight]

theorem tooShort {s : Rig ℝ × (Fin MAX_BLOBS → Flight ℝ)} (fresh : s.1.spawnAcc = 0)
    (opens : takes s.1 (straight pow true 16) = true) :
    flights.opened s (straight pow true 16) =
      (takeStream (straight pow true 16) (ease (straight pow true 16) s.1),s.2) := by
  have carried : (takeStream (straight pow true 16) (ease (straight pow true 16) s.1)).spawnAcc =
      0.544 := by
    have before : (ease (straight pow true 16) s.1).spawnAcc = 0 := fresh
    rw [takeStream,before,straightSecond pow true (by norm_num)]
    norm_num [straight,topFlow]
  have none : ⌊(0.544 : ℝ)⌋.toNat = 0 := by norm_num
  rw [flights.openedTakes opens,carried,none,Watch.spawnWhile]

theorem releasedOpened (shutMs : ℝ) : flights.opened (released pow shutMs) (straight pow true 16) =
    (takeStream (straight pow true 16) (ease (straight pow true 16) (released pow shutMs).1),
      (released pow shutMs).2) :=
  tooShort pow (releasedClocks pow shutMs).2.2 (releasedTakes pow shutMs)

theorem releasedFlying (shutMs : ℝ) : Flying 1 (released pow shutMs).1.blobs (released pow shutMs).2 := by
  refine flyingPlay (fun f mem => ?_) fun i up => absurd up.1 (lt_irrefl _)
  simp only [List.mem_cons,List.not_mem_nil,or_false] at mem
  rcases mem with rfl | rfl <;> exact straightScale ..

theorem reopenedFits {shutMs : ℝ} (nonneg : 0 ≤ shutMs) (short : shutMs ≤ 50) :
    ((((flights.opened (released pow shutMs) (straight pow true 16)).2 0).on (straight pow true 16)
      (flights.opened (released pow shutMs) (straight pow true 16)).1.feel).speedSquared ≤
        ceilingSquared (⌊min ((released pow shutMs).1.holdMs + (straight pow true 16).dtMs) 15000⌋ / 1000)) ↔
      (108 + 1400 * (0.046 + shutMs / 1000)) ^ 2 ≤ 1.21 * ((120 + 1400 * 0.046) ^ 2 + 45 ^ 2) := by
  obtain ⟨-,flight⟩ := releasedSlot pow nonneg short
  have least : min ((30 : ℝ) + (straight pow true 16).dtMs) 15000 = 46 := by norm_num [straight]
  have whole : ⌊(46 : ℝ)⌋ = 46 := by norm_num
  have gravity : ((SIM.gravity : ℚ) : ℝ) = 1400 := by norm_num [SIM.gravity]
  have flown : (0.03 + shutMs / 1000 + 16 / 1000 : ℝ) = 0.046 + shutMs / 1000 := by ring
  have hold : min ((46 : ℤ) / 1000 : ℝ) 1.2 = 0.046 := by norm_num
  rw [releasedOpened,flight,Flight.on,zero_mul,straightSecond pow true (by norm_num),
    (releasedClocks pow shutMs).1,least,whole,ceilingSquared,hold,Flight.speedSquared,Flight.vy,gravity,
    flown,zero_mul,zero_add,sq (108 + _)]

theorem reopenedFast : ¬ Fits (released pow 50) (straight pow true 16) := by
  intro fits
  obtain ⟨⟨y,blob⟩,-⟩ := releasedSlot pow (by norm_num : (0 : ℝ) ≤ 50) le_rfl
  have aloft : Aloft ((flights.opened (released pow 50) (straight pow true 16)).1.blobs 0) := by
    have kept : (flights.opened (released pow 50) (straight pow true 16)).1.blobs 0 =
        (released pow 50).1.blobs 0 := by
      rw [releasedOpened]
      rfl
    rw [kept,blob]
    exact ⟨by norm_num,rfl⟩
  have bound := (reopenedFits pow (by norm_num) le_rfl).mp (fits (releasedTakes pow 50) 0 aloft)
  norm_num at bound

def reopened : List (Frame ℝ) := [straight pow true 30,straight pow false 50,straight pow true 16]

theorem reopenedHonest : ∀ f ∈ reopened pow,
    0 < f.dtMs ∧ f.dtMs ≤ 100 ∧ |f.lean| ≤ 1 ∧ f.tier = TIERS 5 ∧ f.height = 900 := by
  simp only [reopened,List.mem_cons,List.not_mem_nil,or_false]
  rintro f (rfl | rfl | rfl) <;> exact ⟨by norm_num [straight],by norm_num [straight],
    by norm_num [straight],rfl,rfl⟩

theorem reopenedIllegal : ¬ Legal 5 (play (reopened pow) (createRig (TIERS 5) draws)) := by
  intro legal
  have forward : ∀ f ∈ reopened pow, 0 < f.dtMs := fun f mem => (reopenedHonest pow f mem).1
  have under := (legalIff 5 (heldPlay (heldStart ..) forward)).mp legal
  have last : (flights.step (released pow 50) (straight pow true 16)).1 =
      play (reopened pow) (createRig (TIERS 5) draws) :=
    flights.playRig (reopened pow) start
  rw [← last] at under
  exact reopenedFast pow ((fitsStep one_pos (straightScale ..) (releasedFlying pow 50)).mp under).2

end Reopened

theorem velocityReopened : (∀ n, 0 ≤ draws.get n ∧ draws.get n < 1) ∧ ∀ pow : ℝ → ℝ → ℝ,
    (∀ f ∈ reopened pow, 0 < f.dtMs ∧ f.dtMs ≤ 100 ∧ |f.lean| ≤ 1 ∧ f.tier = TIERS 5 ∧
      f.height = 900) ∧
    ¬ Legal 5 (play (reopened pow) (createRig (TIERS 5) draws)) := by
  refine ⟨fun n => ?_,fun pow => ⟨reopenedHonest pow,reopenedIllegal pow⟩⟩
  rw [Stream'.get,draws]
  split <;> norm_num

section Alone

theorem aloneStays {s : Rig ℝ × (Fin MAX_BLOBS → Flight ℝ)} {f : Frame ℝ}
    (alone : ∀ i, Aloft ((flights.opened s f).1.blobs i) → i = 0) (i : Fin MAX_BLOBS)
    (up : Aloft ((flights.step s f).1.blobs i)) : i = 0 := by
  have visited := flights.stepSlotsRule (fun _ t => ∀ i, Aloft (t.1.blobs i) → i = 0) f (takes s.1 f)
    (fun _ alone used i up => alone i (stillAloft used up).1) (fun _ alone _ => alone)
    (s := flights.opened s f) alone
  exact visited i up

variable (pow : ℝ → ℝ → ℝ)

theorem firstAlone (i : Fin MAX_BLOBS)
    (up : Aloft ((flights.opened start (straight pow true 30)).1.blobs i)) : i = 0 := by
  by_contra other
  have free : (flights.opened start (straight pow true 30)).1.blobs i = freeSlot := by
    rw [firstOpened]
    exact Function.update_of_ne other ..
  rw [free] at up
  exact absurd up.1 (lt_irrefl _)

theorem releasedAlone (shutMs : ℝ) (i : Fin MAX_BLOBS)
    (up : Aloft ((released pow shutMs).1.blobs i)) : i = 0 := by
  refine aloneStays (fun j aloft => ?_) i up
  refine aloneStays (firstAlone pow) j ?_
  have shut : takes (flights.step start (straight pow true 30)).1 (straight pow false shutMs) = false := rfl
  have kept : (flights.opened (flights.step start (straight pow true 30)) (straight pow false shutMs)).1 =
      { ease (straight pow false shutMs) (flights.step start (straight pow true 30)).1 with spawnAcc := 0 } :=
    (flights.pourRig ..).trans (pourShut shut)
  rw [kept] at aloft
  exact aloft

def reopenedSoon : List (Frame ℝ) := [straight pow true 30,straight pow false 10,straight pow true 16]

theorem soonFits (seen : List (Frame ℝ)) (f : Frame ℝ) (rest : List (Frame ℝ))
    (whole : reopenedSoon pow = seen ++ f::rest) : Fits (flights.play seen start) f := by
  match seen,whole with
  | [],whole =>
    cases whole
    intro _ i up
    cases firstAlone pow i up
    obtain ⟨-,flight⟩ := firstSpawn pow
    have least : min (start.1.holdMs + (straight pow true 30).dtMs) 15000 = 30 := by
      norm_num [start,createRig,straight]
    have floored : ⌊(30 : ℝ)⌋ = 30 := by norm_num
    have at' : flights.play [] start = start := rfl
    rw [at',flight,Flight.on,zero_mul,straightSecond pow true (by norm_num),least,floored]
    norm_num [Flight.speedSquared,Flight.vy,ceilingSquared,SIM.gravity]
  | [_],whole =>
    cases whole
    intro opens
    exact absurd opens Bool.false_ne_true
  | [_,_],whole =>
    cases whole
    intro _ i up
    have aloft : Aloft ((released pow 10).1.blobs i) := by
      rw [show flights.play [straight pow true 30,straight pow false 10] start = released pow 10 from rfl,
        releasedOpened] at up
      exact up
    cases releasedAlone pow 10 i aloft
    refine (reopenedFits pow (by norm_num) (by norm_num)).mpr ?_
    norm_num
  | _::_::_::_,whole => simp [reopenedSoon] at whole

theorem soonFast :
    186 < (play (reopenedSoon pow) (createRig (TIERS 5) draws)).peakVelocity := by
  have last : (flights.step (released pow 10) (straight pow true 16)).1 =
      play (reopenedSoon pow) (createRig (TIERS 5) draws) :=
    flights.playRig (reopenedSoon pow) start
  rw [← last]
  by_contra slow
  obtain ⟨⟨y,blob⟩,flight⟩ := releasedSlot pow (by norm_num : (0 : ℝ) ≤ 10) (by norm_num)
  have aloft : Aloft ((released pow 10).1.blobs 0) := by
    rw [blob]
    exact ⟨by norm_num,rfl⟩
  have sampled := ((stepPeak ..).mp (not_lt.mp slow)).2 (releasedTakes pow 10) 0
  rw [releasedOpened] at sampled
  have fallen := flyingFall (straightScale pow true 16)
    (ease (straight pow true 16) (released pow 10).1).feel (releasedFlying pow 10 0 aloft)
  have slower := (speedRoot one_pos (straightScale ..) fallen).symm.trans_le (sampled aloft)
  rw [Real.sqrt_le_left (by norm_num),flight,Flight.on,zero_mul,
    straightSecond pow true (by norm_num)] at slower
  norm_num [Flight.speedSquared,Flight.vy,SIM.gravity] at slower

end Alone

theorem velocitySoon :
    let rig := play (reopenedSoon fun _ _ => 1) (createRig (TIERS 5) draws)
    186 < rig.peakVelocity ∧ Legal 5 rig := by
  intro rig
  refine ⟨soonFast _,(velocityIff 5 draws 900 (by norm_num) (reopenedSoon fun _ _ => 1) ?_ ?_).mpr
    (soonFits _) _ [] (List.append_nil _).symm⟩
  · simp [reopenedSoon,straight]
  · simp [reopenedSoon,straight]

end
end MoltenPour.RigVelocity
