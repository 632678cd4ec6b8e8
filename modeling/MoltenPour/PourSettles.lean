import MoltenPour.TierFixed
import MoltenPour.RigDescent

/-! A pour that is let go settles by itself: within nine tenths of a second of
physics and one frame more, whatever was poured, the seal can be set. -/
namespace MoltenPour.PourSettles
open NumberFormat MetaballRig RigWatch RigSettling RigDescent PourScreen TierFixed
variable {K : Type} [Field K] [LinearOrder K] [FloorRing K] [SquareRoot K]

def frameTimes (events : List (Event K)) : List K :=
  events.filterMap fun
    | .frame now _ _ _ => some now
    | _ => none

structure OneStage (height : K) (events : List (Event K)) : Prop where
  sized : ∀ {now width h pow}, .frame now width h pow ∈ events → h = height
  forward : (frameTimes events).Pairwise (· ≤ ·)

def Left : Event K → Prop
  | .frame .. | .steer _ | .closeStream | .arrow _ | .traverse _ | .config _ => True
  | _ => False

def physicsS (last : K) : List (Event K) → K
  | [] => 0
  | .frame now _ _ _::rest =>
      min (if last = 0 then 16 else min (now - last) 100) MAX_FRAME_MS / 1000 + physicsS now rest
  | _::rest => physicsS last rest

structure Mounted (height : K) (times : List K) (m : Ceremony K) (d : Descent K) : Prop where
  draws : ∀ n, 0 ≤ m.rig.random.get n
  descending : Descending height (m.rig,d)
  last : m.last = 0 ∨ m.last ∈ times

variable [IsStrictOrderedRing K]

omit [FloorRing K] [SquareRoot K] in
theorem generatorDraws (seed : UInt32) (n : ℕ) : (0 : K) ≤ (makeRandom seed).get n := by
  rw [makeRandom,Stream'.corec,Stream'.get_map]
  positivity

omit [FloorRing K] [SquareRoot K] in
theorem mountMounted (height : K) (times : List K) (tierIndex : ℤ) :
    Mounted height times (mount tierIndex) unspawned :=
  ⟨generatorDraws _,groundedDescending (emptyGrounded _ _),.inl rfl⟩

omit [IsStrictOrderedRing K] in
inductive Became (app : App K) : Event K → Ceremony K → Prop where
  | mounted (away : ∀ m, app.view ≠ .ceremony m) : Became app .ceremonyTab (mount app.tierIndex)
  | framed {m n now width h pow} (here : app.view = .ceremony m)
      (rig : n.rig = stepRig m.rig (frameOf app m now width h pow)) (last : n.last = now) :
      Became app (.frame now width h pow) n
  | emptied {m n} (here : app.view = .ceremony m) (rig : n.rig = resetRig m.rig) (last : n.last = m.last) :
      Became app .discard n
  | kept {m n event} (here : app.view = .ceremony m) (rig : n.rig = m.rig) (last : n.last = m.last) :
      Became app event n

omit [IsStrictOrderedRing K] in
theorem became {app : App K} {event : Event K} {n : Ceremony K}
    (there : (step app event).view = .ceremony n) : Became app event n := by
  by_cases ceremony : ∃ m, app.view = .ceremony m
  · obtain ⟨m,here⟩ := ceremony
    have same : app.view = .ceremony n → Became app event n := by
      intro unchanged
      rw [here] at unchanged
      cases unchanged
      exact .kept here rfl rfl
    cases event with
    | frame now width h pow =>
      simp only [step,here] at there
      cases there
      exact .framed here rfl rfl
    | discard =>
      simp only [step,here,PourScreen.discard] at there
      split at there
      · exact same there
      · cases there
        exact .emptied here rfl rfl
    | openStream now =>
      simp only [step,here,openStream] at there
      split at there
      · exact same there
      · cases there
        exact .kept here rfl rfl
    | closeStream =>
      simp only [step,here,closeStream] at there
      split at there
      · exact same there
      · cases there
        exact .kept here rfl rfl
    | steer lean =>
      simp only [step,here] at there
      cases there
      exact .kept here rfl rfl
    | certificateTab =>
      simp only [step] at there
      split at there
      · cases there
      · exact same there
    | minted =>
      simp only [step] at there
      split at there
      · cases there
      · exact same there
    | collectionTab => simp [step] at there
    | _ =>
      refine same ?_
      simpa [step,here,apply_ite App.view] using there
  · have away : ∀ m, app.view ≠ .ceremony m := fun m here => ceremony ⟨m,here⟩
    obtain ⟨rfl,fresh⟩ := awayOpens away there
    exact fresh ▸ .mounted away

section Stage
variable {height : K} (positive : 0 < height)
include positive

theorem mountedFrame {app : App K} {m n : Ceremony K} {times : List K} {d : Descent K} {now width : K}
    {pow : K → K → K} (mounted : Mounted height times m d) (forward : ∀ t ∈ times, t ≤ now)
    (rig : n.rig = stepRig m.rig (frameOf app m now width height pow)) (last : n.last = now) :
    Mounted height (times ++ [now]) n
      (descents.step (m.rig,d) (frameOf app m now width height pow)).2 := by
  have length : 0 ≤ (frameOf app m now width height pow).dtMs := by
    simp only [frameOf]
    split
    · norm_num
    · next begun =>
      exact le_min (sub_nonneg.mpr (forward _ (mounted.last.resolve_left begun))) (by norm_num)
  have stepped := descendingStep positive (f := frameOf app m now width height pow) rfl length
    (s := (m.rig,d)) mounted.draws mounted.descending
  have same : (descents.step (m.rig,d) (frameOf app m now width height pow)).1 = n.rig :=
    (descents.stepRigged ..).trans rig.symm
  refine ⟨same ▸ stepped.1,?_,.inr (by simp [last])⟩
  intro i up
  exact same ▸ stepped.2 i (same ▸ up)

theorem mountedStep {app : App K} {event : Event K} {times : List K}
    (mounted : ∀ m, app.view = .ceremony m → ∃ d, Mounted height times m d)
    (sized : ∀ {now width h pow}, event = .frame now width h pow → h = height)
    (forward : ∀ t ∈ times, ∀ u ∈ frameTimes [event], t ≤ u) (n : Ceremony K)
    (there : (step app event).view = .ceremony n) :
    ∃ d, Mounted height (times ++ frameTimes [event]) n d := by
  have later {m d} (was : Mounted height times m d) :
      m.last = 0 ∨ m.last ∈ times ++ frameTimes [event] :=
    was.last.imp_right fun mem => List.mem_append_left _ mem
  cases became there with
  | mounted away => exact ⟨unspawned,mountMounted ..⟩
  | @framed m _ now width h pow here rig last =>
    obtain ⟨d,was⟩ := mounted m here
    cases sized rfl
    exact ⟨_,mountedFrame positive was (fun t mem => forward t mem now (by simp [frameTimes])) rig last⟩
  | @emptied m _ here rig last =>
    obtain ⟨d,was⟩ := mounted m here
    refine ⟨d,rig ▸ was.draws,groundedDescending ?_,last ▸ later was⟩
    rw [rig]
    exact emptyGrounded (TIERS 0) m.rig.random
  | @kept m _ _ here rig last =>
    obtain ⟨d,was⟩ := mounted m here
    exact ⟨d,rig ▸ was.draws,rig ▸ was.descending,last ▸ later was⟩

theorem mountedReach {events : List (Event K)} (stage : OneStage height events) (m : Ceremony K)
    (here : (reach events).1.view = .ceremony m) : ∃ d, Mounted height (frameTimes events) m d := by
  induction events using List.reverseRecOn generalizing m with
  | nil =>
    cases here
    exact ⟨unspawned,mountMounted ..⟩
  | append_singleton events event ih =>
    have split : frameTimes (events ++ [event]) = frameTimes events ++ frameTimes [event] :=
      List.filterMap_append ..
    obtain ⟨before,-,between⟩ := List.pairwise_append.mp (split ▸ stage.forward)
    rw [reachNext] at here
    rw [split]
    refine mountedStep positive (ih ⟨fun mem => stage.sized (List.mem_append_left _ mem),before⟩) ?_
      between m here
    rintro now width h pow rfl
    exact stage.sized (List.mem_append_right _ (List.mem_singleton.mpr rfl))

end Stage

omit [IsStrictOrderedRing K] in
theorem streamingReach (events : List (Event K)) : Streaming (reach events).1 := by
  induction events using List.reverseRecOn with
  | nil => exact fun m here pouring => by cases here; exact absurd pouring Bool.false_ne_true
  | append_singleton events event ih =>
    rw [reachNext]
    cases view : (reach events).1.view with
    | ceremony m => exact streamingCeremony ih view event
    | collection => exact streamingAway (by simp [view]) event
    | certificate => exact streamingAway (by simp [view]) event

/- The stream is shut, and what is in the air has been falling ever since; the
phase follows as soon as nothing is. -/
structure Sinking (height airS : K) (times : List K) (app : App K) (m : Ceremony K) (d : Descent K) :
    Prop where
  here : app.view = .ceremony m
  mounted : Mounted height times m d
  aged : Aged airS (m.rig,d)
  held : 0 < m.rig.holdMs
  shut : m.pouring = false
  phase : app.phase = .settling ∨ app.phase = .settled ∧ Still m.rig

section Sink
variable {height : K} (positive : 0 < height)
include positive

theorem sinkFrame {airS : K} (now width : K) (pow : K → K → K) {times : List K} {app : App K} {m : Ceremony K}
    {d : Descent K} (sinking : Sinking height airS times app m d) (forward : ∀ t ∈ times, t ≤ now) :
    let f := frameOf app m now width height pow
    ∃ n e, n.last = now ∧ n.rig = stepRig m.rig f ∧
      Sinking height (airS + frameS f) (times ++ [now]) (step app (.frame now width height pow)) n e := by
  intro f
  have shut : takes m.rig f = false := by simp [takes,f,frameOf,sinking.shut]
  have unstopped : ((stepRig m.rig f).finished && !m.rig.finished && m.pouring) = false := by
    simp [sinking.shut]
  let n : Ceremony K := { m with
    rig := stepRig m.rig f
    pouring := m.pouring && !((stepRig m.rig f).finished && !m.rig.finished && m.pouring)
    last := now }
  have here : (step app (.frame now width height pow)).view = .ceremony n := by
    simp only [step,sinking.here]
    rfl
  have hold := (stepClocks m.rig f).1
  rw [shut,if_neg Bool.false_ne_true] at hold
  have same : (descents.step (m.rig,d) f).1 = n.rig := descents.stepRigged ..
  have phase : (step app (.frame now width height pow)).phase =
      if app.phase = .settling ∧ isSettled n.rig false = true then .settled else app.phase := by
    simp only [step,sinking.here,frame]
    rw [show stepRig m.rig (frameOf app m now width height pow) = n.rig from rfl]
    simp [sinking.shut]
  refine ⟨n,(descents.step (m.rig,d) f).2,rfl,rfl,here,
    mountedFrame positive sinking.mounted forward rfl rfl,?aged,hold ▸ sinking.held,by
      simp [n,sinking.shut],?phase⟩
  case aged =>
    intro i up
    exact agedShut (s := (m.rig,d)) shut sinking.aged i (same ▸ up)
  case phase =>
    rw [phase]
    cases sinking.phase with
    | inl settling =>
      cases settled : isSettled n.rig false with
      | false => simp [settling]
      | true => exact .inr ⟨by simp [settling],(settledStill settled).2⟩
    | inr settled =>
      refine .inr ⟨?_,groundedSettles settled.2.grounded settled.2.held shut⟩
      rw [if_neg (by simp [settled.1])]
      exact settled.1

theorem sinkStep {airS : K} {times : List K} {app : App K} {m : Ceremony K} {d : Descent K}
    {event : Event K} (sinking : Sinking height airS times app m d) (left : Left event)
    (sized : ∀ {now width h pow}, event = .frame now width h pow → h = height)
    (forward : ∀ t ∈ times, ∀ u ∈ frameTimes [event], t ≤ u) (rest : List (Event K)) :
    ∃ n e more, more + physicsS n.last rest = airS + physicsS m.last (event::rest) ∧
      Sinking height more (times ++ frameTimes [event]) (step app event) n e := by
  have poured : app.phase ≠ .idle := by
    rcases sinking.phase with settling | settled
    · simp [settling]
    · simp [settled.1]
  cases event with
  | frame now width h pow =>
    cases sized rfl
    obtain ⟨n,e,last,-,sunk⟩ := sinkFrame positive now width pow sinking
      fun t mem => forward t mem now (by simp [frameTimes])
    refine ⟨n,e,_,?_,sunk⟩
    rw [last,physicsS,add_assoc]
    rfl
  | steer lean =>
    let n : Ceremony K := { m with leanRef := max (-1) (min 1 lean) }
    have steered : step app (.steer lean) = { app with view := .ceremony n } := by
      simp only [step,sinking.here]
      rfl
    have mounted : Mounted height times n d :=
      ⟨sinking.mounted.draws,sinking.mounted.descending,sinking.mounted.last⟩
    refine ⟨n,d,airS,rfl,?_,by simpa [frameTimes] using mounted,sinking.aged,sinking.held,
      sinking.shut,?_⟩
    · rw [steered]
    · rw [steered]
      exact sinking.phase
  | config max =>
    refine ⟨m,d,airS,rfl,sinking.here,?_,sinking.aged,sinking.held,sinking.shut,sinking.phase⟩
    simpa [frameTimes] using sinking.mounted
  | closeStream =>
    have same : step app .closeStream = app := by simp [step,sinking.here,closeStream,sinking.shut]
    exact ⟨m,d,airS,rfl,by simpa [same,frameTimes] using sinking⟩
  | arrow down =>
    have same : step app (.arrow down) = app := by simp [step,sinking.here,poured]
    exact ⟨m,d,airS,rfl,by simpa [same,frameTimes] using sinking⟩
  | traverse index =>
    have same : step app (.traverse index) = app := by simp [step,sinking.here,poured]
    exact ⟨m,d,airS,rfl,by simpa [same,frameTimes] using sinking⟩
  | _ => exact left.elim

theorem sinkRun {airS : K} {times : List K} {app : App K} {m : Ceremony K} {d : Descent K}
    (sinking : Sinking height airS times app m d) {events : List (Event K)} (left : ∀ e ∈ events, Left e)
    (sized : ∀ {now width h pow}, .frame now width h pow ∈ events → h = height)
    (forward : (times ++ frameTimes events).Pairwise (· ≤ ·)) :
    ∃ n e, Sinking height (airS + physicsS m.last events) (times ++ frameTimes events)
      (events.foldl step app) n e := by
  induction events generalizing airS times app m d with
  | nil => exact ⟨m,d,by simpa [physicsS,frameTimes] using sinking⟩
  | cons event rest ih =>
    have split : frameTimes (event::rest) = frameTimes [event] ++ frameTimes rest :=
      List.filterMap_append (l := [event]) ..
    rw [split,← List.append_assoc] at forward ⊢
    obtain ⟨n,e,more,total,sunk⟩ := sinkStep positive sinking (left event (by simp))
      (fun same => sized (List.mem_cons.mpr (.inl same.symm))) (List.pairwise_append.mp (List.pairwise_append.mp forward).1).2.2
      rest
    rw [← total]
    exact ih sunk (fun e mem => left e (by simp [mem])) (fun mem => sized (List.mem_cons_of_mem _ mem)) forward

end Sink

theorem pourSettles (height : K) (positive : 0 < height) (events quiet : List (Event K)) (now width : K)
    (pow : K → K → K) (stage : OneStage height (events ++ (quiet ++ [.frame now width height pow])))
    (left : ∀ e ∈ quiet, Left e) (m : Ceremony K) (here : (reach events).1.view = .ceremony m)
    (settling : (reach events).1.phase = .settling) (held : 0 < m.rig.holdMs)
    (long : 0.893 ≤ physicsS m.last quiet) :
    let app := (reach (events ++ (quiet ++ [.frame now width height pow]))).1
    app.phase = .settled ∧ ∃ n, app.view = .ceremony n ∧ isSettled n.rig n.pouring = true ∧
      (app.sealing = false → ∀ time,
        request app time = some ⟨app.tierIndex,n.startedAt.getD time,telemetryOf n.rig⟩) := by
  intro app
  have times : frameTimes (events ++ (quiet ++ [.frame now width height pow])) =
      frameTimes events ++ frameTimes quiet ++ [now] := by
    simp [frameTimes,List.filterMap_append]
  have forward := stage.forward
  rw [times] at forward
  obtain ⟨before,-,between⟩ := List.pairwise_append.mp forward
  have prior : OneStage height events :=
    ⟨fun mem => stage.sized (List.mem_append_left _ mem),(List.pairwise_append.mp before).1⟩
  obtain ⟨d,mounted⟩ := mountedReach positive prior m here
  have shut : m.pouring = false := by
    by_contra opened
    have pouring := streamingReach events m here (by simpa using opened)
    exact absurd (settling.symm.trans pouring) (by decide)
  obtain ⟨n,e,sunk⟩ := sinkRun positive
    ⟨here,mounted,mounted.descending.aged,held,shut,.inl settling⟩ left
    (fun mem => stage.sized (List.mem_append_right _ (List.mem_append_left _ mem))) before
  rw [zero_add] at sunk
  have down := agedGrounded positive sunk.mounted.descending sunk.aged long
  obtain ⟨last,e',-,rig,final⟩ := sinkFrame positive now width pow sunk
    fun t mem => between t mem now (by simp)
  have whole : step (quiet.foldl step (reach events).1) (.frame now width height pow) = app := by
    simp only [app,reachApp,List.foldl_append,List.foldl_cons,List.foldl_nil]
  rw [whole] at final
  have still : Still last.rig := by
    rw [rig]
    exact groundedSettles down sunk.held (by simp [takes,frameOf,sunk.shut])
  have settled : app.phase = .settled := by
    rw [← whole]
    simp only [step,sunk.here,frame,sunk.shut]
    rw [← rig]
    rcases sunk.phase with waiting | already
    · simp [waiting,stillSettled still]
    · simp [already.1]
  refine ⟨settled,last,final.here,final.shut ▸ stillSettled still,fun unsealed time => ?_⟩
  simp [request,final.here,enabled,settled,unsealed]

section Example

def pow : ℚ → ℚ → ℚ := fun _ _ => 1

def letGo : List (Event ℚ) := [.openStream 1700000000000,.frame 16 506 900 pow,.frame 32 506 900 pow,
  .frame 48 506 900 pow,.frame 64 506 900 pow,.closeStream]

def waiting : List (Event ℚ) :=
  (List.range 18).map fun n => .frame (114 + 50 * n) 506 900 pow

def shows (app : App ℚ) (seen : Ceremony ℚ → Bool) : Bool :=
  match app.view with
  | .ceremony m => seen m
  | _ => false

theorem showsScreen {app : App ℚ} {seen : Ceremony ℚ → Bool} (shown : shows app seen = true) :
    ∃ m, app.view = .ceremony m ∧ seen m = true := by
  unfold shows at shown
  split at shown
  · next m here => exact ⟨m,here,shown⟩
  · contradiction

theorem oneDropSettles :
    (reach (letGo ++ (waiting ++ [.frame 1000 506 900 pow]))).1.phase = .settled := by
  have shown : shows (reach letGo).1 (fun m => decide (0 < m.rig.holdMs ∧ m.last = 64)) = true := by
    decide +kernel
  obtain ⟨m,here,seen⟩ := showsScreen shown
  obtain ⟨held,last⟩ := of_decide_eq_true seen
  refine (pourSettles 900 (by norm_num) letGo waiting 1000 506 pow ⟨?sized,?forward⟩ ?left m here ?settling
    held ?long).1
  case sized =>
    intro now width h pow mem
    simp only [letGo,waiting,List.mem_append,List.mem_cons,List.mem_map,List.not_mem_nil] at mem
    grind
  case forward => decide +kernel
  case left =>
    intro e mem
    obtain ⟨n,-,rfl⟩ := List.mem_map.mp mem
    trivial
  case settling => decide +kernel
  case long =>
    rw [last]
    decide +kernel

end Example
end MoltenPour.PourSettles
