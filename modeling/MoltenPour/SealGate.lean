import MoltenPour.PourScreen
import MoltenPour.RigSettling

/-! The button that seals. It reads the shell's phase, and posts from the
screen's rig: the two agree as long as the screen is the one that settled. -/
namespace MoltenPour.SealGate
open NumberFormat MetaballRig RigSettling PourScreen
variable {K : Type} [Field K] [LinearOrder K] [FloorRing K] [SquareRoot K]

/- What the mounted screen knows of its pour. A screen mounted while the phase
was already settled has no start; only a mint in flight keeps it from sealing. -/
structure Sound (app : App K) (began : Option ℤ) (m : Ceremony K) : Prop where
  opened : m.pouring = true → app.phase = .pouring ∧ m.startedAt ≠ none
  held : 0 < m.rig.holdMs → m.startedAt ≠ none
  finished : m.rig.finished = true → 0 < m.rig.holdMs
  settled : app.phase = .settled → m.startedAt ≠ none → Still m.rig
  began : (app.phase = .settled → m.startedAt ≠ none) → m.startedAt = began
  unsealed : app.phase = .settled → app.sealing = false → m.startedAt ≠ none

def SoundView (s : App K × Option ℤ) : Prop := ∀ m, s.1.view = .ceremony m → Sound s.1 s.2 m

/- The screen is not brought back to a settled phase it did not settle itself,
unless a mint is in flight that does not fail before it goes. -/
def Undisturbed (app : App K) : Event K → Prop
  | .ceremonyTab => app.phase = .settled → app.sealing = false → ∃ m, app.view = .ceremony m
  | .mintFailed => ∀ m, app.view = .ceremony m → app.phase = .settled → app.sealing = true →
      m.startedAt ≠ none
  | _ => True

structure Completed (app : App K) (began : Option ℤ) (m : Ceremony K) : Prop where
  settled : isSettled m.rig false = true
  started : ∃ t, began = some t ∧ m.startedAt = some t ∧
    ∀ now, request app now = some ⟨app.tierIndex,t,telemetryOf m.rig⟩

def Honest (s : App K × Option ℤ) : Prop :=
  ∀ m, s.1.view = .ceremony m → enabled s.1 = true → Completed s.1 s.2 m

omit [Field K] [LinearOrder K] [FloorRing K] [SquareRoot K] in
theorem enabledIff (app : App K) :
    enabled app = true ↔ app.phase = .settled ∧ app.sealing = false := by
  simp [enabled]

omit [SquareRoot K] in
theorem soundHonest {s : App K × Option ℤ} (sound : SoundView s) : Honest s := by
  intro m here ready
  obtain ⟨settled,unsealed⟩ := (enabledIff s.1).mp ready
  have screen := sound m here
  have started := screen.unsealed settled unsealed
  have began := screen.began fun _ => started
  refine ⟨stillSettled (screen.settled settled started),?_⟩
  cases time : m.startedAt with
  | none => exact absurd time started
  | some t =>
    refine ⟨t,began.symm.trans time,rfl,fun now => ?_⟩
    simp [request,here,ready,time]

omit [FloorRing K] [SquareRoot K] in
theorem soundMount (app : App K) {tierIndex : ℤ}
    (quiet : app.phase = .settled → app.sealing = true) : Sound app none (mount tierIndex) where
  opened shut := by simp [mount] at shut
  held hold := absurd hold (lt_irrefl _)
  finished done := by simp [mount,createRig] at done
  settled _ started := absurd rfl started
  began _ := rfl
  unsealed settled unsealed := by simp [quiet settled] at unsealed

omit [FloorRing K] [SquareRoot K] in
theorem soundOpen {app : App K} {began : Option ℤ} {m : Ceremony K} (sound : Sound app began m) (now : ℤ)
    {n : Ceremony K} (here : (openStream app m now).view = .ceremony n) (same : app.view = .ceremony m) :
    Sound (openStream app m now) (began.or (some now)) n := by
  unfold openStream at here ⊢
  split at here
  · next refused =>
    rw [if_pos refused]
    have unchanged : m = n := View.ceremony.inj (same.symm.trans here)
    subst unchanged
    refine { sound with began := fun fresh => ?_ }
    have started : m.startedAt ≠ none := by
      rcases refused with settled | finished | pouring
      · exact fresh settled
      · exact sound.held (sound.finished finished)
      · exact (sound.opened pouring).2
    have known := sound.began fresh
    cases time : m.startedAt with
    | none => exact absurd time started
    | some t => rw [← known,time]; rfl
  · next accepted =>
    rw [if_neg accepted]
    cases here
    have quiet : app.phase ≠ .settled := fun settled => accepted (.inl settled)
    have known := sound.began fun settled => absurd settled quiet
    have started : m.startedAt.or (some now) ≠ none := by
      cases m.startedAt <;> simp
    exact {
      opened := fun _ => ⟨rfl,started⟩
      held := fun _ => started
      finished := sound.finished
      settled := fun settled => nomatch settled
      began := fun _ => by rw [known]
      unsealed := fun settled => nomatch settled }

structure Framed (app : App K) (m : Ceremony K) (f : Frame K) (phase : Phase) (pouring : Bool) : Prop where
  narrowed : pouring = true → m.pouring = true ∧ (app.phase = .pouring → phase = .pouring)
  settles : phase = .settled → (app.phase = .settling ∧ isSettled (stepRig m.rig f) pouring = true) ∨
    app.phase = .settled
  stays : app.phase = .settled → m.pouring = false → phase = .settled

theorem framed (app : App K) (m : Ceremony K) (f : Frame K) :
    let hardStop := (stepRig m.rig f).finished && !m.rig.finished && m.pouring
    let pouring := m.pouring && !hardStop
    Framed app m f (if app.phase = .settling ∧ isSettled (stepRig m.rig f) pouring = true then .settled
      else if hardStop then .settling else app.phase) pouring := by
  intro hardStop pouring
  refine ⟨?narrowed,?settles,?stays⟩
  case narrowed =>
    intro still
    obtain ⟨before,open'⟩ := Bool.and_eq_true_iff.mp still
    refine ⟨before,fun phase => ?_⟩
    have unstopped : hardStop = false := by simpa using open'
    rw [if_neg (by simp [phase]),unstopped,if_neg Bool.false_ne_true,phase]
  case settles =>
    intro settled
    split at settled
    · next now => exact .inl now
    · split at settled
      · exact nomatch settled
      · exact .inr settled
  case stays =>
    intro settled shut
    have unstopped : hardStop = false := by simp [hardStop,shut]
    rw [if_neg (by simp [settled]),unstopped,if_neg Bool.false_ne_true,settled]

variable [IsStrictOrderedRing K]

theorem soundFrame {app : App K} {began : Option ℤ} {m : Ceremony K} (sound : Sound app began m)
    (now width height : K) (pow : K → K → K) {n : Ceremony K}
    (here : (frame app m now width height pow).view = .ceremony n) :
    Sound (frame app m now width height pow) began n := by
  cases here
  have facts := framed app m (frameOf app m now width height pow)
  have rate : (frameOf app m now width height pow).pouring = m.pouring := rfl
  unfold frame
  simp only at facts ⊢
  generalize frameOf app m now width height pow = f at facts rate ⊢
  have hold := (stepClocks m.rig f).1
  have shut : m.pouring = false → takes m.rig f = false := fun closed => by simp [takes,rate,closed]
  have held : 0 < (stepRig m.rig f).holdMs → m.startedAt ≠ none := by
    intro longer
    cases pouring : m.pouring with
    | true => exact (sound.opened pouring).2
    | false =>
      rw [hold,shut pouring,if_neg Bool.false_ne_true] at longer
      exact sound.held longer
  have closed : app.phase = .settled → m.pouring = false := by
    intro settled
    cases pouring : m.pouring with
    | true => exact absurd ((sound.opened pouring).1.symm.trans settled) (by decide)
    | false => rfl
  refine ⟨?opened,held,?finished,?settled,?began,?unsealed⟩
  case opened =>
    intro pouring
    obtain ⟨before,phase⟩ := facts.narrowed pouring
    exact ⟨phase (sound.opened before).1,(sound.opened before).2⟩
  case finished =>
    intro done
    rw [stepFinished,decide_eq_true_iff] at done
    refine lt_of_lt_of_le ?_ done
    norm_num [ClientPipeline.SIM.maxPourMs]
  case settled =>
    intro settled started
    rcases facts.settles settled with now | before
    · exact (settledStill now.2).2
    · have still := sound.settled before started
      exact groundedSettles still.grounded still.held (shut (closed before))
  case began =>
    intro fresh
    refine sound.began fun settled => fresh (facts.stays settled (closed settled))
  case unsealed =>
    intro settled unsealed
    rcases facts.settles settled with now | before
    · exact held (settledStill now.2).2.held
    · exact sound.unsealed before unsealed

omit [FloorRing K] [SquareRoot K] [IsStrictOrderedRing K] in
theorem soundClose {app : App K} {began : Option ℤ} {m : Ceremony K} (sound : Sound app began m)
    {n : Ceremony K} (here : (closeStream app m).view = .ceremony n) (same : app.view = .ceremony m) :
    Sound (closeStream app m) began n := by
  unfold closeStream at here ⊢
  split at here
  · next shut =>
    rw [if_pos shut]
    cases same.symm.trans here
    exact sound
  · next opened =>
    rw [if_neg opened]
    cases here
    have before := sound.opened (by simpa using opened)
    exact {
      opened := fun still => nomatch still
      held := sound.held
      finished := sound.finished
      settled := fun settled => nomatch settled
      began := fun _ => sound.began fun settled => absurd settled (by simp [before.1])
      unsealed := fun settled => nomatch settled }

omit [FloorRing K] [SquareRoot K] [IsStrictOrderedRing K] in
theorem soundDiscard {app : App K} {began : Option ℤ} {m : Ceremony K} (sound : Sound app began m)
    {n : Ceremony K} (here : (discard app m).view = .ceremony n) (same : app.view = .ceremony m) :
    Sound (discard app m) (if app.phase = .idle then began else none) n := by
  unfold PourScreen.discard at here ⊢
  split at here
  · next idle =>
    rw [if_pos idle,if_pos idle]
    cases same.symm.trans here
    exact sound
  · next poured =>
    rw [if_neg poured,if_neg poured]
    cases here
    exact {
      opened := fun still => nomatch still
      held := fun hold => absurd hold (lt_irrefl _)
      finished := fun done => nomatch done
      settled := fun settled => nomatch settled
      began := fun _ => rfl
      unsealed := fun settled => nomatch settled }

omit [FloorRing K] [SquareRoot K] [IsStrictOrderedRing K] in
theorem soundUnder {app shell : App K} {began : Option ℤ} {m : Ceremony K} (sound : Sound app began m)
    (phase : shell.phase = app.phase) (sealing : shell.sealing = false → app.sealing = false) :
    Sound shell began m where
  opened still := phase ▸ sound.opened still
  held := sound.held
  finished := sound.finished
  settled now := sound.settled (phase ▸ now)
  began fresh := sound.began fun now => fresh (phase.trans now)
  unsealed now shut := sound.unsealed (phase ▸ now) (sealing shut)

omit [FloorRing K] [SquareRoot K] [IsStrictOrderedRing K] in
theorem soundKept {app shell : App K} {began : Option ℤ} {m : Ceremony K} (sound : Sound app began m)
    (view : shell.view = .ceremony m) (phase : shell.phase = app.phase)
    (sealing : shell.sealing = false → app.sealing = false) : SoundView (shell,began) := by
  intro n here
  cases view.symm.trans here
  exact soundUnder sound phase sealing

omit [FloorRing K] [SquareRoot K] [IsStrictOrderedRing K] in
theorem soundGone {shell : App K} {began : Option ℤ} (gone : ∀ m, shell.view ≠ .ceremony m) :
    SoundView (shell,began) := fun m here => absurd here (gone m)

omit [FloorRing K] [SquareRoot K] [IsStrictOrderedRing K] in
theorem soundEither {c : Prop} [Decidable c] {app other : App K} {began : Option ℤ}
    (stays : SoundView (app,began)) (moves : c → SoundView (other,began)) :
    SoundView (if c then other else app,began) := by
  split
  · next now => exact moves now
  · exact stays

omit [IsStrictOrderedRing K] in
theorem soundAway {app : App K} (away : ∀ m, app.view ≠ .ceremony m) (began : Option ℤ)
    {event : Event K} (quiet : Undisturbed app event) : SoundView (watch (app,began) event) := by
  intro n here
  obtain ⟨tab,fresh⟩ := awayOpens away here
  subst tab fresh
  have settled : app.phase = .settled → app.sealing = true := by
    intro settled
    by_contra unsealed
    obtain ⟨m,view⟩ := quiet settled (by simpa using unsealed)
    exact away m view
  obtain ⟨shell,none⟩ := tabAway away began
  unfold watch
  rw [shell,none]
  exact soundUnder (soundMount app settled) rfl id

theorem soundStep {s : App K × Option ℤ} (sound : SoundView s) {event : Event K}
    (quiet : Undisturbed s.1 event) : SoundView (watch s event) := by
  obtain ⟨app,began⟩ := s
  cases view : app.view with
  | collection => exact soundAway (by simp [view]) began quiet
  | certificate => exact soundAway (by simp [view]) began quiet
  | ceremony m =>
    have screen : Sound app began m := sound m view
    cases event with
    | openStream now =>
      intro n here
      simp only [watch,step,pourStart,view] at here ⊢
      exact soundOpen screen now here view
    | closeStream =>
      intro n here
      simp only [watch,step,pourStart,view] at here ⊢
      exact soundClose screen here view
    | frame now width height pow =>
      intro n here
      simp only [watch,step,pourStart,view] at here ⊢
      exact soundFrame screen now width height pow here
    | discard =>
      intro n here
      simp only [watch,step,pourStart,view] at here ⊢
      exact soundDiscard screen here view
    | steer lean =>
      intro n here
      simp only [watch,step,pourStart,view] at here ⊢
      cases here
      exact ⟨screen.opened,screen.held,screen.finished,screen.settled,screen.began,screen.unsealed⟩
    | traverse index =>
      simp only [watch,step,pourStart,view]
      exact soundEither sound fun _ => soundKept screen rfl rfl id
    | arrow down =>
      simp only [watch,step,pourStart,view]
      exact soundEither sound fun _ => soundKept screen rfl rfl id
    | mint =>
      simp only [watch,step,pourStart,view]
      exact soundEither sound fun _ => soundKept screen rfl rfl fun shut => by cases shut
    | config max =>
      simp only [watch,step,pourStart,view]
      exact soundKept screen rfl rfl id
    | ceremonyTab =>
      simp only [watch,step,pourStart,view]
      exact sound
    | select =>
      simp only [watch,step,pourStart,view]
      exact sound
    | collectionTab =>
      simp only [watch,step,pourStart]
      exact soundGone (by simp)
    | certificateTab =>
      simp only [watch,step,pourStart]
      exact soundEither sound fun _ => soundGone (by simp)
    | minted =>
      simp only [watch,step,pourStart]
      exact soundEither sound fun _ => soundGone (by simp)
    | mintFailed =>
      simp only [watch,step,pourStart]
      refine soundEither sound fun inFlight n here => ?_
      cases view.symm.trans here
      exact ⟨screen.opened,screen.held,screen.finished,screen.settled,screen.began,
        fun settled _ => quiet m view settled inFlight⟩

theorem soundReach {events : List (Event K)}
    (quiet : ∀ seen event rest, events = seen ++ event::rest → Undisturbed (reach seen).1 event) :
    SoundView (reach events) := by
  induction events using List.reverseRecOn with
  | nil =>
    intro m here
    cases here
    exact soundUnder (soundMount start fun settled => nomatch settled) rfl id
  | append_singleton seen event ih =>
    rw [reachNext]
    refine soundStep (ih fun before e rest whole => ?_) (quiet seen event [] rfl)
    exact quiet before e (rest ++ [event]) (by simp [whole])

omit [IsStrictOrderedRing K] in
theorem disturbed {s : App K × Option ℤ} {event : Event K} (disturbance : ¬ Undisturbed s.1 event) :
    ¬ Honest (watch s event) := by
  obtain ⟨app,began⟩ := s
  intro honest
  cases event with
  | ceremonyTab =>
    simp only [Undisturbed,not_forall,not_exists] at disturbance
    obtain ⟨settled,unsealed,away⟩ := disturbance
    have tab : step app .ceremonyTab = { app with view := .ceremony (mount app.tierIndex) } := by
      cases view : app.view with
      | ceremony m => exact absurd view (away m)
      | collection => simp only [step,view]
      | certificate => simp only [step,view]
    have done := honest (mount app.tierIndex) (congrArg App.view tab) (by
      rw [watch,tab,enabledIff]
      exact ⟨settled,unsealed⟩)
    exact absurd done.settled (by simp [isSettled,mount,createRig])
  | mintFailed =>
    simp only [Undisturbed,not_forall,not_not] at disturbance
    obtain ⟨m,view,settled,sealed,none⟩ := disturbance
    have failed : step app .mintFailed = { app with sealing := false } := by
      simp only [step,sealed,if_true]
    have done := honest m ((congrArg App.view failed).trans view) (by
      rw [watch,failed,enabledIff]
      exact ⟨settled,rfl⟩)
    obtain ⟨t,-,started,-⟩ := done.started
    cases started.symm.trans none
  | _ => exact disturbance trivial

theorem mintableIff (events : List (Event K)) :
    (∀ seen rest, events = seen ++ rest → Honest (reach seen)) ↔
    ∀ seen event rest, events = seen ++ event::rest → Undisturbed (reach seen).1 event := by
  constructor
  · intro honest seen event rest whole
    by_contra disturbance
    refine disturbed disturbance ?_
    have next := honest (seen ++ [event]) rest (by simp [whole])
    rwa [reachNext] at next
  · intro quiet seen rest whole
    refine soundHonest (soundReach fun before event more split => ?_)
    exact quiet before event (more ++ rest) (by simp [whole,split])

def revisited (pow : ℚ → ℚ → ℚ) : List (Event ℚ) :=
  [.openStream 1785628800000,.frame 16 506 900 pow,.closeStream,.frame 32 506 900 pow,.collectionTab]

theorem mintableSettled :
    Honest (reach ((revisited fun _ _ => 1).take 4)) := by
  refine (mintableIff (revisited fun _ _ => 1)).mpr ?_ _ [.collectionTab] rfl
  intro seen event rest whole
  have mem : event ∈ revisited fun _ _ => 1 := by simp [whole]
  simp only [revisited,List.mem_cons,List.not_mem_nil,or_false] at mem
  obtain rfl | rfl | rfl | rfl | rfl := mem <;> trivial

theorem shortPour {rig : Rig ℚ} (fresh : rig = (mount 3 : Ceremony ℚ).rig) {f : Frame ℚ}
    (opens : f.pouring = true) (length : f.dtMs = 16) (flow : f.tier.flow = 24) :
    Grounded (stepRig rig f) ∧ (stepRig rig f).holdMs = 16 := by
  have opened : takes rig f = true := by simp [takes,opens,fresh,mount,createRig]
  have short : (takeStream f (ease f rig)).spawnAcc < 1 := by
    norm_num [takeStream,ease,fresh,mount,createRig,frameS,length,flow,MAX_FRAME_MS]
  have down : Grounded (pour f (ease f rig)) := by
    rw [pourShort opened short,fresh]
    exact fun i up => lt_irrefl _ up.1
  refine ⟨(groundedStep down).1,?_⟩
  rw [(stepClocks ..).1,if_pos opened]
  norm_num [takeStream,fresh,mount,createRig,length,ClientPipeline.SIM.maxPourMs]

omit [IsStrictOrderedRing K] in
theorem frameOpen {app : App K} {m : Ceremony K} {now width height : K} {pow : K → K → K}
    (phase : app.phase = .pouring)
    (running : (stepRig m.rig (frameOf app m now width height pow)).finished = false) :
    frame app m now width height pow = { app with view := .ceremony { m with
      rig := stepRig m.rig (frameOf app m now width height pow), last := now } } := by
  unfold frame
  simp [running,phase]

omit [IsStrictOrderedRing K] in
theorem frameSettles {app : App K} {m : Ceremony K} {now width height : K} {pow : K → K → K}
    (phase : app.phase = .settling) (shut : m.pouring = false)
    (still : Still (stepRig m.rig (frameOf app m now width height pow))) :
    frame app m now width height pow = { app with phase := .settled, view := .ceremony { m with
      rig := stepRig m.rig (frameOf app m now width height pow), last := now } } := by
  unfold frame
  simp [phase,shut,stillSettled still]

def poured : Ceremony ℚ := { mount 3 with startedAt := some 1785628800000, pouring := true }

def opened : App ℚ := { (start : App ℚ) with view := .ceremony poured, phase := .pouring }

def framedOnce (pow : ℚ → ℚ → ℚ) : Ceremony ℚ :=
  { poured with rig := stepRig poured.rig (frameOf opened poured 16 506 900 pow), last := 16 }

def closed (pow : ℚ → ℚ → ℚ) : App ℚ :=
  { (start : App ℚ) with view := .ceremony { framedOnce pow with pouring := false }, phase := .settling }

theorem framedRig (pow : ℚ → ℚ → ℚ) :
    Grounded (framedOnce pow).rig ∧ (framedOnce pow).rig.holdMs = 16 := by
  refine shortPour rfl rfl rfl ?_
  change ((ClientPipeline.tierFlow 3 : ℚ) : ℚ) = 24
  rfl

theorem closedSettles (pow : ℚ → ℚ → ℚ) : ∃ m : Ceremony ℚ,
    step (step (step opened (.frame 16 506 900 pow)) .closeStream) (.frame 32 506 900 pow) =
      { (start : App ℚ) with phase := .settled, view := .ceremony m } := by
  obtain ⟨grounded,hold⟩ := framedRig pow
  have running : (framedOnce pow).rig.finished = false := by
    unfold framedOnce at hold ⊢
    rw [stepFinished,hold]
    norm_num [ClientPipeline.SIM.maxPourMs]
  have first : step opened (.frame 16 506 900 pow) = { opened with view := .ceremony (framedOnce pow) } :=
    frameOpen rfl running
  have second : step { opened with view := .ceremony (framedOnce pow) } .closeStream = closed pow := rfl
  have still : Still (stepRig (framedOnce pow).rig
      (frameOf (closed pow) { framedOnce pow with pouring := false } 32 506 900 pow)) :=
    groundedSettles grounded (hold ▸ by norm_num) rfl
  rw [first,second]
  exact ⟨_,frameSettles rfl rfl still⟩

theorem revisitedUnpoured (pow : ℚ → ℚ → ℚ) : ¬ Honest (reach (revisited pow ++ [.ceremonyTab])) := by
  obtain ⟨m,settled⟩ := closedSettles pow
  have first : step (start : App ℚ) (.openStream 1785628800000) = opened := rfl
  have away : (reach (revisited pow)).1 =
      { (start : App ℚ) with phase := .settled, view := .collection } := by
    rw [reachApp,revisited]
    simp only [List.foldl_cons,List.foldl_nil,first,settled]
    rfl
  have disturbance : ¬ Undisturbed (reach (revisited pow)).1 .ceremonyTab := by
    rw [away]
    intro quiet
    obtain ⟨screen,view⟩ := quiet rfl rfl
    exact nomatch view
  rw [reachNext]
  exact disturbed disturbance

theorem mintedUnpoured : ¬ Honest (reach (revisited (fun _ _ => 1) ++ [.ceremonyTab])) :=
  revisitedUnpoured _

end MoltenPour.SealGate
