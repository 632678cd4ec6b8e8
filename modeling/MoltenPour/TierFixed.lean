import MoltenPour.SealGate
import MoltenPour.Runs

/-! "The tier is fixed the moment the stream opens": the rows and the arrow keys
ask whether the vessel is still empty, the answer to /api/config does not. -/
namespace MoltenPour.TierFixed
open NumberFormat Runs MetaballRig PourScreen
variable {K : Type} [Field K] [LinearOrder K] [FloorRing K] [SquareRoot K]

def watchTier (s : App K × Option ℤ) (event : Event K) : App K × Option ℤ :=
  let next := step s.1 event
  (next,if next.phase = .idle then none else s.2.or (some next.tierIndex))

def reachTier (events : List (Event K)) : App K × Option ℤ := events.foldl watchTier (start,none)

structure Fixed (s : App K × Option ℤ) : Prop where
  tier : ∀ t, s.2 = some t → s.1.tierIndex = t
  flow : ∀ m, s.1.view = .ceremony m → m.pouring = true → ∃ t, s.2 = some t ∧
    ∀ now width height pow, (frameOf s.1 m now width height pow).tier = tierAt t
  request : ∀ now req, request s.1 now = some req → s.2 = some req.tierIndex

/- A ceiling below the tier does not arrive while something is poured. -/
def Unlowered (s : App K × Option ℤ) : Event K → Prop
  | .config max => s.1.phase ≠ .idle → s.1.tierIndex ≤ max
  | _ => True

def Streaming (app : App K) : Prop := ∀ m, app.view = .ceremony m → m.pouring = true → app.phase = .pouring

structure Tracked (s : App K × Option ℤ) : Prop where
  empty : s.2 = none ↔ s.1.phase = .idle
  streaming : Streaming s.1

omit [Field K] [LinearOrder K] [FloorRing K] [SquareRoot K] in
theorem streamingUnder {app shell : App K} (streaming : Streaming app) (view : shell.view = app.view)
    (phase : shell.phase = app.phase) : Streaming shell :=
  fun m here pouring => phase.trans (streaming m (view ▸ here) pouring)

omit [Field K] [LinearOrder K] [FloorRing K] [SquareRoot K] in
theorem streamingShut {app : App K} (shut : ∀ m, app.view = .ceremony m → m.pouring = false) :
    Streaming app := by
  intro m here pouring
  rw [shut m here] at pouring
  contradiction

theorem streamingCeremony {app : App K} {m : Ceremony K} (streaming : Streaming app)
    (here : app.view = .ceremony m) (event : Event K) : Streaming (step app event) := by
  cases event with
  | openStream now =>
    simp only [step,here,openStream]
    split
    · exact streaming
    · exact fun _ _ _ => rfl
  | closeStream =>
    simp only [step,here,closeStream]
    split
    · exact streaming
    · refine streamingShut fun n there => ?_
      cases there
      rfl
  | steer lean =>
    simp only [step,here]
    intro n there pouring
    cases there
    exact streaming m here pouring
  | frame now width height pow =>
    simp only [step,here]
    intro n there pouring
    cases there
    obtain ⟨before,still⟩ := (SealGate.framed app m (frameOf app m now width height pow)).narrowed pouring
    exact still (streaming m here before)
  | discard =>
    simp only [step,here,PourScreen.discard]
    split
    · exact streaming
    · refine streamingShut fun n there => ?_
      cases there
      rfl
  | traverse index =>
    simp only [step,here]
    split
    · exact streamingUnder streaming here.symm rfl
    · exact streaming
  | arrow down =>
    simp only [step,here]
    split
    · exact streamingUnder streaming here.symm rfl
    · exact streaming
  | mint =>
    simp only [step,here]
    split
    · exact streamingUnder streaming here.symm rfl
    · exact streaming
  | config max =>
    simp only [step]
    exact streamingUnder streaming rfl rfl
  | ceremonyTab => simpa only [step,here] using streaming
  | select => simpa only [step,here] using streaming
  | collectionTab =>
    simp only [step]
    exact streamingShut (by simp)
  | certificateTab =>
    simp only [step]
    split
    · exact streamingShut (by simp)
    · exact streaming
  | minted =>
    simp only [step]
    split
    · exact streamingShut (by simp)
    · exact streaming
  | mintFailed =>
    simp only [step]
    split
    · exact streamingUnder streaming rfl rfl
    · exact streaming

theorem streamingAway {app : App K} (away : ∀ m, app.view ≠ .ceremony m) (event : Event K) :
    Streaming (step app event) := by
  refine streamingShut fun n there => ?_
  obtain ⟨-,fresh⟩ := awayOpens away there
  exact fresh ▸ rfl

theorem trackedStep {s : App K × Option ℤ} {event : Event K} (tracked : Tracked s) :
    Tracked (watchTier s event) := by
  constructor
  · unfold watchTier
    dsimp only
    split
    · next idle => simpa using idle
    · next poured =>
      cases s.2 <;> simpa using poured
  · cases view : s.1.view with
    | ceremony m => exact streamingCeremony tracked.streaming view event
    | collection => exact streamingAway (by simp [view]) event
    | certificate => exact streamingAway (by simp [view]) event

omit [SquareRoot K] in
theorem fixedIff {s : App K × Option ℤ} (tracked : Tracked s) :
    Fixed s ↔ ∀ t, s.2 = some t → s.1.tierIndex = t := by
  refine ⟨Fixed.tier,fun tier => ⟨tier,?flow,?request⟩⟩
  case flow =>
    intro m here pouring
    have phase := tracked.streaming m here pouring
    cases known : s.2 with
    | none => exact absurd (phase.symm.trans (tracked.empty.mp known)) (by decide)
    | some t =>
      refine ⟨t,rfl,fun now width height pow => ?_⟩
      exact congrArg tierAt (tier t known)
  case request =>
    intro now req posted
    unfold PourScreen.request at posted
    split at posted
    · split at posted
      · next ready =>
        cases posted
        cases known : s.2 with
        | none =>
          have settled := ((SealGate.enabledIff s.1).mp ready).1
          exact absurd (settled.symm.trans (tracked.empty.mp known)) (by decide)
        | some t => exact congrArg some (tier t known).symm
      · contradiction
    · contradiction

theorem tierKept {app : App K} (poured : app.phase ≠ .idle) {event : Event K}
    (other : ∀ max, event ≠ .config max) : (step app event).tierIndex = app.tierIndex := by
  cases event with
  | config max => exact absurd rfl (other max)
  | openStream now =>
    cases view : app.view with
    | ceremony m =>
      simp only [step,view,openStream]
      split <;> rfl
    | _ => simp only [step,view]
  | closeStream =>
    cases view : app.view with
    | ceremony m =>
      simp only [step,view,closeStream]
      split <;> rfl
    | _ => simp only [step,view]
  | discard =>
    cases view : app.view with
    | ceremony m =>
      simp only [step,view,PourScreen.discard]
      split <;> rfl
    | _ => simp only [step,view]
  | mint =>
    cases view : app.view with
    | ceremony m =>
      simp only [step,view]
      split <;> rfl
    | _ => simp only [step,view]
  | traverse index => cases view : app.view <;> simp [step,view,poured]
  | arrow down => cases view : app.view <;> simp [step,view,poured]
  | frame now width height pow => cases view : app.view <;> simp [step,view,frame]
  | certificateTab =>
    simp only [step]
    split <;> rfl
  | minted =>
    simp only [step]
    split <;> rfl
  | mintFailed =>
    simp only [step]
    split <;> rfl
  | _ => cases view : app.view <;> simp [step,view]

theorem fixedStep {s : App K × Option ℤ} {event : Event K} (tracked : Tracked s) (fixed : Fixed s) :
    Fixed (watchTier s event) ↔ Unlowered s event := by
  rw [fixedIff (trackedStep tracked)]
  unfold watchTier
  dsimp only
  by_cases ceiling : ∃ max, event = .config max
  case pos =>
    obtain ⟨max,rfl⟩ := ceiling
    simp only [step,Unlowered]
    cases known : s.2 with
    | none => simp [tracked.empty.mp known]
    | some t =>
      have poured : s.1.phase ≠ .idle := fun idle => by simp [tracked.empty.mpr idle] at known
      have tier := fixed.tier t known
      simp [poured,tier]
  case neg =>
    have other : ∀ max, event ≠ .config max := fun max same => ceiling ⟨max,same⟩
    refine iff_of_true (fun t opened => ?_) ?_
    · split at opened
      · contradiction
      · cases known : s.2 with
        | none =>
          rw [known] at opened
          exact Option.some.inj opened
        | some u =>
          have poured : s.1.phase ≠ .idle := fun idle => by simp [tracked.empty.mpr idle] at known
          rw [known] at opened
          have same : u = t := Option.some.inj opened
          exact (tierKept poured other).trans (same ▸ fixed.tier u known)
    · cases event with
      | config max => exact absurd rfl (other max)
      | _ => trivial

theorem tierFixedIff (events : List (Event K)) :
    (∀ seen rest, events = seen ++ rest → Fixed (reachTier seen)) ↔
    ∀ seen event rest, events = seen ++ event::rest → Unlowered (reachTier seen) event := by
  have first : Tracked ((start : App K),(none : Option ℤ)) := by
    refine ⟨iff_of_true rfl rfl,streamingShut fun m here => ?_⟩
    cases here
    rfl
  exact alwaysIff Tracked Fixed Unlowered (fun tracked => trackedStep tracked)
    (fun tracked fixed => fixedStep tracked fixed) first ((fixedIff first).mpr (by simp)) events

theorem tierLowered : ¬ Fixed (reachTier [.openStream 1785628800000,.config (0 : ℤ)] : App ℚ × Option ℤ) := by
  intro fixed
  exact absurd (fixed.tier 3 rfl) (by decide)

end MoltenPour.TierFixed
