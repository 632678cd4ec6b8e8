import MoltenPour.Pour
import MoltenPour.MetaballRig

/-! app/App.tsx and app/ceremony/PourScreen.tsx as one state machine. The phase
and the seal belong to the shell; the rig, the open stream and the start of the
pour live in the mounted ceremony and go when it goes. An event is followed by
its render, so a frame reads the phase it began with. -/
namespace MoltenPour.PourScreen
open NumberFormat MetaballRig

inductive Phase where
  | idle | pouring | settling | settled
  deriving DecidableEq, Repr

structure Ceremony (K : Type) where
  rig : Rig K
  pouring : Bool
  startedAt : Option ℤ
  leanRef : K
  last : K

inductive View (K : Type) where
  | ceremony (screen : Ceremony K)
  | collection
  | certificate

structure App (K : Type) where
  view : View K
  phase : Phase
  sealing : Bool
  tierIndex : ℤ
  maxTierIndex : ℤ
  current : Bool

inductive Event (K : Type) where
  | openStream (now : ℤ)
  | closeStream
  | steer (lean : K)
  | frame (now width height : K) (pow : K → K → K)
  | discard
  | traverse (index : ℤ)
  | arrow (down : Bool)
  | config (maxTierIndex : ℤ)
  | ceremonyTab
  | collectionTab
  | certificateTab
  | select
  | mint
  | minted
  | mintFailed

variable {K : Type} [Field K] [LinearOrder K] [FloorRing K] [SquareRoot K]

def mount (tierIndex : ℤ) : Ceremony K :=
  ⟨createRig (tierAt tierIndex) (makeRandom DEFAULT_SEED),false,none,0,0⟩

def start : App K := ⟨.ceremony (mount 3),.idle,false,3,5,false⟩

def openStream (app : App K) (m : Ceremony K) (now : ℤ) : App K :=
  if app.phase = .settled ∨ m.rig.finished = true ∨ m.pouring = true then app
  else { app with
    view := .ceremony { m with startedAt := m.startedAt.or (some now), pouring := true }
    phase := .pouring }

def closeStream (app : App K) (m : Ceremony K) : App K :=
  if m.pouring = false then app
  else { app with view := .ceremony { m with pouring := false }, phase := .settling }

def discard (app : App K) (m : Ceremony K) : App K :=
  if app.phase = .idle then app
  else { app with
    view := .ceremony { m with pouring := false, startedAt := none, rig := resetRig m.rig }
    phase := .idle }

/- What the loop hands stepRig; a first frame has no length of its own. -/
def frameOf (app : App K) (m : Ceremony K) (now width height : K) (pow : K → K → K) : Frame K :=
  ⟨⟨m.pouring,m.leanRef,tierAt app.tierIndex⟩,if m.last = 0 then 16 else min (now - m.last) 100,
    width,height,pow⟩

def frame (app : App K) (m : Ceremony K) (now width height : K) (pow : K → K → K) : App K :=
  let rig := stepRig m.rig (frameOf app m now width height pow)
  let hardStop := rig.finished && !m.rig.finished && m.pouring
  let pouring := m.pouring && !hardStop
  let phase := if hardStop then .settling else app.phase
  { app with
    view := .ceremony { m with rig := rig, pouring := pouring, last := now }
    phase := if app.phase = .settling ∧ isSettled rig pouring = true then .settled else phase }

def enabled (app : App K) : Bool := app.phase == .settled && !app.sealing

def request (app : App K) (now : ℤ) : Option (Pour.Request K) :=
  match app.view with
  | .ceremony m =>
      if enabled app then some ⟨app.tierIndex,m.startedAt.getD now,telemetryOf m.rig⟩ else none
  | _ => none

def offered (app : App K) : ℤ := min (app.maxTierIndex + 1) 6

def arrowed (app : App K) (down : Bool) : ℤ :=
  (app.tierIndex + if down then 1 else offered app - 1).tmod (offered app)

def step (app : App K) (event : Event K) : App K :=
  match event,app.view with
  | .openStream now,.ceremony m => openStream app m now
  | .closeStream,.ceremony m => closeStream app m
  | .steer lean,.ceremony m => { app with view := .ceremony { m with leanRef := max (-1) (min 1 lean) } }
  | .frame now width height pow,.ceremony m => frame app m now width height pow
  | .discard,.ceremony m => discard app m
  | .traverse index,.ceremony _ =>
      if app.phase = .idle ∧ 0 ≤ index ∧ index ≤ app.maxTierIndex
      then { app with tierIndex := index } else app
  | .arrow down,.ceremony _ =>
      if app.phase = .idle then { app with tierIndex := arrowed app down } else app
  | .mint,.ceremony _ => if enabled app then { app with sealing := true } else app
  | .config max,_ => { app with maxTierIndex := max, tierIndex := min app.tierIndex max }
  | .ceremonyTab,.ceremony _ => app
  | .ceremonyTab,_ => { app with view := .ceremony (mount app.tierIndex) }
  | .collectionTab,_ => { app with view := .collection }
  | .certificateTab,_ => if app.current then { app with view := .certificate } else app
  | .select,.collection => { app with view := .certificate, current := true }
  | .minted,_ =>
      if app.sealing then { app with
        sealing := false, current := true, view := .certificate, phase := .idle } else app
  | .mintFailed,_ => if app.sealing then { app with sealing := false } else app
  | _,_ => app

/- When the stream was first asked for since the vessel was last empty, from the
events alone. -/
def pourStart (app : App K) (event : Event K) (began : Option ℤ) : Option ℤ :=
  match event,app.view with
  | .openStream now,.ceremony _ => began.or (some now)
  | .discard,.ceremony _ => if app.phase = .idle then began else none
  | .ceremonyTab,.ceremony _ => began
  | .ceremonyTab,_ => none
  | _,_ => began

def watch (s : App K × Option ℤ) (event : Event K) : App K × Option ℤ :=
  (step s.1 event,pourStart s.1 event s.2)

def reach (events : List (Event K)) : App K × Option ℤ := events.foldl watch (start,none)

theorem tabAway {app : App K} (away : ∀ m, app.view ≠ .ceremony m) (began : Option ℤ) :
    step app .ceremonyTab = { app with view := .ceremony (mount app.tierIndex) } ∧
      pourStart app .ceremonyTab began = none := by
  cases view : app.view with
  | ceremony m => exact absurd view (away m)
  | collection => simp [step,pourStart,view]
  | certificate => simp [step,pourStart,view]

theorem awayOpens {app : App K} (away : ∀ m, app.view ≠ .ceremony m) {event : Event K} {m : Ceremony K}
    (there : (step app event).view = .ceremony m) : event = .ceremonyTab ∧ mount app.tierIndex = m := by
  cases view : app.view with
  | ceremony n => exact absurd view (away n)
  | collection =>
    cases event with
    | ceremonyTab =>
      rw [(tabAway away none).1] at there
      cases there
      exact ⟨rfl,rfl⟩
    | _ => simp [step,view,apply_ite App.view,ite_eq_iff] at there
  | certificate =>
    cases event with
    | ceremonyTab =>
      rw [(tabAway away none).1] at there
      cases there
      exact ⟨rfl,rfl⟩
    | _ => simp [step,view,apply_ite App.view] at there

theorem reachApp (events : List (Event K)) : (reach events).1 = events.foldl step start :=
  (List.foldl_hom Prod.fst fun _ _ => rfl).symm

theorem reachNext (events : List (Event K)) (event : Event K) :
    reach (events ++ [event]) = watch (reach events) event := List.foldl_append ..

end MoltenPour.PourScreen
