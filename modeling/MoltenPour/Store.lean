import MoltenPour.Pour
import MoltenPour.KeyedLog

/-! api/pour/store.go: what a Store answers. Below the interface stands the
ledger both stores are compared with: one list of records, keyed by pour-start. -/
namespace MoltenPour.Store
open NumberFormat Artifact Pour KeyedLog

structure MintKey where
  ownerId : String
  timestampMs : ℤ
  tierIndex : ℤ
  deriving DecidableEq, Repr

structure Posted (K : Type) where
  ownerId : String
  req : Request K
  now : Time

inductive Op (K : Type) where
  | append (posted : Posted K)
  | get (id ownerId : String)
  | list (ownerId : String)

def Op.owner {K : Type} : Op K → String
  | .append posted => posted.ownerId
  | .get _ ownerId => ownerId
  | .list ownerId => ownerId

inductive Answer (K : Type) where
  | appended (rec : Record K) (replayed : Bool)
  | found (rec : Record K)
  | listed (recs : List (Record K))
  | failed (err : PourError)
  deriving DecidableEq

def Answer.records {K : Type} : Answer K → List (Record K)
  | .appended rec _ => [rec]
  | .found rec => [rec]
  | .listed recs => recs
  | .failed _ => []

inductive Stage where
  | begin | lookup | position | insert | commit | query
  deriving DecidableEq

abbrev Faults := Stage → Bool

def noFaults : Faults := fun _ => false

/- An implementation of the interface; the stages its driver gives up at come first. -/
structure Backend (K : Type) where
  State : Type
  empty : State
  append : Faults → MintKey → (ℕ → Except PourError (Record K)) → State →
    Except PourError (Record K × Bool) × State
  get : Faults → String → String → State → Except PourError (Record K)
  list : Faults → String → State → Except PourError (List (Record K))

def answerOf {K : Type} : Except PourError (Record K × Bool) → Answer K
  | .ok (rec,replayed) => .appended rec replayed
  | .error err => .failed err

theorem answerFailed {K : Type} {result : Except PourError (Record K × Bool)} {err : PourError}
    (same : answerOf result = .failed err) : result = .error err := by
  cases result with
  | ok pair => cases same
  | error other =>
    cases same
    rfl

theorem answerAppended {K : Type} {result : Except PourError (Record K × Bool)} {rec : Record K}
    {replayed : Bool} (same : answerOf result = .appended rec replayed) : result = .ok (rec,replayed) := by
  cases result with
  | ok pair =>
    cases same
    rfl
  | error err => cases same

def foundOf {K : Type} : Except PourError (Record K) → Answer K
  | .ok rec => .found rec
  | .error err => .failed err

def listedOf {K : Type} : Except PourError (List (Record K)) → Answer K
  | .ok recs => .listed recs
  | .error err => .failed err

def startKeys (K : Type) : Keys (String × ℤ) ℤ (Record K) :=
  ⟨fun r => (r.ownerId,r.timestampMs),Record.tierIndex,Record.ledgerPosition⟩

def idKeys (K : Type) : Keys String ℤ (Record K) := ⟨Record.id,Record.tierIndex,Record.ledgerPosition⟩

section Ledger
variable {K : Type} [LinearOrder K] [Zero K] [Format K]

namespace Posted

def key (p : Posted K) : MintKey := ⟨p.ownerId,p.req.timestampMs,p.req.tierIndex⟩

def mint (p : Posted K) (position : ℕ) : Except PourError (Record K) :=
  Pour.mint p.req position p.ownerId p.now

def start (p : Posted K) : String × ℤ := (p.ownerId,p.req.timestampMs)

def call (p : Posted K) : Call (startKeys K) PourError where
  key := p.start
  tag := p.req.tierIndex
  make := p.mint
  honest ok :=
    have minted := mintMinted ok
    ⟨Prod.ext minted.owner minted.timestamp,minted.tier,minted.place⟩

end Posted

def Backend.serve (B : Backend K) (faults : Faults) : Op K → B.State → Answer K × B.State
  | .append posted,s =>
      let done := B.append faults posted.key posted.mint s
      (answerOf done.1,done.2)
  | .get id ownerId,s => (foundOf (B.get faults id ownerId s),s)
  | .list ownerId,s => (listedOf (B.list faults ownerId s),s)

def outcome : Outcome (Record K) PourError → Answer K
  | .fresh rec => .appended rec false
  | .replay rec => .appended rec true
  | .conflict => .failed .conflict
  | .refused err => .failed err

def ledger : Op K → List (Record K) → Answer K × List (Record K)
  | .append posted,log =>
      let done := KeyedLog.append log posted.call
      (outcome done.1,done.2)
  | .get id ownerId,log =>
      match log.find? fun r => r.id = id ∧ r.ownerId = ownerId with
      | some rec => (.found rec,log)
      | none => (.failed .notFound,log)
  | .list ownerId,log => (.listed (log.filter fun r => r.ownerId = ownerId).reverse,log)

structure Certified (r : Record K) : Prop where
  id : r.id = recordId r.seed r.ledgerPosition
  serial : r.serial = serialOf r.ledgerPosition r.seed
  violations : r.violations ≠ none
  telemetry : ServerPipeline.FiniteTelemetry r.telemetry
  score : r.rarityScore.isFinite = true
  mass : r.massGrams.isFinite = true

theorem mintCertified {req : Request K} {position : ℕ} {ownerId : String} {now : Time} {r : Record K}
    (ok : mint req position ownerId now = .ok r) : Certified r := by
  have minted := mintMinted ok
  have finite : ServerPipeline.FiniteTelemetry r.telemetry := by
    rw [minted.telemetry]
    exact ServerPipeline.clampFinite _ _ (wallClockNonneg ..)
  refine ⟨?id,?serial,?violations,finite,?score,?mass⟩
  case id => rw [minted.id,minted.place]
  case serial => rw [minted.serial,minted.place]
  case violations =>
    rw [minted.violations]
    exact Option.some_ne_none _
  case score =>
    rw [minted.score]
    exact ServerPipeline.rarityScoreFinite finite r.tierIndex
  case mass =>
    rw [minted.mass]
    exact Num.mulFinite finite.droplets (Num.literalFinite massPerDropletG)

structure Sound (log : List (Record K)) : Prop where
  kept : Kept (startKeys K) log
  certified : ∀ r ∈ log, Certified r

omit [Format K] in
theorem soundEmpty : Sound ([] : List (Record K)) := ⟨keptEmpty,by simp⟩

theorem soundAppend {log log' : List (Record K)} (sound : Sound log) {posted : Posted K}
    {o : Outcome (Record K) PourError} (done : KeyedLog.append log posted.call = (o,log')) :
    Sound log' := by
  refine ⟨appendKept sound.kept done,?_⟩
  cases appendCases done with
  | fresh free made =>
    intro r mem
    cases List.mem_append.mp mem with
    | inl old => exact sound.certified r old
    | inr new => exact List.mem_singleton.mp new ▸ mintCertified made
  | replay => exact sound.certified
  | conflict => exact sound.certified
  | refused => exact sound.certified

theorem soundServe {log : List (Record K)} (sound : Sound log) (op : Op K) : Sound (ledger op log).2 := by
  cases op with
  | append posted => exact soundAppend sound rfl
  | get id ownerId =>
    unfold ledger
    dsimp only
    split <;> exact sound
  | list ownerId => exact sound

omit [Format K] in
theorem idsDistinct {log : List (Record K)} (sound : Sound log) : (log.map Record.id).Nodup := by
  refine nodupThrough sound.kept Record.id fun a ha b hb same => ?_
  rw [(sound.certified a ha).id,(sound.certified b hb).id] at same
  exact recordIdInj same

omit [Format K] in
theorem serialsDistinct {log : List (Record K)} (sound : Sound log) :
    (log.map Record.serial).Nodup := by
  refine nodupThrough sound.kept Record.serial fun a ha b hb same => ?_
  rw [(sound.certified a ha).serial,(sound.certified b hb).serial] at same
  exact serialInj same

omit [Format K] in
theorem placeFree {log : List (Record K)} (sound : Sound log) {r : Record K}
    (place : r.ledgerPosition = log.length + 1) : ∀ f ∈ log, f.ledgerPosition ≠ r.ledgerPosition := by
  intro f mem same
  have numbered : log.map Record.ledgerPosition = List.range' 1 log.length := sound.kept.places
  have listed : f.ledgerPosition ∈ log.map Record.ledgerPosition := List.mem_map_of_mem mem
  rw [numbered,List.mem_range'_1] at listed
  omega

omit [Format K] in
theorem idFree {log : List (Record K)} (sound : Sound log) {r : Record K} (certified : Certified r)
    (place : r.ledgerPosition = log.length + 1) : ∀ f ∈ log, f.id ≠ r.id := by
  intro f mem same
  rw [(sound.certified f mem).id,certified.id] at same
  exact placeFree sound place f mem (recordIdInj same)

omit [Format K] in
theorem serialFree {log : List (Record K)} (sound : Sound log) {r : Record K} (certified : Certified r)
    (place : r.ledgerPosition = log.length + 1) : ∀ f ∈ log, f.serial ≠ r.serial := by
  intro f mem same
  rw [(sound.certified f mem).serial,certified.serial] at same
  exact placeFree sound place f mem (serialInj same)

omit [Format K] in
theorem idKept {log : List (Record K)} (sound : Sound log) : Kept (idKeys K) log :=
  ⟨sound.kept.places,idsDistinct sound⟩

omit [Format K] in
theorem getById {log : List (Record K)} (sound : Sound log) (id ownerId : String) :
    (log.find? fun r => r.id = id ∧ r.ownerId = ownerId) =
      (holder (idKeys K) log id).filter (fun r => r.ownerId = ownerId) :=
  holderFilter (idKept sound) id (fun r => r.ownerId = ownerId)

theorem ledgerAnswered (op : Op K) (log : List (Record K)) :
    ∀ r ∈ (ledger op log).1.records, r ∈ (ledger op log).2 := by
  intro r shown
  cases op with
  | append posted =>
    simp only [ledger] at shown ⊢
    generalize done : KeyedLog.append log posted.call = result at shown ⊢
    obtain ⟨o,log'⟩ := result
    cases appendCases done with
    | fresh => exact List.mem_append_right log shown
    | replay stored =>
      have same := List.mem_singleton.mp shown
      exact same ▸ stored
    | conflict => contradiction
    | refused => contradiction
  | get id ownerId =>
    simp only [ledger] at shown ⊢
    cases found : log.find? fun r => r.id = id ∧ r.ownerId = ownerId with
    | none =>
      rw [found] at shown
      contradiction
    | some rec =>
      rw [found] at shown
      have same := List.mem_singleton.mp shown
      have stored := List.mem_of_find?_eq_some found
      exact same ▸ stored
  | list ownerId => exact List.mem_of_mem_filter (List.mem_reverse.mp shown)

theorem ledgerOwned (op : Op K) (log : List (Record K)) :
    ∀ r ∈ (ledger op log).1.records, r.ownerId = op.owner := by
  intro r shown
  cases op with
  | append posted =>
    simp only [ledger] at shown
    generalize done : KeyedLog.append log posted.call = result at shown
    obtain ⟨o,log'⟩ := result
    cases appendCases done with
    | fresh free made =>
      cases List.mem_singleton.mp shown
      exact (mintMinted made).owner
    | replay stored key =>
      cases List.mem_singleton.mp shown
      exact congrArg Prod.fst key
    | conflict => contradiction
    | refused => contradiction
  | get id ownerId =>
    simp only [ledger] at shown
    cases found : log.find? fun r => r.id = id ∧ r.ownerId = ownerId with
    | none =>
      rw [found] at shown
      contradiction
    | some rec =>
      rw [found] at shown
      cases List.mem_singleton.mp shown
      have same := List.find?_some found
      exact (of_decide_eq_true same).2
  | list ownerId =>
    have mine := List.of_mem_filter (List.mem_reverse.mp shown)
    exact of_decide_eq_true mine

theorem ledgerNext (op : Op K) (log : List (Record K)) :
    (ledger op log).2 = log ∨ ∃ posted rec, op = .append posted ∧
      posted.mint (log.length + 1) = .ok rec ∧ (ledger op log).2 = log ++ [rec] := by
  cases op with
  | append posted =>
    simp only [ledger]
    generalize done : KeyedLog.append log posted.call = result
    obtain ⟨o,log'⟩ := result
    cases appendCases done with
    | fresh free made => exact .inr ⟨posted,_,rfl,made,rfl⟩
    | replay => exact .inl rfl
    | conflict => exact .inl rfl
    | refused => exact .inl rfl
  | get id ownerId =>
    unfold ledger
    dsimp only
    split <;> exact .inl rfl
  | list ownerId => exact .inl rfl

/- A backend that keeps such a ledger: it answers as the ledger does, answers a
taken key without asking for a mint, and a fault costs no more than the answer. -/
structure Refines (B : Backend K) (agrees : B.State → List (Record K) → Prop) : Prop where
  start : agrees B.empty []
  sound : ∀ {s log}, agrees s log → Sound log
  serve : ∀ {s log} (op : Op K), agrees s log →
    (B.serve noFaults op s).1 = (ledger op log).1 ∧ agrees (B.serve noFaults op s).2 (ledger op log).2
  taken : ∀ {s log existing} (key : MintKey) (mint : ℕ → Except PourError (Record K)), agrees s log →
    holder (startKeys K) log (key.ownerId,key.timestampMs) = some existing →
    B.append noFaults key mint s =
      (if existing.tierIndex ≠ key.tierIndex then .error .conflict else .ok (existing,true),s)
  faults : ∀ (faults : Faults) (op : Op K) (s : B.State), B.serve faults op s = B.serve noFaults op s ∨
    ∃ context, B.serve faults op s = (.failed (.failure context),s)

theorem Refines.shows {B : Backend K} {agrees : B.State → List (Record K) → Prop}
    (refines : Refines B agrees) {s : B.State} {log : List (Record K)} (agreed : agrees s log)
    (faults : Faults) (op : Op K) :
    ∀ r ∈ (B.serve faults op s).1.records, r.ownerId = op.owner ∧ r ∈ (ledger op log).2 := by
  intro r shown
  cases refines.faults faults op s with
  | inr failed =>
    obtain ⟨context,failed⟩ := failed
    rw [failed] at shown
    contradiction
  | inl same =>
    rw [same,(refines.serve op agreed).1] at shown
    exact ⟨ledgerOwned op log r shown,ledgerAnswered op log r shown⟩

end Ledger
end MoltenPour.Store
