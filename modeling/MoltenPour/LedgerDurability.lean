import MoltenPour.MemoryLedger
import MoltenPour.SqliteLedger
import MoltenPour.BinaryFormat

/-! Runs of a store: any operations of anyone, some of them lost to the driver.
A fresh record stays what every later operation at its pour-start is about. -/
namespace MoltenPour.LedgerDurability
open NumberFormat Pour KeyedLog Store Runs MemoryLedger SqliteLedger

inductive StoreKind where
  | memory
  | sqlite (json : Codec)

structure Event (K : Type) where
  faults : Faults
  op : Op K
  answer : Answer K

section Definitions
variable {K : Type} [LinearOrder K] [Zero K] [Format K]

def StoreKind.backend : StoreKind → Backend K
  | .memory => MemoryLedger.memory
  | .sqlite json => SqliteLedger.sqlite json

/- The records a store holds: a row that cannot be scanned is no record. -/
def StoreKind.records : (kind : StoreKind) → (kind.backend (K := K)).State → List (Record K)
  | .memory,s => MemoryStore.records s
  | .sqlite json,rows => List.filterMap (scanRow json) rows

def step (B : Backend K) (s : B.State) (event : Event K) (t : B.State) : Prop :=
  B.serve event.faults event.op s = (event.answer,t)

def freshAt (start : String × ℤ) : Event K → Bool
  | ⟨_,.append posted,.appended _ false⟩ => posted.start = start
  | _ => false

def outcomeOf : Answer K → Outcome (Record K) PourError
  | .appended rec false => .fresh rec
  | .appended rec true => .replay rec
  | .failed .conflict => .conflict
  | .failed err => .refused err
  | _ => .refused .notFound

def callsOf (event : Event K) : History (startKeys K) PourError :=
  match event.op with
  | .append posted => [(posted.call,outcomeOf event.answer)]
  | _ => []

end Definitions

variable {K : Type} [LinearOrder K] [Zero K] [Format K]

theorem kindRefines (kind : StoreKind) : ∃ agrees, Refines (kind.backend (K := K)) agrees := by
  cases kind with
  | memory => exact ⟨Indexes,memoryRefines⟩
  | sqlite json => exact ⟨Holds json,sqliteRefines json⟩

theorem kindHolds (kind : StoreKind) : ∃ agrees, Refines (kind.backend (K := K)) agrees ∧
    (∀ {s log}, agrees s log → kind.records s = log) ∧
    ∀ {s t log}, agrees s log → agrees t log → s = t := by
  cases kind with
  | memory => exact ⟨Indexes,memoryRefines,fun indexes => indexes.records,indexesOnly⟩
  | sqlite json =>
    refine ⟨Holds json,sqliteRefines json,?_,fun left right => left.2.trans right.2.symm⟩
    rintro rows log ⟨sound,rfl⟩
    have scanned : ∀ r ∈ log, scanRow json (rowOf json r) = some r :=
      fun r mem => scanRowOf json (sound.certified r mem)
    have kept : log.filterMap (scanRow json ∘ rowOf json) = log.filterMap some :=
      List.filterMap_congr scanned
    exact List.filterMap_map.trans (kept.trans List.filterMap_some)

theorem outcomeBack {log log' : List (Record K)} {posted : Posted K} {o : Outcome (Record K) PourError}
    (done : append log posted.call = (o,log')) : outcomeOf (outcome o) = o := by
  cases appendCases done with
  | fresh => rfl
  | replay => rfl
  | conflict => rfl
  | refused free failed =>
    obtain ⟨detail,rfl⟩ := mintError failed
    rfl

theorem freshCount (history : List (Event K)) (start : String × ℤ) :
    (history.flatMap callsOf).countP (KeyedLog.freshAt start) = history.countP (freshAt start) := by
  induction history with
  | nil => rfl
  | cons event rest ih =>
    obtain ⟨faults,op,answer⟩ := event
    have head : (callsOf (K := K) ⟨faults,op,answer⟩).countP (KeyedLog.freshAt start) =
        [(⟨faults,op,answer⟩ : Event K)].countP (freshAt start) := by
      cases op with
      | append posted =>
        cases answer with
        | appended rec replayed => cases replayed <;> rfl
        | found rec => rfl
        | listed recs => rfl
        | failed err => cases err <;> rfl
      | get id ownerId => rfl
      | list ownerId => rfl
    rw [List.flatMap_cons,List.countP_append,head,ih,← List.countP_append]
    rfl

section Run
variable {B : Backend K} {agrees : B.State → List (Record K) → Prop} (refines : Refines B agrees)
include refines

theorem stepServed {s t : B.State} {event : Event K} {log : List (Record K)} (agreed : agrees s log)
    (now : step B s event t) : ∃ log', Run Served log (callsOf event) log' ∧ agrees t log' := by
  obtain ⟨faults,op,answer⟩ := event
  unfold step at now
  cases refines.faults faults op s with
  | inl same =>
    obtain ⟨answered,next⟩ := refines.serve op agreed
    rw [same] at now
    rw [now] at answered next
    cases op with
    | append posted =>
      generalize done : append log posted.call = result at answered next
      obtain ⟨o,log'⟩ := result
      simp only [ledger,done] at answered next
      subst answered
      refine ⟨log',?_,next⟩
      simp only [callsOf,outcomeBack done]
      exact .single (.served done)
    | get id ownerId =>
      have still : (ledger (.get id ownerId) log).2 = log := by
        unfold ledger
        dsimp only
        split <;> rfl
      exact ⟨log,.rest,still ▸ next⟩
    | list ownerId => exact ⟨log,.rest,next⟩
  | inr failed =>
    obtain ⟨context,failed⟩ := failed
    rw [failed] at now
    cases now
    cases op with
    | append posted => exact ⟨log,.single (.failed log posted.call (.failure context)),agreed⟩
    | get id ownerId => exact ⟨log,.rest,agreed⟩
    | list ownerId => exact ⟨log,.rest,agreed⟩

theorem runServed {s t : B.State} {history : List (Event K)} {log : List (Record K)}
    (agreed : agrees s log) (run : Run (step B) s history t) :
    ∃ log', Run Served log (history.flatMap callsOf) log' ∧ agrees t log' :=
  run.simulate (fun agreed now => stepServed refines agreed now) agreed

omit refines in
theorem freshCalled {history : List (Event K)} {faults : Faults} {posted : Posted K} {rec : Record K}
    (minted : ⟨faults,.append posted,.appended rec false⟩ ∈ history) :
    (posted.call,Outcome.fresh rec) ∈ history.flatMap callsOf :=
  List.mem_flatMap.mpr ⟨_,minted,List.mem_singleton.mpr rfl⟩

theorem freshRecord {history : List (Event K)} {state : B.State} {faults : Faults} {posted : Posted K}
    {rec : Record K} (run : Run (step B) B.empty history state)
    (minted : ⟨faults,.append posted,.appended rec false⟩ ∈ history) :
    ∃ log, agrees state log ∧ rec ∈ log ∧ (startKeys K).key rec = posted.start := by
  obtain ⟨log,served,agreed⟩ := runServed refines refines.start run
  obtain ⟨stored,key⟩ := runFreshStored served (freshCalled minted)
  exact ⟨log,agreed,stored,key⟩

theorem freshExactlyOnce {history : List (Event K)} {state : B.State} {faults : Faults}
    {posted : Posted K} {rec : Record K} (run : Run (step B) B.empty history state)
    (minted : ⟨faults,.append posted,.appended rec false⟩ ∈ history) :
    history.countP (freshAt posted.start) = 1 := by
  obtain ⟨log,served,-⟩ := runServed refines refines.start run
  rw [← freshCount]
  exact freshOnce served (freshCalled minted)

theorem recordListed {state : B.State} {log : List (Record K)} (agreed : agrees state log)
    {rec : Record K} (stored : rec ∈ log) :
    ∃ recs, B.list noFaults rec.ownerId state = .ok recs ∧ recs.count rec = 1 := by
  have sound := refines.sound agreed
  have answer := (refines.serve (.list rec.ownerId) agreed).1
  have distinct : log.Nodup := .of_map _ (placesDistinct sound.kept)
  cases listed : B.list noFaults rec.ownerId state with
  | error err => simp [Backend.serve,listed,listedOf,ledger] at answer
  | ok recs =>
    simp only [Backend.serve,listed,listedOf,ledger,Answer.listed.injEq] at answer
    refine ⟨recs,rfl,?_⟩
    subst answer
    refine List.count_eq_one_of_mem (List.nodup_reverse.mpr (distinct.filter _)) ?_
    simpa using stored

theorem recordFound {state : B.State} {log : List (Record K)} (agreed : agrees state log)
    {rec : Record K} (stored : rec ∈ log) : B.get noFaults rec.id rec.ownerId state = .ok rec := by
  have sound := refines.sound agreed
  have answer := (refines.serve (.get rec.id rec.ownerId) agreed).1
  have held := holderStored (idKept sound) stored
  have key : (idKeys K).key rec = rec.id := rfl
  rw [key] at held
  simp only [ledger,getById sound,held] at answer
  cases found : B.get noFaults rec.id rec.ownerId state with
  | error err => simp [Backend.serve,found,foundOf,Option.filter] at answer
  | ok r =>
    simp only [Backend.serve,found,foundOf,Option.filter] at answer
    simpa using answer

theorem failedMintFree {s t : B.State} {log : List (Record K)} {faults : Faults} {posted : Posted K}
    {detail : String} (agreed : agrees s log)
    (now : step B s ⟨faults,.append posted,.failed (.validation detail)⟩ t) :
    agrees t log ∧ ∀ r ∈ log, (startKeys K).key r ≠ posted.start := by
  unfold step at now
  cases refines.faults faults (.append posted) s with
  | inr failed =>
    obtain ⟨context,failed⟩ := failed
    rw [failed] at now
    cases now
  | inl same =>
    obtain ⟨answered,next⟩ := refines.serve (.append posted) agreed
    rw [same] at now
    rw [now] at answered next
    generalize done : append log posted.call = result at answered next
    obtain ⟨o,log'⟩ := result
    simp only [ledger,done] at answered next
    cases appendCases done with
    | fresh => cases answered
    | replay => cases answered
    | conflict => cases answered
    | refused free => exact ⟨next,free⟩

theorem freeMints {state : B.State} {log : List (Record K)} (agreed : agrees state log)
    {posted : Posted K} (free : ∀ r ∈ log, (startKeys K).key r ≠ posted.start)
    (accepted : Accepted posted.req posted.now) :
    ∃ rec, (B.serve noFaults (.append posted) state).1 = .appended rec false := by
  obtain ⟨rec,made,-⟩ := mintAccepted accepted (log.length + 1) posted.ownerId
  have fresh : append log posted.call = (.fresh rec,log ++ [rec]) := appendFree free made
  refine ⟨rec,?_⟩
  rw [(refines.serve (.append posted) agreed).1]
  simp only [ledger,fresh,outcome]

theorem freeRefuses {state : B.State} {log : List (Record K)} (agreed : agrees state log)
    {posted : Posted K} (free : ∀ r ∈ log, (startKeys K).key r ≠ posted.start)
    (refused : ¬ Accepted posted.req posted.now) :
    ∃ detail, (B.serve noFaults (.append posted) state).1 = .failed (.validation detail) := by
  obtain ⟨detail,failed⟩ := mintRefused refused (log.length + 1) posted.ownerId
  have kept : append log posted.call = (.refused (.validation detail),log) := appendRefused free failed
  refine ⟨detail,?_⟩
  rw [(refines.serve (.append posted) agreed).1]
  simp only [ledger,kept,outcome]

theorem failedMintMints {before after : List (Event K)} {state : B.State} {faults : Faults}
    {failed posted : Posted K} {detail : String}
    (run : Run (step B) B.empty
      (before ++ ⟨faults,.append failed,.failed (.validation detail)⟩ :: after) state)
    (none : ∀ event ∈ after, freshAt posted.start event = false)
    (same : posted.start = failed.start) (accepted : Accepted posted.req posted.now) :
    ∃ rec, (B.serve noFaults (.append posted) state).1 = .appended rec false := by
  rw [← List.singleton_append] at run
  obtain ⟨first,early,remaining⟩ := run.split
  obtain ⟨next,now,later⟩ := remaining.split
  obtain ⟨log,-,agreed⟩ := runServed refines refines.start early
  obtain ⟨agreed,free⟩ := failedMintFree refines agreed now.ofSingle
  obtain ⟨log',served,agreed⟩ := runServed refines agreed later
  have quiet : (after.flatMap callsOf).countP (KeyedLog.freshAt posted.start) = 0 :=
    (freshCount after posted.start).trans
      (List.countP_eq_zero.mpr fun event mem => by simp [none event mem])
  exact freeMints refines agreed (stillFree served (same ▸ free) quiet) accepted

end Run

theorem appendIsDurable (kind : StoreKind) :
    (∀ (history : List (Event K)) (state : (kind.backend (K := K)).State),
      Run (step kind.backend) kind.backend.empty history state →
      ∀ (faults : Faults) (posted : Posted K) (rec : Record K),
        ⟨faults,.append posted,.appended rec false⟩ ∈ history →
        (∀ (key : MintKey) (mint : ℕ → Except PourError (Record K)),
          key.ownerId = posted.ownerId → key.timestampMs = posted.req.timestampMs →
          kind.backend.append noFaults key mint state =
            (if key.tierIndex = rec.tierIndex then .ok (rec,true) else .error .conflict,state)) ∧
        kind.backend.get noFaults rec.id posted.ownerId state = .ok rec ∧
        (∃ recs, kind.backend.list noFaults posted.ownerId state = .ok recs ∧ recs.count rec = 1) ∧
        history.countP (freshAt posted.start) = 1) ∧
    ∀ (before after : List (Event K)) (state : (kind.backend (K := K)).State) (faults : Faults)
      (failed posted : Posted K) (detail : String),
      Run (step kind.backend) kind.backend.empty
        (before ++ ⟨faults,.append failed,.failed (.validation detail)⟩ :: after) state →
      (∀ event ∈ after, freshAt posted.start event = false) →
      posted.start = failed.start → Accepted posted.req posted.now →
        ∃ rec, (kind.backend.serve noFaults (.append posted) state).1 = .appended rec false := by
  obtain ⟨agrees,refines⟩ := kindRefines (K := K) kind
  constructor
  · intro history state run faults posted rec minted
    obtain ⟨log,agreed,stored,start⟩ := freshRecord refines run minted
    have owner : rec.ownerId = posted.ownerId := congrArg Prod.fst start
    have held : holder (startKeys K) log posted.start = some rec :=
      start ▸ holderStored (refines.sound agreed).kept stored
    refine ⟨?append,?get,?list,freshExactlyOnce refines run minted⟩
    case append =>
      intro key mint sameOwner sameStart
      have found : holder (startKeys K) log (key.ownerId,key.timestampMs) = some rec := by
        rw [sameOwner,sameStart]
        exact held
      rw [refines.taken key mint agreed found]
      by_cases tier : rec.tierIndex = key.tierIndex
      · simp [tier]
      · simp [tier,Ne.symm tier]
    case get => exact owner ▸ recordFound refines agreed stored
    case list => exact owner ▸ recordListed refines agreed stored
  · intro before after state faults failed posted detail run none same accepted
    exact failedMintMints refines run none same accepted

def pourOf (ownerId : String) (tierIndex : ℤ) : Posted (BinaryFormat.Rounded 53) :=
  ⟨ownerId,⟨tierIndex,1000,⟨0,0,0,0⟩⟩,⟨1000000000⟩⟩

def freshTier {K : Type} : Answer K → Option ℤ
  | .appended rec false => some rec.tierIndex
  | _ => none

theorem freshAnswered {K : Type} {answer : Answer K} {tierIndex : ℤ} (fresh : freshTier answer = some tierIndex) :
    ∃ rec, answer = .appended rec false ∧ rec.tierIndex = tierIndex := by
  unfold freshTier at fresh
  split at fresh
  · next rec => exact ⟨rec,rfl,Option.some.inj fresh⟩
  · contradiction

theorem appendIsDurableOnce :
    let ledger := (StoreKind.sqlite encodingJson).backend (K := BinaryFormat.Rounded 53)
    (∃ rec theirs s₁ s₂,
      ledger.serve noFaults (.append (pourOf "visitor" 0)) ledger.empty = (.appended rec false,s₁) ∧
      ledger.serve noFaults (.append (pourOf "stranger" 5)) s₁ = (.appended theirs false,s₂) ∧
      ledger.serve noFaults (.append (pourOf "visitor" 0)) s₂ = (.appended rec true,s₂) ∧
      ledger.serve noFaults (.append (pourOf "visitor" 1)) s₂ = (.failed .conflict,s₂) ∧
      ledger.get noFaults rec.id "visitor" s₂ = .ok rec) ∧
    ∃ detail theirs s₁ s₂,
      ledger.serve noFaults (.append (pourOf "visitor" 9)) ledger.empty = (.failed (.validation detail),s₁) ∧
      ledger.serve noFaults (.append (pourOf "stranger" 5)) s₁ = (.appended theirs false,s₂) ∧
      ∃ rec, (ledger.serve noFaults (.append (pourOf "visitor" 0)) s₂).1 = .appended rec false := by
  intro ledger
  let kind := StoreKind.sqlite encodingJson
  let s₁ := (ledger.serve noFaults (.append (pourOf "visitor" 0)) ledger.empty).2
  let r₁ := (ledger.serve noFaults (.append (pourOf "visitor" 9)) ledger.empty).2
  constructor
  · obtain ⟨rec,minted,tier⟩ := freshAnswered (show freshTier
      (ledger.serve noFaults (.append (pourOf "visitor" 0)) ledger.empty).1 = some 0 by decide +kernel)
    obtain ⟨theirs,stranger,-⟩ := freshAnswered (show freshTier
      (ledger.serve noFaults (.append (pourOf "stranger" 5)) s₁).1 = some 5 by decide +kernel)
    have mint : step ledger ledger.empty ⟨noFaults,.append (pourOf "visitor" 0),.appended rec false⟩ s₁ :=
      Prod.ext minted rfl
    have run := (Run.single mint).next (show step ledger s₁
      ⟨noFaults,.append (pourOf "stranger" 5),.appended theirs false⟩ _ from Prod.ext stranger rfl)
    obtain ⟨again,found,-⟩ := (appendIsDurable kind).1 _ _ run noFaults (pourOf "visitor" 0) rec (by simp)
    have replayed := again (pourOf "visitor" 0).key (pourOf "visitor" 0).mint rfl rfl
    have conflict := again (pourOf "visitor" 1).key (pourOf "visitor" 1).mint rfl rfl
    rw [if_pos (show (pourOf "visitor" 0).key.tierIndex = rec.tierIndex from tier.symm)] at replayed
    rw [if_neg (show (pourOf "visitor" 1).key.tierIndex ≠ rec.tierIndex from tier ▸ by decide)] at conflict
    exact ⟨rec,theirs,s₁,_,mint,Prod.ext stranger rfl,congrArg (Prod.map answerOf id) replayed,
      congrArg (Prod.map answerOf id) conflict,found⟩
  · obtain ⟨theirs,stranger,-⟩ := freshAnswered (show freshTier
      (ledger.serve noFaults (.append (pourOf "stranger" 5)) r₁).1 = some 5 by decide +kernel)
    obtain ⟨agrees,refines⟩ := kindRefines (K := BinaryFormat.Rounded 53) kind
    have refused : ∃ detail, (ledger.serve noFaults (.append (pourOf "visitor" 9)) ledger.empty).1 =
        .failed (.validation detail) :=
      freeRefuses refines refines.start (by simp) fun ok => absurd ok.tier.2 (by decide)
    obtain ⟨detail,refused⟩ := refused
    have failed : step ledger ledger.empty
        ⟨noFaults,.append (pourOf "visitor" 9),.failed (.validation detail)⟩ r₁ := Prod.ext refused rfl
    have run := (Run.single failed).next (show step ledger r₁
      ⟨noFaults,.append (pourOf "stranger" 5),.appended theirs false⟩ _ from Prod.ext stranger rfl)
    refine ⟨detail,theirs,r₁,_,failed,Prod.ext stranger rfl,?_⟩
    exact (appendIsDurable kind).2 [] [_] _ noFaults (pourOf "visitor" 9) (pourOf "visitor" 0) detail run
      (by simp [freshAt,Posted.start,pourOf]) rfl ⟨by decide,by decide⟩

end MoltenPour.LedgerDurability
