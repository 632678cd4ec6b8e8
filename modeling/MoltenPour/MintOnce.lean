import MoltenPour.SignedIn
import MoltenPour.BinaryFormat

/-! "Retrying is safe for every call here, including the mint": when it is. The
ledger knows a pour by its owner, and a retry that lost the answer to its first
attempt may come from another one. -/
namespace MoltenPour.MintOnce
open NumberFormat BinaryFormat Pour KeyedLog Store Session Runs Handlers MintDelivery DeliverySteps MintedRecords
open SignedIn (Identified runIdentified)
open LedgerDurability (StoreKind kindRefines)

section Definitions
variable {K : Type} [LinearOrder K] [Zero K] [Format K] {B : Backend K}

def Once (w : World B) : Prop :=
  ∀ browser timestampMs, w.minted.countP (ofPour browser timestampMs) ≤ 1

/- A request of a recorded pour that the ledger would have to answer with a record
comes under an owner who has one at that start. -/
def Recognized (cfg : Config) (w : World B) : Event K → Prop
  | .handle place visit => ∀ m ownerId req, w.requests[place]? = some m →
      Mintable B cfg visit m.cookie m.ask w.ledger ownerId req →
      (∃ taken ∈ w.minted, ofPour m.browser req.timestampMs taken) →
      ∃ taken ∈ w.minted, (startKeys K).key taken.2 = (ownerId,req.timestampMs)
  | _ => True

end Definitions

variable {K : Type} [LinearOrder K] [Zero K] [Format K] {B : Backend K} {cfg : Config}

omit [LinearOrder K] [Zero K] [Format K] in
theorem onceNext {taken : List (ℕ × Record K)} {new : ℕ × Record K} :
    (∀ browser timestampMs, (taken ++ [new]).countP (ofPour browser timestampMs) ≤ 1) ↔
    (∀ browser timestampMs, taken.countP (ofPour browser timestampMs) ≤ 1) ∧
      ∀ old ∈ taken, ofPour new.1 new.2.timestampMs old = false := by
  constructor
  · intro kept
    refine ⟨fun browser timestampMs => ?_,fun old mem => ?_⟩
    · have all := kept browser timestampMs
      rw [List.countP_append] at all
      omega
    · have all := kept new.1 new.2.timestampMs
      have last : [new].countP (ofPour new.1 new.2.timestampMs) = 1 := by simp [ofPour]
      rw [List.countP_append,last] at all
      have none : taken.countP (ofPour new.1 new.2.timestampMs) = 0 := by omega
      simpa using List.countP_eq_zero.mp none old mem
  · rintro ⟨kept,apart⟩ browser timestampMs
    rw [List.countP_append]
    cases here : ofPour browser timestampMs new with
    | false => simpa [here] using kept browser timestampMs
    | true =>
      obtain ⟨rfl,rfl⟩ := of_decide_eq_true here
      have none : taken.countP (ofPour new.1 new.2.timestampMs) = 0 :=
        List.countP_eq_zero.mpr fun old mem => by simp [apart old mem]
      simp [none,here]

section Handling
variable {w : World B} {place : ℕ} {m : Sent K} {visit : Visit}

theorem handleExact {log' : List (Record K)} (here : w.requests[place]? = some m) (once : Once w)
    (handled : Handled B cfg visit m.cookie m.ask w.ledger (records w)
      (handle B cfg visit m.cookie m.ask w.ledger).1.minted log') :
    Once (w.handle cfg place m visit) ↔ Recognized cfg w (.handle place visit) := by
  unfold Once World.handle
  dsimp only
  generalize (handle B cfg visit m.cookie m.ask w.ledger).1.minted = minted at handled
  cases handled with
  | quiet taken =>
    refine iff_of_true (by simpa [Once] using once) ?_
    intro other ownerId req there mintable recorded
    cases here.symm.trans there
    obtain ⟨rec,stored,key⟩ := taken ownerId req mintable
    obtain ⟨pair,mem,rfl⟩ := List.mem_map.mp stored
    exact ⟨pair,mem,key⟩
  | @fresh ownerId req rec mintable free key =>
    have start : rec.timestampMs = req.timestampMs := congrArg Prod.snd key
    rw [Option.map_some,Option.toList_some,onceNext]
    constructor
    · intro kept other owner req' there again recorded
      cases here.symm.trans there
      obtain ⟨rfl,rfl⟩ := admittedUnique again.admitted mintable.admitted
      obtain ⟨taken,mem,same⟩ := recorded
      rw [← start,kept.2 taken mem] at same
      contradiction
    · intro recognized
      refine ⟨once,fun taken mem => ?_⟩
      by_contra same
      rw [Bool.not_eq_false,start] at same
      obtain ⟨old,stored,here'⟩ := recognized m ownerId req here mintable ⟨taken,mem,same⟩
      exact free old.2 (List.mem_map_of_mem stored) here'

end Handling

section Ledger
variable {agrees : B.State → List (Record K) → Prop} (refines : Refines B agrees)
include refines

theorem stepExact {w : World B} (agreed : agrees w.ledger (records w)) (once : Once w)
    {event : Event K} : Once (step cfg w event) ↔ Recognized cfg w event := by
  generalize after : step cfg w event = t
  have booked : Booked cfg w event t := after ▸ stepBooked w event
  cases booked with
  | idle ledger minted other =>
    refine iff_of_true (by simpa only [Once,minted] using once) ?_
    cases event with
    | handle place visit => exact absurd rfl (other place visit)
    | _ => trivial
  | missing nothing => exact iff_of_true once fun m _ _ here => nomatch nothing.symm.trans here
  | handled here =>
    obtain ⟨log,handled,-⟩ := handleStep refines agreed cfg _ _ _
    exact handleExact here once handled

theorem onceIff (jar : ℕ → Option String) (events : List (Event K)) :
    (∀ seen rest, events = seen ++ rest → Once (reach B cfg jar seen)) ↔
      ∀ seen event rest, events = seen ++ event::rest → Recognized cfg (reach B cfg jar seen) event :=
  alwaysIff (fun w => agrees w.ledger (records w)) Once (Recognized cfg)
    (fun agreed => stepRecords refines agreed) (fun agreed once => stepExact refines agreed once)
    refines.start (by simp [Once,World.start]) events

end Ledger

theorem identifiedRecognized {w : World B}
    (known : ∀ browser, ∃ ownerId, Identified cfg w browser ownerId) (event : Event K) :
    Recognized cfg w event := by
  cases event with
  | handle place visit =>
    intro m ownerId req here mintable ⟨taken,mem,same⟩
    obtain ⟨mine,start⟩ := of_decide_eq_true same
    obtain ⟨owner,identified⟩ := known m.browser
    have cookie := identified.requests m (List.mem_of_getElem? here) rfl
    have owned := ownerKnown identified.named cookie visit.entropy
    have whose : owner = ownerId := by
      have admitted := mintable.admitted.owner
      rw [owned] at admitted
      exact Option.some.inj admitted
    exact ⟨taken,mem,Prod.ext ((identified.minted taken mem mine).trans whose) start⟩
  | _ => trivial

theorem signedInOnce (kind : StoreKind) (cfg : Config) (jar : ℕ → Option String)
    (cookies : ∀ browser, ∃ ownerId, ownerId ≠ "" ∧ (jar browser).map (parse cfg.sign) = some ownerId)
    (events : List (Event K)) : Once (reach kind.backend cfg jar events) := by
  obtain ⟨agrees,refines⟩ := kindRefines (K := K) kind
  refine (onceIff refines jar events).mpr (fun seen event _ _ => ?_) events [] (List.append_nil _).symm
  refine identifiedRecognized (fun browser => ?_) event
  obtain ⟨ownerId,named,cookie⟩ := cookies browser
  have start : Identified cfg (World.start (B := kind.backend (K := K)) jar) browser ownerId :=
    ⟨named,cookie,by simp [World.start],by simp [World.start],by simp [World.start]⟩
  exact ⟨ownerId,(runIdentified refines refines.start start seen).2⟩

theorem mintOnceIff (kind : StoreKind) (cfg : Config) (jar : ℕ → Option String)
    (events : List (Event K)) :
    (∀ ownerId, kind.backend.list noFaults ownerId (reach kind.backend cfg jar events).ledger =
      .ok ((records (reach kind.backend cfg jar events)).filter fun r => r.ownerId = ownerId).reverse) ∧
    ((∀ seen rest, events = seen ++ rest → Once (reach kind.backend cfg jar seen)) ↔
      ∀ seen event rest, events = seen ++ event::rest →
        Recognized cfg (reach kind.backend cfg jar seen) event) := by
  obtain ⟨agrees,refines⟩ := kindRefines (K := K) kind
  constructor
  · exact recordsListed refines (reachRecords refines jar events)
  · exact onceIff refines jar events

def cookieLost (browser : ℕ) (req : Request K) (first again : Visit) : List (Event K) :=
  [.fetch 0 browser (.mint (.ok req)) 2,.send 0,.handle 0 first,.loseAnswer 0,.abort 0 true,.send 0,
    .handle 0 again]

theorem lostTwice {agrees : B.State → List (Record K) → Prop} (refines : Refines B agrees)
    {jar : ℕ → Option String} {browser : ℕ} {req : Request K} {first again : Visit} {a b : String}
    (empty : jar browser = none) (apart : a ≠ b)
    (early : ∀ s, Mintable B cfg first none (.mint (.ok req)) s a req)
    (late : ∀ s, Mintable B cfg again none (.mint (.ok req)) s b req) :
    ¬ Once (reach B cfg jar (cookieLost browser req first again)) := by
  obtain ⟨rec,taken,key,agreed⟩ := handleFresh refines refines.start (early B.empty) (by simp)
  have free : ∀ r ∈ [] ++ [rec], (startKeys K).key r ≠ (b,req.timestampMs) := by
    intro r mem same
    rw [List.nil_append,List.mem_singleton] at mem
    subst mem
    exact apart (congrArg Prod.fst (key.symm.trans same))
  obtain ⟨other,retaken,key',-⟩ := handleFresh refines agreed (late _) free
  have minted : (reach B cfg jar (cookieLost browser req first again)).minted =
      [(browser,rec),(browser,other)] := by
    simp [reach,cookieLost,step,World.start,World.send,World.handle,World.abort,Call.abort,Call.fail,
      ApiErrorCode.retryable,empty,taken,retaken]
  have start : rec.timestampMs = req.timestampMs := congrArg Prod.snd key
  have start' : other.timestampMs = req.timestampMs := congrArg Prod.snd key'
  intro once
  have counted := once browser req.timestampMs
  rw [minted] at counted
  simp [ofPour,start,start'] at counted

section Failing

def unsigned : Config := ⟨fun id => id,5⟩

def visitOf (byte : UInt8) : Visit := ⟨none,some ⟨List.replicate 16 byte,rfl⟩,⟨1000000000⟩,noFaults⟩

def plainPour : Request (Rounded 53) := ⟨0,1000,⟨0,0,0,0⟩⟩

theorem plainMintable (byte : UInt8) (s : (StoreKind.memory.backend (K := Rounded 53)).State) :
    Mintable StoreKind.memory.backend unsigned (visitOf byte) none (.mint (.ok plainPour)) s
      (encodeToString (List.replicate 16 byte)) plainPour :=
  ⟨⟨rfl,rfl,rfl,by decide⟩,(by decide : Accepted plainPour ⟨1000000000⟩),rfl⟩

theorem retryMintsTwice :
    ¬ Once (reach StoreKind.memory.backend unsigned (fun _ => none)
      (cookieLost 0 plainPour (visitOf 0) (visitOf 1))) :=
  lostTwice MemoryLedger.memoryRefines rfl (by decide) (plainMintable 0) (plainMintable 1)

end Failing
end MoltenPour.MintOnce
