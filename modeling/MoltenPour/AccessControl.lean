import MoltenPour.MintStatus

/-! The signed cookie is the whole access control: requests of any clients, each
free to put anything in its cookie but a signature it was never given. -/
namespace MoltenPour.AccessControl
open NumberFormat Pour KeyedLog Store Runs Session Handlers LedgerDurability MintStatus

structure Visited (Client K : Type) where
  client : Client
  visit : Visit
  cookie : Option String
  ask : Ask K
  response : Response K

structure Site {K : Type} (B : Backend K) (Client : Type) where
  ledger : B.State
  past : List (Visited Client K)

section Definitions
variable {Client K : Type}

def issuedTo (sign : String → String) (past : List (Visited Client K)) (client : Client) (id : String) :
    Prop :=
  ∃ e ∈ past, e.client = client ∧ e.response.setCookie = some (cookieValue sign id)

/- The signature is ideal: it is only ever seen where it was handed out. The ids
drawn are new. -/
structure Permitted (sign : String → String) (past : List (Visited Client K)) (e : Visited Client K) :
    Prop where
  unforged : ∀ value, e.cookie = some value →
    ∀ id, (sign id).toList <:+: value.toList → issuedTo sign past e.client id
  fresh : ∀ id, newID e.visit.entropy = some id → ∀ client, ¬ issuedTo sign past client id

variable [LinearOrder K] [Zero K] [Format K]

def Site.start (B : Backend K) : Site B Client := ⟨B.empty,[]⟩

def step (B : Backend K) (cfg : Config) (s : Site B Client) (e : Visited Client K) (t : Site B Client) :
    Prop :=
  Permitted cfg.sign s.past e ∧
    handle B cfg e.visit e.cookie e.ask s.ledger = (e.response,t.ledger) ∧ t.past = s.past ++ [e]

structure Guarded (sign : String → String) (before : List (Visited Client K)) (e : Visited Client K) :
    Prop where
  issued : ∀ value, e.response.setCookie = some value →
    ∃ id, value = cookieValue sign id ∧ ∀ entropy, ownerID sign (some value) entropy = some (id,none)
  renewed : (e.cookie.map (parse sign)).getD "" = "" → ∀ ownerId setCookie,
    ownerID sign e.cookie e.visit.entropy = some (ownerId,setCookie) →
      setCookie = some (cookieValue sign ownerId) ∧ (∀ client, ¬ issuedTo sign before client ownerId) ∧
      ∀ earlier ∈ before, ∀ r, earlier.response.minted = some r → r.ownerId ≠ ownerId
  own : ∀ r ∈ e.response.records, ∃ mint ∈ before ++ [e],
    mint.client = e.client ∧ mint.response.minted = some r

end Definitions

variable {Client K : Type} {sign : String → String}

theorem issuedLater {past : List (Visited Client K)} {client : Client} {id : String}
    (issued : issuedTo sign past client id) (e : Visited Client K) :
    issuedTo sign (past ++ [e]) client id := by
  obtain ⟨earlier,mem,rest⟩ := issued
  exact ⟨earlier,List.mem_append_left _ mem,rest⟩

theorem resolvedIssued {past : List (Visited Client K)} {e : Visited Client K}
    (permitted : Permitted sign past e) {ownerId : String} {setCookie : Option String}
    (owned : ownerID sign e.cookie e.visit.entropy = some (ownerId,setCookie))
    (set : e.response.setCookie = setCookie) : issuedTo sign (past ++ [e]) e.client ownerId := by
  cases ownerResolved owned with
  | @known value _ named held good =>
    obtain ⟨rfl,-⟩ := (parseIff sign named value).mp good
    have inside : (sign ownerId).toList <:+: (cookieValue sign ownerId).toList :=
      ⟨(ownerId ++ ".").toList,[],by simp [cookieValue]⟩
    exact issuedLater (permitted.unforged _ held ownerId inside) e
  | drawn => exact ⟨e,List.mem_append_right _ (List.mem_singleton.mpr rfl),rfl,set⟩

variable [LinearOrder K] [Zero K] [Format K]

/- Every record was minted by a request that was told, for an owner its client was
given; and no two clients were given one owner. -/
structure Tied (kind : StoreKind) (cfg : Config) (s : Site (kind.backend (K := K)) Client) : Prop where
  stored : ∀ r ∈ kind.records s.ledger, ∃ e ∈ s.past, e.response.minted = some r
  owned : ∀ e ∈ s.past, ∀ r, e.response.minted = some r → issuedTo cfg.sign s.past e.client r.ownerId
  single : ∀ a b id, issuedTo cfg.sign s.past a id → issuedTo cfg.sign s.past b id → a = b

omit [LinearOrder K] [Zero K] [Format K] in
theorem mintedBody {res : Response K} {r : Record K} (minted : res.minted = some r) :
    res.status = 201 ∧ res.body = .record r := by
  obtain ⟨status,setCookie,retryAfter,body⟩ := res
  unfold Response.minted at minted
  split at minted
  · next code rec =>
    cases minted
    exact ⟨code,rec⟩
  · contradiction

omit [LinearOrder K] [Zero K] [Format K] in
theorem mintedShown {res : Response K} {r : Record K} (minted : res.minted = some r) : r ∈ res.records := by
  simp [Response.records,(mintedBody minted).2]

structure Disclosed (kind : StoreKind) (sign : String → String) (visit : Visit) (cookie : Option String)
    (s : (kind.backend (K := K)).State) (res : Response K) (t : (kind.backend (K := K)).State) : Prop where
  shown : ∀ r ∈ res.records, r ∈ kind.records t ∧ ∃ setCookie,
    ownerID sign cookie visit.entropy = some (r.ownerId,setCookie) ∧ res.setCookie = setCookie
  grown : ∀ r ∈ kind.records t, r ∈ kind.records s ∨ res.minted = some r

section Handling
variable {kind : StoreKind} {cfg : Config} {visit : Visit} {cookie : Option String}
  {s : (kind.backend (K := K)).State}
  {agrees : (kind.backend (K := K)).State → List (Record K) → Prop}
  (refines : Refines kind.backend agrees) (records : ∀ {s log}, agrees s log → kind.records s = log)
  {log : List (Record K)} (agreed : agrees s log)
include refines records agreed

theorem listDisclosed :
    Disclosed kind cfg.sign visit cookie s (handleList kind.backend cfg visit cookie s) s := by
  refine ⟨?_,fun r stored => .inl stored⟩
  intro r shown
  unfold handleList at shown ⊢
  cases owned : ownerID cfg.sign cookie visit.entropy with
  | none =>
    simp only [owned] at shown
    contradiction
  | some pair =>
    obtain ⟨ownerId,setCookie⟩ := pair
    have shows := refines.shows agreed visit.faults (.list ownerId)
    simp only [owned] at shown ⊢
    cases listed : kind.backend.list visit.faults ownerId s with
    | error err =>
      simp only [listed] at shown
      contradiction
    | ok recs =>
      simp only [listed] at shown ⊢
      simp only [Backend.serve,listed,listedOf,Answer.records] at shows
      obtain ⟨rfl,stored⟩ := shows r shown
      exact ⟨records agreed ▸ stored,setCookie,rfl,rfl⟩

theorem getDisclosed (id : String) :
    Disclosed kind cfg.sign visit cookie s (handleGet kind.backend cfg visit cookie id s) s := by
  refine ⟨?_,fun r stored => .inl stored⟩
  intro r shown
  unfold handleGet at shown ⊢
  cases owned : ownerID cfg.sign cookie visit.entropy with
  | none =>
    simp only [owned] at shown
    contradiction
  | some pair =>
    obtain ⟨ownerId,setCookie⟩ := pair
    have shows := refines.shows agreed visit.faults (.get id ownerId)
    simp only [owned] at shown ⊢
    cases found : kind.backend.get visit.faults id ownerId s with
    | error err =>
      simp only [found] at shown
      split at shown <;> contradiction
    | ok rec =>
      simp only [found] at shown ⊢
      simp only [Backend.serve,found,foundOf,Answer.records] at shows
      obtain ⟨rfl,stored⟩ := shows r shown
      have still : (ledger (.get id r.ownerId) log).2 = log := by
        unfold ledger
        dsimp only
        split <;> rfl
      exact ⟨records agreed ▸ still ▸ stored,setCookie,rfl,rfl⟩

variable (only : ∀ {s t log}, agrees s log → agrees t log → s = t)
include only

theorem mintDisclosed (body : Except String (Request K)) :
    Disclosed kind cfg.sign visit cookie s (handleMint kind.backend cfg visit cookie body s).1
      (handleMint kind.backend cfg visit cookie body s).2 := by
  have told := mintTold refines records only agreed cfg visit cookie body
  have named := fun {ownerId setCookie} owned =>
    @handleCookie K _ _ _ kind.backend cfg visit cookie ownerId setCookie owned (.mint body) s
  simp only [handle] at named
  generalize handleMint kind.backend cfg visit cookie body s = done at told named
  obtain ⟨res,t⟩ := done
  dsimp only at told named ⊢
  obtain replay | create | ⟨refused,message,error⟩ := told.statuses
  · obtain ⟨rec,setCookie,req,owned,-,shown,stored,-⟩ := told.replayed replay
    have still : t = s := not_not.mp (told.changed.not.mpr (by omega))
    have set : res.setCookie = setCookie := (named owned).resolve_right (by omega)
    refine ⟨fun r mem => ?_,fun r mem => .inl (still ▸ mem)⟩
    simp only [Response.records,shown,List.mem_singleton] at mem
    subst mem
    exact ⟨still ▸ stored,setCookie,owned,set⟩
  · obtain ⟨rec,setCookie,owned,shown,grown,-⟩ := told.created create
    have set : res.setCookie = setCookie := (named owned).resolve_right (by omega)
    have minted : res.minted = some rec := by simp [Response.minted,create,shown]
    constructor
    · intro r mem
      simp only [Response.records,shown,List.mem_singleton] at mem
      subst mem
      exact ⟨grown ▸ List.mem_append_right _ (List.mem_singleton.mpr rfl),setCookie,owned,set⟩
    · intro r mem
      rw [grown] at mem
      cases List.mem_append.mp mem with
      | inl old => exact .inl old
      | inr new => exact .inr (List.mem_singleton.mp new ▸ minted)
  · have other : res.status ≠ 201 := by
      intro created
      rw [created] at refused
      contradiction
    have still : t = s := not_not.mp (told.changed.not.mpr other)
    exact ⟨fun r mem => by simp [Response.records,error] at mem,fun r mem => .inl (still ▸ mem)⟩

theorem handleDisclosed (ask : Ask K) :
    Disclosed kind cfg.sign visit cookie s (handle kind.backend cfg visit cookie ask s).1
      (handle kind.backend cfg visit cookie ask s).2 := by
  cases ask with
  | mint body => exact mintDisclosed refines records agreed only body
  | list => exact listDisclosed refines records agreed
  | get id => exact getDisclosed refines records agreed id

end Handling

section Step
variable {kind : StoreKind} {cfg : Config} {s t : Site (kind.backend (K := K)) Client}
  {e : Visited Client K} {agrees : (kind.backend (K := K)).State → List (Record K) → Prop}
  (refines : Refines kind.backend agrees) (records : ∀ {s log}, agrees s log → kind.records s = log)
  (only : ∀ {s t log}, agrees s log → agrees t log → s = t) {log : List (Record K)}
  (agreed : agrees s.ledger log) (tied : Tied kind cfg s) (now : step kind.backend cfg s e t)
include refines records only agreed tied now

theorem stepTied : Tied kind cfg t := by
  obtain ⟨permitted,handled,past⟩ := now
  have disclosed := @handleDisclosed K _ _ _ kind cfg e.visit e.cookie s.ledger _ refines records _ agreed
    only e.ask
  have issues := @handleIssues K _ _ _ kind.backend cfg e.visit e.cookie e.ask s.ledger
  rw [handled] at disclosed issues
  refine ⟨?stored,?owned,?single⟩
  case stored =>
    intro r mem
    rw [past]
    cases disclosed.grown r mem with
    | inl old =>
      obtain ⟨earlier,before,minted⟩ := tied.stored r old
      exact ⟨earlier,List.mem_append_left _ before,minted⟩
    | inr minted => exact ⟨e,List.mem_append_right _ (List.mem_singleton.mpr rfl),minted⟩
  case owned =>
    intro m mem r minted
    rw [past] at mem ⊢
    cases List.mem_append.mp mem with
    | inl old => exact issuedLater (tied.owned m old r minted) e
    | inr new =>
      cases List.mem_singleton.mp new
      obtain ⟨-,setCookie,owned,set⟩ := disclosed.shown r (mintedShown minted)
      exact resolvedIssued permitted owned set
  case single =>
    -- An id set now is new, so nobody was given it before.
    have apart : ∀ client id, issuedTo cfg.sign s.past client id →
        e.response.setCookie ≠ some (cookieValue cfg.sign id) := by
      intro client id given again
      obtain ⟨earlier,before,same,issued⟩ := given
      obtain ⟨drawn,fresh,value,-⟩ := issues again
      exact permitted.fresh drawn fresh client ⟨earlier,before,same,value ▸ issued⟩
    intro a b id left right
    rw [past] at left right
    obtain ⟨first,left,rfl,issued⟩ := left
    obtain ⟨second,right,rfl,again⟩ := right
    cases List.mem_append.mp left with
    | inl old =>
      have before : issuedTo cfg.sign s.past first.client id := ⟨first,old,rfl,issued⟩
      cases List.mem_append.mp right with
      | inl other => exact tied.single _ _ id before ⟨second,other,rfl,again⟩
      | inr new =>
        cases List.mem_singleton.mp new
        exact absurd again (apart _ id before)
    | inr new =>
      cases List.mem_singleton.mp new
      cases List.mem_append.mp right with
      | inl other => exact absurd issued (apart _ id ⟨second,other,rfl,again⟩)
      | inr same =>
        cases List.mem_singleton.mp same
        rfl

theorem stepGuarded : Guarded cfg.sign s.past e := by
  have next := stepTied refines records only agreed tied now
  obtain ⟨permitted,handled,past⟩ := now
  have disclosed := @handleDisclosed K _ _ _ kind cfg e.visit e.cookie s.ledger _ refines records _ agreed
    only e.ask
  have issues := @handleIssues K _ _ _ kind.backend cfg e.visit e.cookie e.ask s.ledger
  rw [handled] at disclosed issues
  refine ⟨?issued,?renewed,?own⟩
  case issued =>
    intro value issued
    obtain ⟨id,drawn,rfl,-⟩ := issues issued
    refine ⟨id,rfl,fun entropy => ownerKnown (newIDNonempty drawn) ?_ entropy⟩
    exact congrArg some (parseIssued cfg.sign drawn)
  case renewed =>
    intro rejected ownerId setCookie owned
    cases ownerResolved owned with
    | known named held good =>
      rw [held,Option.map_some,Option.getD_some,good] at rejected
      exact absurd rejected named
    | drawn _ fresh =>
      refine ⟨rfl,permitted.fresh ownerId fresh,?_⟩
      intro earlier before r minted same
      subst same
      exact permitted.fresh r.ownerId fresh _ (tied.owned earlier before r minted)
  case own =>
    intro r shown
    obtain ⟨stored,setCookie,owned,set⟩ := disclosed.shown r shown
    obtain ⟨mint,mem,minted⟩ := next.stored r stored
    have theirs := next.owned mint mem r minted
    rw [past] at theirs mem
    refine ⟨mint,mem,?_,minted⟩
    exact next.single _ _ r.ownerId (past ▸ theirs) (past ▸ resolvedIssued permitted owned set)

end Step

theorem runTied {kind : StoreKind} {cfg : Config} {history : List (Visited Client K)}
    {s : Site (kind.backend (K := K)) Client}
    {agrees : (kind.backend (K := K)).State → List (Record K) → Prop}
    (refines : Refines kind.backend agrees) (records : ∀ {s log}, agrees s log → kind.records s = log)
    (only : ∀ {s t log}, agrees s log → agrees t log → s = t)
    (run : Run (step kind.backend cfg) (Site.start kind.backend) history s) :
    s.past = history ∧ (∃ log, agrees s.ledger log) ∧ Tied kind cfg s := by
  induction run with
  | rest =>
    have none : kind.records (kind.backend (K := K)).empty = [] := records refines.start
    refine ⟨rfl,⟨[],refines.start⟩,?_,?_,?_⟩
    · simp [Site.start,none]
    · simp [Site.start]
    · simp [Site.start,issuedTo]
  | @next events s e t before now ih =>
    obtain ⟨past,⟨log,agreed⟩,tied⟩ := ih
    obtain ⟨log',-,next⟩ := handleStep refines agreed cfg e.visit e.cookie e.ask
    rw [now.2.1] at next
    exact ⟨by rw [now.2.2,past],⟨log',next⟩,stepTied refines records only agreed tied now⟩

theorem cookieIsAccess (kind : StoreKind) (cfg : Config) {history : List (Visited Client K)}
    {s : Site (kind.backend (K := K)) Client}
    (run : Run (step kind.backend cfg) (Site.start kind.backend) history s) :
    (∀ value id, id ≠ "" →
      (parse cfg.sign value = id ↔ value = cookieValue cfg.sign id ∧ '.' ∉ id.toList)) ∧
    ∀ before e after, history = before ++ e :: after → Guarded cfg.sign before e := by
  refine ⟨fun value id named => parseIff cfg.sign named value,?_⟩
  intro before e after whole
  subst whole
  obtain ⟨agrees,refines,records,only⟩ := kindHolds (K := K) kind
  rw [← List.singleton_append] at run
  obtain ⟨mid,early,later⟩ := run.split
  obtain ⟨next,now,-⟩ := later.split
  obtain ⟨rfl,⟨log,agreed⟩,tied⟩ := runTied refines records only early
  exact stepGuarded refines records only agreed tied now.ofSingle

section Forging

def bracketed : Config := ⟨fun id => "<" ++ id ++ ">",5⟩

def visitOf (byte : UInt8) : Visit := ⟨none,constantDraw byte,⟨2000000000⟩,noFaults⟩

def minting : Visited ℕ (BinaryFormat.Rounded 53) :=
  let visit := visitOf 7
  let ask := Ask.mint (.ok firstMint)
  ⟨0,visit,none,ask,(handle StoreKind.memory.backend bracketed visit none ask MemoryLedger.newMemoryStore).1⟩

def forging : Visited ℕ (BinaryFormat.Rounded 53) :=
  let visit := visitOf 9
  let cookie := some "07070707070707070707070707070707.forged"
  ⟨1,visit,cookie,.list,(handle StoreKind.memory.backend bracketed visit cookie .list
    (handle StoreKind.memory.backend bracketed (visitOf 7) none (.mint (.ok firstMint))
      MemoryLedger.newMemoryStore).2).1⟩

theorem mintingPermitted : Permitted bracketed.sign [] minting := by
  constructor
  · intro value held
    have none : minting.cookie = none := rfl
    rw [none] at held
    contradiction
  · simp [issuedTo]

theorem forgingPermitted : Permitted bracketed.sign [minting] forging := by
  constructor
  · intro value held id inside
    obtain ⟨front,back,whole⟩ := inside
    cases held
    have mark : '<' ∈ ("07070707070707070707070707070707.forged" : String).toList := by
      rw [← whole]
      simp [bracketed]
    exact absurd mark (by decide)
  · intro id drawn client given
    obtain ⟨e,mem,-,issued⟩ := given
    cases drawn
    cases List.mem_singleton.mp mem
    exact absurd issued (by decide +kernel)

theorem forgingGuarded :
    Guarded bracketed.sign [minting] forging ∧ minting.response.records.length = 1 ∧
      forging.response.records = [] := by
  have first : step (StoreKind.memory.backend (K := BinaryFormat.Rounded 53)) bracketed
      (Site.start _) minting ⟨_,[minting]⟩ := ⟨mintingPermitted,rfl,rfl⟩
  have second : step (StoreKind.memory.backend (K := BinaryFormat.Rounded 53)) bracketed
      ⟨_,[minting]⟩ forging ⟨_,[minting,forging]⟩ := ⟨forgingPermitted,rfl,rfl⟩
  have run := Run.next (.single first) second
  refine ⟨(cookieIsAccess .memory bracketed run).2 [minting] forging [] rfl,?_,?_⟩
  · decide +kernel
  · decide +kernel

end Forging
end MoltenPour.AccessControl
