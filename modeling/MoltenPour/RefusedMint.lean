import MoltenPour.CarriedAnswers
import MoltenPour.SignedIn
import MoltenPour.Runs

/-! "The server refused the request; sending it again will not help": a call ends on
the answer to its last attempt, and an earlier one may have been minted. -/
namespace MoltenPour.RefusedMint
open NumberFormat BinaryFormat Pour KeyedLog Store Session Runs Handlers MintDelivery DeliverySteps MintedRecords CarriedAnswers
open SignedIn
open LedgerDurability (StoreKind kindHolds)

section Definitions
variable {K : Type}

def Refusal (res : Response K) : Prop :=
  ¬ (200 ≤ res.status ∧ res.status < 300) ∧ (failureFor res).code = .client

variable [LinearOrder K] [Zero K] [Format K]

def Refused {B : Backend K} (w : World B) (n : ℕ) : Prop :=
  ∃ call err, w.calls n = some call ∧ call.progress = .rejected err ∧ err.code = .client

variable (kind : StoreKind) (ownerId : String)

def Free (s : (kind.backend (K := K)).State) (timestampMs : ℤ) : Prop :=
  ∀ rec ∈ kind.records s, (startKeys K).key rec ≠ (ownerId,timestampMs)

variable (cfg : Config)

/- What handleMint turns away for good: no token left, a tier not on offer, or a
claim Mint does not take for a start that is still free. -/
def TurnedAway (visit : Visit) (req : Request K) (s : (kind.backend (K := K)).State) : Prop :=
  visit.refusedFor ≠ none ∨ cfg.maxTierIndex < req.tierIndex ∨
    Driven kind.backend visit ⟨ownerId,req,visit.now⟩ s ∧ ¬ Accepted req visit.now ∧
      Free kind ownerId s req.timestampMs

variable (n : ℕ) (req : Request K) (w : World (kind.backend (K := K))) (events : List (Event K))

/- A request for the owner's pour-start gets as far as a record, whoever hears of it:
an attempt of the call, unless the start is asked for elsewhere too. -/
def Recorded : Prop :=
  ∃ seen place visit rest m other, events = seen ++ .handle place visit::rest ∧
    let before := seen.foldl (step cfg) w
    before.requests[place]? = some m ∧ other.timestampMs = req.timestampMs ∧
      Mintable kind.backend cfg visit m.cookie m.ask before.ledger ownerId other

/- An attempt of the call is turned away, and the call waits for it until it hears so. -/
def HeardNo : Prop :=
  ∃ seen place visit mid place' rest m,
    events = seen ++ .handle place visit::(mid ++ .deliver place'::rest) ∧
    let before := seen.foldl (step cfg) w
    let after := (seen ++ .handle place visit::mid).foldl (step cfg) w
    before.requests[place]? = some m ∧ m.call = n ∧ TurnedAway kind ownerId cfg visit req before.ledger ∧
      after.answers[place']?.map Answered.attempt = some m.attempt ∧
      (after.calls n).any (fun call => call.awaits m.attempt) = true

end Definitions

section Calls
variable {K : Type}

theorem failRefused {call : Call K} {err other : ApiError}
    (rejected : (call.fail err).progress = .rejected other) : other = err := by
  unfold Call.fail at rejected
  split at rejected
  · contradiction
  · cases rejected
    rfl

theorem refusalRejects {call : Call K} {res : Response K} (refusal : Refusal res) :
    (call.answer res).progress = .rejected (failureFor res) := by
  rw [answerRefused refusal.1]
  unfold Call.fail
  rw [refusal.2]
  rfl

theorem rejectedRefusal {call : Call K} {res : Response K} {err : ApiError}
    (rejected : (call.answer res).progress = .rejected err) (client : err.code = .client) : Refusal res := by
  by_cases fine : 200 ≤ res.status ∧ res.status < 300
  · rw [answerFine fine] at rejected
    contradiction
  · rw [answerRefused fine] at rejected
    cases failRefused rejected
    exact ⟨fine,client⟩

theorem abortRetryable {call : Call K} {timedOut : Bool} {err : ApiError}
    (rejected : (call.abort timedOut).progress = .rejected err) : err.code ≠ .client := by
  cases failRefused rejected
  cases timedOut <;> decide

end Calls

variable {K : Type} [LinearOrder K] [Zero K] [Format K] {cfg : Config} {kind : StoreKind} {n : ℕ}

section Answers
variable {ownerId : String} {req : Request K} {visit : Visit}

omit [LinearOrder K] [Zero K] [Format K] in
theorem writeRefusal {setCookie : Option String} {result : Except PourError (Record K × Bool)} :
    Refusal (writeMint setCookie result) ↔ ∃ detail, answerOf result = .failed (.validation detail) := by
  cases result with
  | ok pair => obtain ⟨rec,replayed⟩ := pair; cases replayed <;> simp [Refusal,writeMint,answerOf]
  | error err =>
    cases err <;> simp [Refusal,writeMint,answerOf,writeErr,failureFor]

variable {agrees : (kind.backend (K := K)).State → List (Record K) → Prop}
  (refines : Refines kind.backend agrees) (shelf : ∀ {s log}, agrees s log → kind.records s = log)
include refines shelf

theorem refusalIff {s : (kind.backend (K := K)).State} {log : List (Record K)} (agreed : agrees s log)
    {cookie setCookie : Option String} (owned : ownerID cfg.sign cookie visit.entropy = some (ownerId,setCookie)) :
    Refusal (handle kind.backend cfg visit cookie (.mint (.ok req)) s).1 ↔
      TurnedAway kind ownerId cfg visit req s := by
  -- handleMint asks the limiter and the ceiling before the ledger, and the ledger before Mint
  have written : (handle kind.backend cfg visit cookie (.mint (.ok req)) s).1 =
      (handleMint kind.backend cfg visit cookie (.ok req) s).1 := rfl
  rw [written]
  unfold handleMint TurnedAway
  cases allowed : visit.refusedFor with
  | some wait => simp [Refusal,failureFor]
  | none =>
    simp only [owned]
    by_cases above : req.tierIndex > cfg.maxTierIndex
    · simp [above,Refusal,failureFor,writeErr]
    · rw [if_neg above,writeRefusal]
      simp only [ne_eq,not_true_eq_false,false_or,above]
      have served : answerOf (kind.backend.append visit.faults (Posted.key ⟨ownerId,req,visit.now⟩)
          (Posted.mint ⟨ownerId,req,visit.now⟩) s).1 =
          (kind.backend.serve visit.faults (.append ⟨ownerId,req,visit.now⟩) s).1 := rfl
      rw [served]
      by_cases driven : Driven kind.backend visit ⟨ownerId,req,visit.now⟩ s
      · obtain ⟨answered,-⟩ := refines.serve (.append ⟨ownerId,req,visit.now⟩) agreed
        rw [driven,answered]
        generalize done : KeyedLog.append log (Posted.call ⟨ownerId,req,visit.now⟩) = result
        obtain ⟨o,log'⟩ := result
        simp only [ledger,done,Free,shelf agreed]
        cases appendCases done with
        | fresh free made =>
          exact iff_of_false (by simp [outcome]) fun away => away.2.1 (mintMinted made).accepted
        | replay stored key => exact iff_of_false (by simp [outcome]) fun away => away.2.2 _ stored key
        | conflict stored key => exact iff_of_false (by simp [outcome]) fun away => away.2.2 _ stored key
        | refused free failed =>
          obtain ⟨detail,rfl⟩ := mintError failed
          refine iff_of_true ⟨detail,rfl⟩ ⟨driven,fun accepted => ?_,free⟩
          obtain ⟨rec,made,-⟩ := mintAccepted accepted (log.length + 1) ownerId
          cases made.symm.trans failed
      · obtain ⟨context,failed⟩ := (refines.faults visit.faults (.append ⟨ownerId,req,visit.now⟩) s).resolve_left driven
        rw [failed]
        exact iff_of_false (by simp) fun away => driven away.1

end Answers

section Prefixes
variable {ownerId : String} {req : Request K} {w : World (kind.backend (K := K))} {events : List (Event K)}

theorem heardMore (heard : HeardNo kind ownerId cfg n req w events) (more : List (Event K)) :
    HeardNo kind ownerId cfg n req w (events ++ more) := by
  obtain ⟨seen,place,visit,mid,place',rest,m,rfl,facts⟩ := heard
  exact ⟨seen,place,visit,mid,place',rest ++ more,m,by simp,facts⟩

theorem recordedMore (recorded : Recorded kind ownerId cfg req w events) (more : List (Event K)) :
    Recorded kind ownerId cfg req w (events ++ more) := by
  obtain ⟨seen,place,visit,rest,m,other,rfl,facts⟩ := recorded
  exact ⟨seen,place,visit,rest ++ more,m,other,by simp,facts⟩

end Prefixes

section Steps
variable {w t : World (kind.backend (K := K))} {event : Event K}

theorem refusedCases (moved : Moved cfg w event t) (refused : Refused t n) :
    Refused w n ∨ ∃ place a call, event = .deliver place ∧ w.answers[place]? = some a ∧ a.call = n ∧
      w.calls n = some call ∧ call.awaits a.attempt = true ∧ Refusal a.res := by
  obtain ⟨call,err,made,progress,client⟩ := refused
  cases callMoved moved made with
  | same held => exact .inl ⟨call,err,held,progress,client⟩
  | began => contradiction
  | sent => contradiction
  | @answered place a before here mine held awaited =>
    exact .inr ⟨place,a,before,rfl,here,mine,held,awaitsWaiting.mpr awaited,
      rejectedRefusal progress client⟩
  | aborted => exact absurd client (abortRetryable progress)

theorem refusedNow {place : ℕ} {a : Answered K} {call : Call K} (here : w.answers[place]? = some a)
    (mine : a.call = n) (made : w.calls n = some call) (awaited : call.awaits a.attempt = true)
    (refusal : Refusal a.res) : Refused (step cfg w (.deliver place)) n := by
  subst mine
  refine ⟨call.answer a.res,failureFor a.res,?_,refusalRejects refusal,refusal.2⟩
  simp [step,here,World.deliver,made,awaited]

theorem refusedStays (refused : Refused w n) (events : List (Event K)) :
    Refused (events.foldl (step cfg) w) n := by
  induction events generalizing w with
  | nil => exact refused
  | cons event rest ih =>
    obtain ⟨call,err,made,progress,client⟩ := refused
    exact ih ⟨call,err,callEnded (stepMoved w event) made (by simp [progress]),progress,client⟩

structure Underway (cfg : Config) (agrees : (kind.backend (K := K)).State → List (Record K) → Prop)
    (browser : ℕ) (ownerId : String) (n : ℕ) (req : Request K) (w : World (kind.backend (K := K))) : Prop where
  known : Identified cfg w browser ownerId
  agreed : agrees w.ledger (records w)
  carried : Carried (fun _ _ _ _ => True) w
  numbered : Numbered w
  call : ∃ call, w.calls n = some call ∧ call.browser = browser ∧ call.ask = .mint (.ok req)

variable {browser : ℕ} {ownerId : String} {req : Request K}
  {agrees : (kind.backend (K := K)).State → List (Record K) → Prop}
  (refines : Refines kind.backend agrees)
include refines

theorem underwayRun (underway : Underway cfg agrees browser ownerId n req w) (events : List (Event K)) :
    Underway cfg agrees browser ownerId n req (events.foldl (step cfg) w) := by
  induction events generalizing w with
  | nil => exact underway
  | cons event rest ih =>
    have moved : Moved cfg w event (step cfg w event) := stepMoved w event
    obtain ⟨call,made,mine,ask⟩ := underway.call
    obtain ⟨after,held,browser',ask'⟩ := callKept moved made
    exact ih ⟨movedIdentified underway.known refines underway.agreed moved,
      stepRecords refines underway.agreed,
      movedCarried (fun _ => trivial) (fun _ _ => trivial) underway.carried moved,
      movedNumbered underway.numbered moved,after,held,browser'.trans mine,ask'.trans ask⟩

variable (shelf : ∀ {s log}, agrees s log → kind.records s = log)
include shelf

theorem attemptTurned (underway : Underway cfg agrees browser ownerId n req w) {place : ℕ} {m : Sent K}
    {visit : Visit} (here : w.requests[place]? = some m) (mine : m.call = n) :
    Refusal (handle kind.backend cfg visit m.cookie m.ask w.ledger).1 ↔
      TurnedAway kind ownerId cfg visit req w.ledger := by
  have mem := List.mem_of_getElem? here
  obtain ⟨call,made,whose,asked⟩ := underway.carried.requests m mem
  obtain ⟨same,held,browser',ask⟩ := underway.call
  rw [mine] at made
  cases made.symm.trans held
  rw [← asked,ask]
  have cookie := underway.known.requests m mem (whose.symm.trans browser')
  exact refusalIff refines shelf underway.agreed (ownerKnown underway.known.named cookie visit.entropy)

end Steps

omit [Zero K] [Format K] in
theorem freeIff {w : World (kind.backend (K := K))} {ownerId : String}
    {agrees : (kind.backend (K := K)).State → List (Record K) → Prop}
    (shelf : ∀ {s log}, agrees s log → kind.records s = log) (agreed : agrees w.ledger (records w))
    (timestampMs : ℤ) : Free kind ownerId w.ledger timestampMs ↔
      ∀ rec ∈ records w, (startKeys K).key rec ≠ (ownerId,timestampMs) := by
  rw [Free,shelf agreed]

section Run
variable {w : World (kind.backend (K := K))} {browser : ℕ} {ownerId : String} {req : Request K}
  {agrees : (kind.backend (K := K)).State → List (Record K) → Prop}
  (refines : Refines kind.backend agrees) (shelf : ∀ {s log}, agrees s log → kind.records s = log)
  (underway : Underway cfg agrees browser ownerId n req w) {events : List (Event K)}
include refines shelf underway

theorem heardRefused (heard : HeardNo kind ownerId cfg n req w events) :
    Refused (events.foldl (step cfg) w) n := by
  obtain ⟨seen,place,visit,mid,place',rest,m,rfl,here,mine,turned,answered,waits⟩ := heard
  have before := underwayRun refines underway seen
  have refusal := (attemptTurned refines shelf before here mine).mpr turned
  -- attempts are numbered apart: what is delivered is what handleMint wrote to this one
  obtain ⟨a,answer,same⟩ := Option.map_eq_some_iff.mp answered
  rw [afterHandle here mid] at answer waits
  have known := (runOnly (handledOnly before.numbered here) mid).answer a (List.mem_of_getElem? answer) same
  subst known
  have whole : seen ++ Event.handle place visit::(mid ++ Event.deliver place'::rest) =
      (seen ++ Event.handle place visit::mid) ++ Event.deliver place'::rest := by simp
  rw [whole,List.foldl_append,List.foldl_cons,afterHandle here mid]
  cases made : (mid.foldl (step cfg) (World.handle cfg (seen.foldl (step cfg) w) place m visit)).calls n with
  | none =>
    rw [made] at waits
    contradiction
  | some call =>
    rw [made,Option.any_some] at waits
    exact refusedStays (refusedNow answer mine made waits refusal) rest

theorem refusedHeard (unanswered : ∀ a ∈ w.answers, a.call ≠ n) (waiting : ¬ Refused w n)
    (refused : Refused (events.foldl (step cfg) w) n) : HeardNo kind ownerId cfg n req w events := by
  obtain already | ⟨seen,event,rest,rfl,before,now⟩ := arisen (Refused · n) refused
  · exact absurd already waiting
  obtain old | ⟨place',a,call,rfl,here,mine,made,awaited,refusal⟩ :=
    refusedCases (stepMoved (seen.foldl (step cfg) w) event) now
  · exact absurd old before
  obtain old | ⟨first,sent,mid,rfl,missing,arrived⟩ :=
    arisen (fun v : World (kind.backend (K := K)) => a ∈ v.answers) (List.mem_of_getElem? here)
  · exact absurd mine (unanswered a old)
  obtain old | ⟨place,visit,m,rfl,request,rfl⟩ := answersCases (stepMoved (first.foldl (step cfg) w) sent) arrived
  · exact absurd old missing
  refine ⟨first,place,visit,mid,place',rest,m,by simp,request,mine,?_,?_,?_⟩
  · exact (attemptTurned refines shelf (underwayRun refines underway first) request mine).mp refusal
  · rw [here,Option.map_some]
  · rw [made,Option.any_some]
    exact awaited

theorem freeBefore (free : Free kind ownerId (events.foldl (step cfg) w).ledger req.timestampMs) :
    Free kind ownerId w.ledger req.timestampMs := by
  rw [freeIff shelf (underwayRun refines underway events).agreed] at free
  rw [freeIff shelf underway.agreed]
  exact fun rec stored => free rec (recordsStay stored events)

theorem recordedTaken (recorded : Recorded kind ownerId cfg req w events) :
    ¬ Free kind ownerId (events.foldl (step cfg) w).ledger req.timestampMs := by
  obtain ⟨seen,place,visit,rest,m,other,rfl,here,start,mintable⟩ := recorded
  have before := (underwayRun refines underway seen).agreed
  have last := (underwayRun refines underway (seen ++ .handle place visit::rest)).agreed
  rw [freeIff shelf last,List.foldl_append,List.foldl_cons]
  intro free
  have taken : ∃ rec ∈ records (step cfg (seen.foldl (step cfg) w) (.handle place visit)),
      (startKeys K).key rec = (ownerId,req.timestampMs) := by
    obtain ⟨log,handled,-⟩ := handleStep refines before cfg visit m.cookie m.ask
    simp only [step,here]
    rw [handleRecords,← handledLog handled]
    generalize (handle kind.backend cfg visit m.cookie m.ask _).1.minted = minted at handled
    cases handled with
    | quiet taken => exact start ▸ taken ownerId other mintable
    | fresh again free key =>
      obtain ⟨rfl,rfl⟩ := admittedUnique again.admitted mintable.admitted
      exact ⟨_,List.mem_append_right _ (List.mem_singleton.mpr rfl),start ▸ key⟩
  obtain ⟨rec,stored,key⟩ := taken
  exact free rec (recordsStay stored rest) key

theorem takenRecorded (taken : ¬ Free kind ownerId (events.foldl (step cfg) w).ledger req.timestampMs) :
    Recorded kind ownerId cfg req w events ∨ ¬ Free kind ownerId w.ledger req.timestampMs := by
  obtain first | ⟨seen,event,rest,rfl,before,now⟩ :=
    arisen (fun v : World (kind.backend (K := K)) => ¬ Free kind ownerId v.ledger req.timestampMs) taken
  · exact .inr first
  left
  have run := underwayRun refines underway seen
  have agreed : agrees (step cfg (seen.foldl (step cfg) w) event).ledger _ := stepRecords refines run.agreed
  rw [freeIff shelf run.agreed,not_not] at before
  rw [freeIff shelf agreed] at now
  have booked : Booked cfg _ event _ := stepBooked (seen.foldl (step cfg) w) event
  generalize step cfg (seen.foldl (step cfg) w) event = t at booked now
  cases booked with
  | idle ledger minted =>
    unfold records at now
    rw [minted] at now
    exact absurd before now
  | missing => exact absurd before now
  | @handled place visit m here =>
    obtain ⟨log,handled,-⟩ := handleStep refines run.agreed cfg visit m.cookie m.ask
    rw [handleRecords,← handledLog handled] at now
    generalize (handle kind.backend cfg visit m.cookie m.ask _).1.minted = minted at handled
    cases handled with
    | quiet => exact absurd before now
    | @fresh owner other rec mintable free key =>
      have here' : (startKeys K).key rec = (ownerId,req.timestampMs) := by
        by_contra elsewhere
        refine now fun r mem => ?_
        cases List.mem_append.mp mem with
        | inl old => exact before r old
        | inr new => exact List.mem_singleton.mp new ▸ elsewhere
      obtain ⟨rfl,start⟩ := Prod.mk.inj (key.symm.trans here')
      exact ⟨seen,place,visit,rest,m,other,rfl,here,start,mintable⟩

end Run

def begun (kind : StoreKind) (cfg : Config) (jar : ℕ → Option String) (before : List (Event K))
    (n browser : ℕ) (req : Request K) (retries : ℕ) : World (kind.backend (K := K)) :=
  step cfg (reach kind.backend cfg jar before) (.fetch n browser (.mint (.ok req)) retries)

theorem reachNumbered (jar : ℕ → Option String) (events : List (Event K)) :
    Numbered (reach kind.backend cfg jar events) := by
  induction events using List.reverseRecOn with
  | nil => exact startNumbered jar
  | append_singleton seen event ih =>
    rw [reach,List.foldl_append]
    exact movedNumbered ih (stepMoved _ event)

theorem reachCarried (jar : ℕ → Option String) (events : List (Event K)) :
    Carried (fun _ _ _ _ => True) (reach kind.backend cfg jar events) := by
  induction events using List.reverseRecOn with
  | nil => exact startCarried _ jar
  | append_singleton seen event ih =>
    rw [reach,List.foldl_append]
    exact movedCarried (fun _ => trivial) (fun _ _ => trivial) ih (stepMoved _ event)

section Begin
variable {jar : ℕ → Option String} {before : List (Event K)} {browser : ℕ} {ownerId : String}
  {req : Request K} {retries : ℕ} (unused : (reach kind.backend cfg jar before).calls n = none)
include unused

theorem begunCall : (begun kind cfg jar before n browser req retries).calls n =
    some ⟨browser,.mint (.ok req),retries + 1,.ready⟩ := by
  simp [begun,step,unused]

theorem begunWaiting : ¬ Refused (begun kind cfg jar before n browser req retries) n := by
  rintro ⟨call,err,made,progress,-⟩
  cases (begunCall unused).symm.trans made
  contradiction

theorem begunUnanswered :
    ∀ a ∈ (begun kind cfg jar before n browser req retries).answers, a.call ≠ n := by
  intro a mem mine
  have old : a ∈ (reach kind.backend cfg jar before).answers := by simpa [begun,step,unused] using mem
  obtain ⟨call,made,-⟩ := (reachCarried jar before).answers a old
  rw [mine,unused] at made
  contradiction

theorem begunUnderway {agrees : (kind.backend (K := K)).State → List (Record K) → Prop}
    (refines : Refines kind.backend agrees) (named : ownerId ≠ "")
    (cookie : (jar browser).map (parse cfg.sign) = some ownerId) :
    Underway cfg agrees browser ownerId n req (begun kind cfg jar before n browser req retries) := by
  have start : Identified cfg (World.start (B := kind.backend (K := K)) jar) browser ownerId :=
    ⟨named,cookie,by simp [World.start],by simp [World.start],by simp [World.start]⟩
  obtain ⟨agreed,known⟩ := runIdentified refines refines.start start before
  have moved : Moved cfg (reach kind.backend cfg jar before) (.fetch n browser (.mint (.ok req)) retries)
      (begun kind cfg jar before n browser req retries) := stepMoved _ _
  exact ⟨movedIdentified known refines agreed moved,stepRecords refines agreed,
    movedCarried (fun _ => trivial) (fun _ _ => trivial) (reachCarried jar before) moved,
    movedNumbered (reachNumbered jar before) moved,_,begunCall unused,rfl,rfl⟩

end Begin

theorem refusedIff (kind : StoreKind) (cfg : Config) (jar : ℕ → Option String) {browser : ℕ}
    {ownerId : String} (named : ownerId ≠ "")
    (cookie : (jar browser).map (parse cfg.sign) = some ownerId) (before after : List (Event K))
    {n : ℕ} (unused : (reach kind.backend cfg jar before).calls n = none) (req : Request K) (retries : ℕ) :
    let w := begun kind cfg jar before n browser req retries
    (∀ seen rest, after = seen ++ rest → Refused (seen.foldl (step cfg) w) n →
      Free kind ownerId (seen.foldl (step cfg) w).ledger req.timestampMs) ↔
    ¬ (HeardNo kind ownerId cfg n req w after ∧
      (Recorded kind ownerId cfg req w after ∨ ¬ Free kind ownerId w.ledger req.timestampMs)) := by
  intro w
  obtain ⟨agrees,refines,shelf,-⟩ := kindHolds (K := K) kind
  have underway : Underway cfg agrees browser ownerId n req w := begunUnderway unused refines named cookie
  constructor
  · rintro final ⟨heard,taken⟩
    have free := final after [] (List.append_nil _).symm (heardRefused refines shelf underway heard)
    cases taken with
    | inl recorded => exact recordedTaken refines shelf underway recorded free
    | inr old => exact old (freeBefore refines shelf underway free)
  · intro apart seen rest whole refused
    subst whole
    by_contra taken
    have heard := refusedHeard refines shelf underway (begunUnanswered unused) (begunWaiting unused) refused
    refine apart ⟨heardMore heard rest,?_⟩
    cases takenRecorded refines shelf underway taken with
    | inl recorded => exact .inl (recordedMore recorded rest)
    | inr old => exact .inr old

section Failing

def busy : Visit := { AccessControl.visitOf 7 with refusedFor := some 5000000000 }

def strangerMinted : List (Event (Rounded 53)) :=
  [.fetch 1 1 (.mint (.ok MintStatus.firstMint)) 2,.send 1,.handle 0 (AccessControl.visitOf 3),.deliver 0]

def requestLost : List (Event (Rounded 53)) :=
  [.send 0,.loseRequest 0,.abort 0 false,.send 0,.handle 0 busy,.deliver 0]

theorem busyOnly {seen rest : List (Event (Rounded 53))} {place : ℕ} {visit : Visit}
    (whole : requestLost = seen ++ .handle place visit::rest) : visit.refusedFor ≠ none := by
  have mem : Event.handle place visit ∈ requestLost := by simp [whole]
  simp only [requestLost,List.mem_cons,List.not_mem_nil,or_false,Event.handle.injEq,reduceCtorEq,
    false_or] at mem
  rw [mem.2]
  exact Option.some_ne_none _

theorem lostRefused :
    let w := begun .memory AccessControl.bracketed signedIn strangerMinted 0 0 MintStatus.firstMint 2
    let t := requestLost.foldl (step AccessControl.bracketed) w
    Refused t 0 ∧ (StoreKind.memory.records t.ledger).length = 1 ∧
      Free .memory "visitor" t.ledger MintStatus.firstMint.timestampMs := by
  intro w t
  have refused : Refused t 0 := by
    refine ⟨_,_,rfl,rfl,?_⟩
    decide +kernel
  have free : Free .memory "visitor" w.ledger MintStatus.firstMint.timestampMs := by
    intro rec stored
    revert rec
    decide +kernel
  refine ⟨refused,by decide +kernel,?_⟩
  refine (refusedIff .memory AccessControl.bracketed signedIn (by decide : "visitor" ≠ "")
    (by decide +kernel) strangerMinted requestLost rfl MintStatus.firstMint 2).mpr ?apart requestLost []
    (List.append_nil _).symm refused
  case apart =>
    rintro ⟨-,recorded | taken⟩
    · obtain ⟨seen,place,visit,rest,m,other,whole,-,-,mintable⟩ := recorded
      exact absurd mintable.admitted.allowed (busyOnly whole)
    · exact taken free

def answerLost : List (Event (Rounded 53)) :=
  [.send 0,.handle 0 (AccessControl.visitOf 7),.loseAnswer 0,.abort 0 true,.send 0,.handle 0 busy,.deliver 0]

theorem mintedRefused :
    let w := begun .memory AccessControl.bracketed signedIn [] 0 0 MintStatus.firstMint 2
    ¬ (Refused (answerLost.foldl (step AccessControl.bracketed) w) 0 →
      Free .memory "visitor" (answerLost.foldl (step AccessControl.bracketed) w).ledger
        MintStatus.firstMint.timestampMs) := by
  intro w final
  have refused : Refused (answerLost.foldl (step AccessControl.bracketed) w) 0 := by
    refine ⟨_,_,rfl,rfl,?_⟩
    decide +kernel
  have taken : ∃ rec ∈ StoreKind.memory.records (answerLost.foldl (step AccessControl.bracketed) w).ledger,
      (startKeys (Rounded 53)).key rec = ("visitor",MintStatus.firstMint.timestampMs) := by
    decide +kernel
  obtain ⟨rec,stored,key⟩ := taken
  exact final refused rec stored key

end Failing
end MoltenPour.RefusedMint
