import MoltenPour.CarriedAnswers
import MoltenPour.Runs
import MoltenPour.BinaryFormat

/-! A first visit asks twice without a cookie, each answer brings an owner of its
own, and the answer delivered last is the one the jar keeps. -/
namespace MoltenPour.KeptCollection
open NumberFormat BinaryFormat Pour KeyedLog Store Session Runs Handlers MintDelivery DeliverySteps MintedRecords CarriedAnswers
open LedgerDurability (StoreKind kindHolds)

section Definitions
variable {K : Type}

variable [LinearOrder K] [Zero K] [Format K] {B : Backend K}

def Settled (w : World B) (browser mark : ℕ) : Prop :=
  ∀ n call attempt, w.calls n = some call → call.browser = browser → call.awaits attempt = true →
    mark ≤ attempt

structure Shown (cfg : Config) (cookie : Option String) (rec : Record K) (s : B.State) : Prop where
  listed : ∀ visit : Visit, visit.faults = noFaults →
    ∃ recs, (handle B cfg visit cookie .list s).1.body = .records recs ∧ rec ∈ recs
  found : ∀ visit : Visit, visit.faults = noFaults →
    (handle B cfg visit cookie (.get rec.id) s).1.body = .record rec

/- Once a mint has resolved and what was sent before is over, a GET sent now shows
the record, however late it is handled. -/
def Keeps (B : Backend K) (cfg : Config) (jar : ℕ → Option String) (events : List (Event K)) : Prop :=
  ∀ seen rest, events = seen ++ rest → ∀ n browser rec, ResolvedTo (reach B cfg jar seen) n browser rec →
    Settled (reach B cfg jar events) browser (reach B cfg jar seen).attempts → ∀ more,
      Shown cfg ((reach B cfg jar events).jar browser) rec (reach B cfg jar (events ++ more)).ledger

/- An answer that sets a cookie finds no record of another owner with its browser,
and a mint's that sets none finds the cookie of its own. -/
def Undisturbed (cfg : Config) (w : World B) : Event K → Prop
  | .deliver place => ∀ a, w.answers[place]? = some a →
      (∀ value, a.res.setCookie = some value → ∀ n rec, ResolvedTo w n a.browser rec →
        parse cfg.sign value = rec.ownerId) ∧
      (a.res.setCookie = none → ∀ call body, w.calls a.call = some call → call.ask = .mint body →
        call.awaits a.attempt = true → 200 ≤ a.res.status ∧ a.res.status < 300 →
          ∀ rec ∈ a.res.records, (w.jar a.browser).map (parse cfg.sign) = some rec.ownerId)
  | _ => True

def Held (cfg : Config) (w : World B) : Prop :=
  ∀ n browser rec, ResolvedTo w n browser rec → (w.jar browser).map (parse cfg.sign) = some rec.ownerId

end Definitions

variable {K : Type} [LinearOrder K] [Zero K] [Format K] {B : Backend K} {cfg : Config}

section Steps
variable {w t : World B} {event : Event K} {n browser : ℕ} {rec : Record K}

omit [LinearOrder K] [Zero K] [Format K] in
theorem deliverJar (w : World B) (place : ℕ) (a : Answered K) (other : ℕ) :
    (w.deliver place a).jar other =
      if other = a.browser then a.res.setCookie.or (w.jar other) else w.jar other := by
  by_cases mine : other = a.browser
  · subst mine
    simp [World.deliver]
  · simp [World.deliver,mine]

theorem heldElse (held : Held cfg w) (moved : Moved cfg w event t)
    (other : ∀ place a, event = .deliver place → w.answers[place]? ≠ some a) : Held cfg t := by
  intro n browser rec resolved
  rw [jarKept moved other]
  obtain old | ⟨place,a,_,_,rfl,here,-⟩ := resolvedCases moved resolved
  · exact held n browser rec old
  · exact absurd here (other place a rfl)

theorem heldExact (vouched : Carried (Vouched cfg.sign) w) (held : Held cfg w) (moved : Moved cfg w event t) :
    Held cfg t ↔ Undisturbed cfg w event := by
  by_cases delivery : ∃ place a, event = .deliver place ∧ w.answers[place]? = some a
  case pos =>
    obtain ⟨place,a,rfl,here⟩ := delivery
    have now : t = w.deliver place a := by
      cases moved with
      | idle nothing => exact absurd here (by simp [nothing place rfl])
      | delivered there =>
        cases here.symm.trans there
        rfl
    subst now
    obtain ⟨owner,made,mine,good⟩ := vouched.answers a (List.mem_of_getElem? here)
    constructor
    · intro after b there
      cases here.symm.trans there
      constructor
      · intro value set n rec resolved
        have kept := after n a.browser rec (resolvedKept moved resolved)
        rw [deliverJar,if_pos rfl,set] at kept
        exact Option.some.inj kept
      · intro none call body made' ask awaited fine rec shown
        cases made.symm.trans made'
        have now : ResolvedTo (w.deliver place a) a.call a.browser rec := by
          refine ⟨owner.answer a.res,?_,(answerKept owner a.res).1.trans mine,?_⟩
          · simp [World.deliver,made,awaited]
          · rw [answerFine fine]
            exact mintedByOf ask rfl shown
        have kept := after _ _ rec now
        rwa [deliverJar,if_pos rfl,none] at kept
    · intro undisturbed n browser rec resolved
      obtain ⟨quiet,own⟩ := undisturbed a here
      rw [deliverJar]
      obtain old | ⟨_,b,call,body,same,there,sent,made',mine',ask,awaited,fine,shown⟩ :=
        resolvedCases moved resolved
      · split
        · next same =>
          subst same
          cases set : a.res.setCookie with
          | none => exact held n _ rec old
          | some value => exact congrArg some (quiet value set n rec old)
        · exact held n browser rec old
      · cases same
        cases here.symm.trans there
        subst sent
        cases made.symm.trans made'
        rw [if_pos (mine'.symm.trans mine)]
        cases set : a.res.setCookie with
        | none =>
          have jar := own set owner body made ask awaited fine rec shown
          rwa [← mine,mine'] at jar
        | some value => exact congrArg some (good.cookie value set rec shown)
  case neg =>
    have other : ∀ place a, event = .deliver place → w.answers[place]? ≠ some a :=
      fun place a same here => delivery ⟨place,a,same,here⟩
    refine iff_of_true (heldElse held moved other) ?_
    cases event with
    | deliver place => exact fun a here => absurd here (other place a rfl)
    | _ => trivial

end Steps

section Showing
variable {agrees : B.State → List (Record K) → Prop} (refines : Refines B agrees) {s : B.State}
  {log : List (Record K)} (agreed : agrees s log) {rec : Record K} (stored : rec ∈ log)
  (named : rec.ownerId ≠ "") {cookie : Option String}
include refines agreed stored named

theorem shownIff : Shown cfg cookie rec s ↔ cookie.map (parse cfg.sign) = some rec.ownerId := by
  constructor
  · intro shown
    obtain ⟨recs,body,mem⟩ := shown.listed ⟨none,none,⟨0⟩,noFaults⟩ rfl
    simp only [handle,handleList] at body
    cases owned : ownerID cfg.sign cookie none with
    | none =>
      rw [owned] at body
      contradiction
    | some pair =>
      obtain ⟨ownerId,setCookie⟩ := pair
      rw [owned] at body
      have shows := refines.shows agreed noFaults (.list ownerId)
      cases listed : B.list noFaults ownerId s with
      | error err =>
        simp only [listed] at body
        contradiction
      | ok answer =>
        simp only [listed,Body.records.injEq] at body
        subst body
        simp only [Backend.serve,listed,listedOf,Answer.records,Op.owner] at shows
        obtain ⟨owner,-⟩ := shows rec mem
        cases ownerResolved owned with
        | known named held good => simp [held,good,owner]
        | drawn rejected fresh => contradiction
  · intro mine
    have owned : ∀ visit : Visit, ownerID cfg.sign cookie visit.entropy = some (rec.ownerId,none) :=
      fun visit => ownerKnown named mine visit.entropy
    constructor
    · intro visit quiet
      obtain ⟨recs,listed,once⟩ := LedgerDurability.recordListed refines agreed stored
      refine ⟨recs,?_,List.count_pos_iff.mp (by omega)⟩
      simp only [handle,handleList,owned,quiet,listed]
    · intro visit quiet
      have found := LedgerDurability.recordFound refines agreed stored
      simp only [handle,handleGet,owned,quiet,found]

end Showing

def GivesUp (gone : List (Event K)) : Prop := ∀ event ∈ gone, ∃ n timedOut, event = .abort n timedOut

def allGone (events : List (Event K)) : List (Event K) :=
  events.filterMap fun event => match event with
    | .fetch n _ _ _ => some (.abort n true)
    | _ => none

omit [LinearOrder K] [Zero K] [Format K] in
theorem allGoneGivesUp (events : List (Event K)) : GivesUp (allGone events) := by
  intro event mem
  obtain ⟨begun,-,same⟩ := List.mem_filterMap.mp mem
  cases begun with
  | fetch n browser ask retries => exact ⟨n,true,(Option.some.inj same).symm⟩
  | _ => contradiction

section GivingUp
variable {w t : World B} {n : ℕ}

def Idle (w : World B) (n : ℕ) : Prop := ∀ call attempt, w.calls n = some call → call.awaits attempt = false

theorem abortIdle (w : World B) {m : ℕ} (timedOut : Bool) (idle : Idle w n ∨ n = m) :
    Idle (step cfg w (.abort m timedOut)) n := by
  intro call attempt made
  cases held : w.calls m with
  | none =>
    simp only [step,held] at made
    cases idle with
    | inl idle => exact idle call attempt made
    | inr mine =>
      rw [mine,held] at made
      contradiction
  | some before =>
    simp only [step,held,World.abort] at made
    split at made
    · by_cases mine : n = m
      · subst mine
        simp only [Function.update_self,Option.some.injEq] at made
        subst made
        exact failIdle before _ attempt
      · simp only [Function.update_of_ne mine] at made
        exact idle.resolve_right mine call attempt made
    · next still =>
      cases idle with
      | inl idle => exact idle call attempt made
      | inr mine =>
        subst mine
        cases held.symm.trans made
        cases awaited : call.awaits attempt with
        | false => rfl
        | true => exact absurd (awaitsWaiting.mp awaited) (still attempt)

theorem goneIdle {w : World B} {gone : List (Event K)} (givesUp : GivesUp gone)
    (idle : Idle w n ∨ ∃ timedOut, .abort n timedOut ∈ gone) : Idle (gone.foldl (step cfg) w) n := by
  induction gone generalizing w with
  | nil => exact idle.resolve_right (by simp)
  | cons event rest ih =>
    obtain ⟨m,timedOut,rfl⟩ := givesUp event List.mem_cons_self
    refine ih (fun later mem => givesUp later (List.mem_cons_of_mem _ mem)) ?_
    cases idle with
    | inl idle => exact .inl (abortIdle w timedOut (.inl idle))
    | inr listed =>
      obtain ⟨mark,listed⟩ := listed
      cases List.mem_cons.mp listed with
      | inl here =>
        cases here
        exact .inl (abortIdle w _ (.inr rfl))
      | inr later => exact .inr ⟨mark,later⟩

theorem goneJar {w : World B} {gone : List (Event K)} (givesUp : GivesUp gone) :
    (gone.foldl (step cfg) w).jar = w.jar := by
  induction gone generalizing w with
  | nil => rfl
  | cons event rest ih =>
    obtain ⟨m,timedOut,rfl⟩ := givesUp event List.mem_cons_self
    have moved : Moved cfg w (.abort m timedOut) (step cfg w (.abort m timedOut)) := stepMoved w _
    have here := jarKept moved (fun _ _ => nofun)
    exact (ih fun later mem => givesUp later (List.mem_cons_of_mem _ mem)).trans here

theorem goneHeld {w : World B} {gone : List (Event K)} (givesUp : GivesUp gone) (held : Held cfg w) :
    Held cfg (gone.foldl (step cfg) w) := by
  induction gone generalizing w with
  | nil => exact held
  | cons event rest ih =>
    obtain ⟨m,timedOut,rfl⟩ := givesUp event List.mem_cons_self
    refine ih (fun later mem => givesUp later (List.mem_cons_of_mem _ mem)) ?_
    exact heldElse held (stepMoved w _) (fun _ _ => nofun)

end GivingUp

section Kind
variable {kind : StoreKind} {agrees : (kind.backend (K := K)).State → List (Record K) → Prop}
  (refines : Refines kind.backend agrees) (shelf : ∀ {s log}, agrees s log → kind.records s = log)
  (only : ∀ {s t log}, agrees s log → agrees t log → s = t) {jar : ℕ → Option String}
include refines shelf only

theorem resolvedVouched {events : List (Event K)} {n browser : ℕ} {rec : Record K}
    (resolved : ResolvedTo (reach kind.backend cfg jar events) n browser rec) :
    rec ∈ records (reach kind.backend cfg jar events) ∧ rec.ownerId ≠ "" := by
  obtain ⟨ask,res,vouched,shown⟩ := resolvedGood (reachVouched refines shelf only jar events) resolved
  exact ⟨vouched.stored rec shown,vouched.named rec shown⟩

theorem heldKeeps {events : List (Event K)} (held : Held cfg (reach kind.backend cfg jar events)) :
    Keeps kind.backend cfg jar events := by
  intro seen rest whole n browser rec resolved _ more
  subst whole
  obtain ⟨stored,named⟩ := resolvedVouched refines shelf only resolved
  have agreed := @reachRecords K _ _ _ _ cfg _ refines jar (seen ++ rest ++ more)
  have kept : rec ∈ records (reach kind.backend cfg jar (seen ++ rest ++ more)) := by
    rw [List.append_assoc,reach,List.foldl_append]
    exact recordsStay stored (rest ++ more)
  refine (shownIff refines agreed kept named).mpr (held n browser rec ?_)
  rw [reach,List.foldl_append]
  exact resolvedStays resolved rest

theorem keepsHeld {events : List (Event K)} (keeps : Keeps kind.backend cfg jar (events ++ allGone events)) :
    Held cfg (reach kind.backend cfg jar events) := by
  intro n browser rec resolved
  have givesUp := allGoneGivesUp events
  have settled : Settled (reach kind.backend cfg jar (events ++ allGone events)) browser
      (reach kind.backend cfg jar events).attempts := by
    intro m call attempt made _ awaited
    obtain ⟨owner,ask,retries,begun⟩ := callFetched made
    have listed : ∃ timedOut, Event.abort m timedOut ∈ allGone events := by
      cases List.mem_append.mp begun with
      | inl early => exact ⟨true,List.mem_filterMap.mpr ⟨_,early,rfl⟩⟩
      | inr late =>
        obtain ⟨other,timedOut,same⟩ := givesUp _ late
        contradiction
    rw [reach,List.foldl_append] at made
    rw [goneIdle givesUp (.inr listed) call attempt made] at awaited
    contradiction
  have shown := keeps events (allGone events) rfl n browser rec resolved settled []
  obtain ⟨stored,named⟩ := resolvedVouched refines shelf only resolved
  have agreed := @reachRecords K _ _ _ _ cfg _ refines jar (events ++ allGone events)
  have kept : rec ∈ records (reach kind.backend cfg jar (events ++ allGone events)) := by
    rw [reach,List.foldl_append]
    exact recordsStay stored (allGone events)
  rw [List.append_nil] at shown
  have mine := (shownIff refines agreed kept named).mp shown
  rwa [reach,List.foldl_append,goneJar givesUp] at mine

end Kind

theorem keepsIff (kind : StoreKind) (cfg : Config) (jar : ℕ → Option String) (events : List (Event K)) :
    (∀ seen rest gone, events = seen ++ rest → GivesUp gone →
      Keeps (kind.backend (K := K)) cfg jar (seen ++ gone)) ↔
    ∀ seen event rest, events = seen ++ event::rest →
      Undisturbed cfg (reach kind.backend cfg jar seen) event := by
  obtain ⟨agrees,refines,shelf,only⟩ := kindHolds (K := K) kind
  have exact : (∀ seen rest, events = seen ++ rest → Held cfg (reach kind.backend cfg jar seen)) ↔
      ∀ seen event rest, events = seen ++ event::rest →
        Undisturbed cfg (reach kind.backend cfg jar seen) event :=
    alwaysIff (fun w => agrees w.ledger (records w) ∧ Carried (Vouched cfg.sign) w) (Held cfg)
      (Undisturbed cfg)
      (fun kept =>
        ⟨stepRecords refines kept.1,movedVouched refines shelf only kept.1 kept.2 (stepMoved _ _)⟩)
      (fun kept held => heldExact kept.2 held (stepMoved _ _))
      ⟨refines.start,startCarried _ jar⟩ (by simp [Held,ResolvedTo,World.start]) events
  refine Iff.trans ⟨?_,?_⟩ exact
  · exact fun keeps seen rest whole =>
      keepsHeld refines shelf only (keeps seen rest (allGone seen) whole (allGoneGivesUp seen))
  · intro held seen rest gone whole givesUp
    refine heldKeeps refines shelf only ?_
    rw [reach,List.foldl_append]
    exact goneHeld givesUp (held seen rest whole)

section Failing

theorem emptyDisplaces {jar : ℕ → Option String} {events : List (Event K)} {n browser : ℕ}
    (minted : ∃ rec, ResolvedTo (reach B cfg jar events) n browser rec)
    (settled : Settled (reach B cfg jar events) browser (reach B cfg jar events).attempts) (visit : Visit)
    (quiet : visit.faults = noFaults)
    (empty : (handle B cfg visit ((reach B cfg jar events).jar browser) .list
      (reach B cfg jar events).ledger).1.records = []) : ¬ Keeps B cfg jar events := by
  intro keeps
  obtain ⟨rec,resolved⟩ := minted
  have kept := keeps events [] (List.append_nil _).symm n browser rec resolved settled []
  rw [List.append_nil] at kept
  obtain ⟨recs,body,mem⟩ := kept.listed visit quiet
  have listed : recs = [] := by
    rw [Response.records,body] at empty
    exact empty
  rw [listed] at mem
  contradiction

def firstVisit : List (Event (Rounded 53)) :=
  [.fetch 0 0 .list 2,.send 0,.fetch 1 0 (.mint (.ok MintStatus.firstMint)) 2,.send 1,
    .handle 0 (AccessControl.visitOf 7),.handle 0 (AccessControl.visitOf 9),.deliver 1,.deliver 0]

theorem firstVisitSettled :
    Settled (reach StoreKind.memory.backend AccessControl.bracketed (fun _ => none) firstVisit) 0 2 := by
  have awaited : ∀ n < 2, ∀ attempt < 2,
      ((reach StoreKind.memory.backend AccessControl.bracketed (fun _ => none) firstVisit).calls n).all
        (fun call => !call.awaits attempt) = true := by
    decide +kernel
  intro n call attempt held _ waiting
  obtain ⟨browser,ask,retries,begun⟩ := callFetched held
  have known : n < 2 := by
    simp only [firstVisit,List.mem_cons,List.not_mem_nil,Event.fetch.injEq,or_false,reduceCtorEq,
      false_or] at begun
    omega
  by_contra early
  have waits := awaited n known attempt (not_le.mp early)
  rw [held,Option.all_some,waiting] at waits
  contradiction

theorem listingDisplaces :
    ¬ Keeps StoreKind.memory.backend AccessControl.bracketed (fun _ => none) firstVisit := by
  refine emptyDisplaces (resolvedSome (n := 1) ?_) firstVisitSettled (AccessControl.visitOf 3) rfl ?_
  all_goals decide +kernel

end Failing
end MoltenPour.KeptCollection
