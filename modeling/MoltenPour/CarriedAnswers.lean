import MoltenPour.AccessControl
import MoltenPour.MintedRecords

/-! What is good of every answer of the server stays good on the way, and of whatever
a call resolves with. -/
namespace MoltenPour.CarriedAnswers
open NumberFormat Pour KeyedLog Store Session Handlers MintDelivery DeliverySteps MintedRecords
open LedgerDurability (StoreKind)

variable {K : Type} [LinearOrder K] [Zero K] [Format K] {B : Backend K} {cfg : Config}

/- What is on its way belongs to a call, and every answer is good for something: so is
whatever a call resolves with. -/
structure Carried (good : World B → ℕ → Ask K → Response K → Prop) (w : World B) : Prop where
  requests : ∀ m ∈ w.requests, ∃ call, w.calls m.call = some call ∧ call.browser = m.browser ∧
    call.ask = m.ask
  answers : ∀ a ∈ w.answers, ∃ call, w.calls a.call = some call ∧ call.browser = a.browser ∧
    good w a.browser call.ask a.res
  resolved : ∀ n call res, w.calls n = some call → call.progress = .resolved res →
    good w call.browser call.ask res

omit [LinearOrder K] [Zero K] [Format K] in
theorem startCarried (good : World B → ℕ → Ask K → Response K → Prop) (jar : ℕ → Option String) :
    Carried good (World.start (B := B) jar) := by
  refine ⟨fun m mem => ?_,fun a mem => ?_,fun n call res made => ?_⟩
  · cases mem
  · cases mem
  · cases made

theorem movedCarried {good : World B → ℕ → Ask K → Response K → Prop} {w t : World B} {event : Event K}
    (later : ∀ {browser ask res}, good w browser ask res → good t browser ask res)
    (fresh : ∀ {place visit m}, event = .handle place visit → w.requests[place]? = some m →
      good t m.browser m.ask (handle B cfg visit m.cookie m.ask w.ledger).1)
    (carried : Carried good w) (moved : Moved cfg w event t) : Carried good t := by
  refine ⟨?requests,?answers,?resolved⟩
  case requests =>
    have kept : ∀ m ∈ w.requests, ∃ call, t.calls m.call = some call ∧ call.browser = m.browser ∧
        call.ask = m.ask := by
      intro m mem
      obtain ⟨call,made,browser,ask⟩ := carried.requests m mem
      obtain ⟨after,held,browser',ask'⟩ := callKept moved made
      exact ⟨after,held,browser'.trans browser,ask'.trans ask⟩
    cases moved with
    | sent made ready =>
      intro m mem
      cases List.mem_append.mp mem with
      | inl old => exact kept m old
      | inr new =>
        cases List.mem_singleton.mp new
        exact ⟨_,Function.update_self ..,rfl,rfl⟩
    | handled here => exact fun m mem => kept m (List.mem_of_mem_eraseIdx mem)
    | requestLost => exact fun m mem => kept m (List.mem_of_mem_eraseIdx mem)
    | _ => exact kept
  case answers =>
    have kept : ∀ a ∈ w.answers, ∃ call, t.calls a.call = some call ∧ call.browser = a.browser ∧
        good t a.browser call.ask a.res := by
      intro a mem
      obtain ⟨call,made,browser,was⟩ := carried.answers a mem
      obtain ⟨after,held,browser',ask⟩ := callKept moved made
      exact ⟨after,held,browser'.trans browser,ask ▸ later was⟩
    intro a mem
    obtain old | ⟨place,visit,m,same,here,rfl⟩ := answersCases moved mem
    · exact kept a old
    · obtain ⟨call,made,browser,ask⟩ := carried.requests m (List.mem_of_getElem? here)
      obtain ⟨after,held,browser',ask'⟩ := callKept moved made
      exact ⟨after,held,browser'.trans browser,(ask'.trans ask) ▸ fresh same here⟩
  case resolved =>
    intro n call res made resolved
    cases callMoved moved made with
    | same held => exact later (carried.resolved n call res held resolved)
    | began => contradiction
    | sent => contradiction
    | @answered place a before here mine held awaited =>
      subst mine
      obtain ⟨rfl,-⟩ := answerResolved resolved
      obtain ⟨browser,ask⟩ := answerKept before a.res
      obtain ⟨sender,made',browser',was⟩ := carried.answers a (List.mem_of_getElem? here)
      cases held.symm.trans made'
      rw [browser,ask,browser']
      exact later was
    | aborted => exact absurd resolved (failUnresolved _ _ res)

section Resolving

def mintedBy (call : Call K) : List (Record K) :=
  match call.ask,call.progress with
  | .mint _,.resolved res => res.records
  | _,_ => []

def ResolvedTo (w : World B) (n browser : ℕ) (rec : Record K) : Prop :=
  ∃ call, w.calls n = some call ∧ call.browser = browser ∧ rec ∈ mintedBy call

omit [LinearOrder K] [Zero K] [Format K] in
theorem mintedByCases {call : Call K} {rec : Record K} (minted : rec ∈ mintedBy call) :
    ∃ body res, call.ask = .mint body ∧ call.progress = .resolved res ∧ rec ∈ res.records := by
  unfold mintedBy at minted
  split at minted
  · next body res ask progress => exact ⟨body,res,ask,progress,minted⟩
  · contradiction

omit [LinearOrder K] [Zero K] [Format K] in
theorem mintedByOf {call : Call K} {body : Except String (Request K)} {res : Response K} {rec : Record K}
    (ask : call.ask = .mint body) (progress : call.progress = .resolved res) (shown : rec ∈ res.records) :
    rec ∈ mintedBy call := by
  unfold mintedBy
  rw [ask,progress]
  exact shown

variable {w t : World B} {event : Event K} {n browser : ℕ} {rec : Record K}

omit [LinearOrder K] [Zero K] [Format K] in
theorem resolvedSome
    (minted : (w.calls n).any (fun call => call.browser == browser && !(mintedBy call).isEmpty) = true) :
    ∃ rec, ResolvedTo w n browser rec := by
  cases made : w.calls n with
  | none =>
    rw [made] at minted
    contradiction
  | some call =>
    rw [made,Option.any_some] at minted
    simp only [Bool.and_eq_true,beq_iff_eq,Bool.not_eq_true',List.isEmpty_eq_false_iff] at minted
    obtain ⟨rec,shown⟩ := List.exists_mem_of_ne_nil _ minted.2
    exact ⟨rec,call,made,minted.1,shown⟩

theorem resolvedKept (moved : Moved cfg w event t) (resolved : ResolvedTo w n browser rec) :
    ResolvedTo t n browser rec := by
  obtain ⟨call,made,mine,minted⟩ := resolved
  obtain ⟨body,res,ask,progress,shown⟩ := mintedByCases minted
  exact ⟨call,callEnded moved made (by simp [progress]),mine,minted⟩

theorem resolvedStays (resolved : ResolvedTo w n browser rec) (events : List (Event K)) :
    ResolvedTo (events.foldl (step cfg) w) n browser rec := by
  induction events generalizing w with
  | nil => exact resolved
  | cons event rest ih => exact ih (resolvedKept (stepMoved w event) resolved)

theorem resolvedCases (moved : Moved cfg w event t) (resolved : ResolvedTo t n browser rec) :
    ResolvedTo w n browser rec ∨ ∃ place a call body, event = .deliver place ∧
      w.answers[place]? = some a ∧ a.call = n ∧ w.calls n = some call ∧ call.browser = browser ∧
      call.ask = .mint body ∧ call.awaits a.attempt = true ∧
      (200 ≤ a.res.status ∧ a.res.status < 300) ∧ rec ∈ a.res.records := by
  obtain ⟨call,made,mine,minted⟩ := resolved
  obtain ⟨body,res,ask,progress,shown⟩ := mintedByCases minted
  cases callMoved moved made with
  | same held => exact .inl ⟨call,held,mine,minted⟩
  | began => contradiction
  | sent => contradiction
  | @answered place a before here sent held awaited =>
    obtain ⟨browser',ask'⟩ := answerKept before a.res
    obtain ⟨rfl,fine⟩ := answerResolved progress
    exact .inr ⟨place,a,before,body,rfl,here,sent,held,browser'.symm.trans mine,ask'.symm.trans ask,
      awaitsWaiting.mpr awaited,fine,shown⟩
  | aborted => exact absurd progress (failUnresolved _ _ res)

omit [LinearOrder K] [Zero K] [Format K] in
theorem resolvedGood {good : World B → ℕ → Ask K → Response K → Prop} (carried : Carried good w)
    (resolved : ResolvedTo w n browser rec) : ∃ ask res, good w browser ask res ∧ rec ∈ res.records := by
  obtain ⟨call,made,rfl,minted⟩ := resolved
  obtain ⟨body,res,-,progress,shown⟩ := mintedByCases minted
  exact ⟨call.ask,res,carried.resolved n call res made progress,shown⟩

end Resolving

structure Vouched (sign : String → String) (w : World B) (_browser : ℕ) (_ask : Ask K) (res : Response K) :
    Prop where
  stored : ∀ rec ∈ res.records, rec ∈ records w
  named : ∀ rec ∈ res.records, rec.ownerId ≠ ""
  cookie : ∀ value, res.setCookie = some value → ∀ rec ∈ res.records, parse sign value = rec.ownerId

section Kind
variable {kind : StoreKind} {agrees : (kind.backend (K := K)).State → List (Record K) → Prop}
  (refines : Refines kind.backend agrees) (shelf : ∀ {s log}, agrees s log → kind.records s = log)
  (only : ∀ {s t log}, agrees s log → agrees t log → s = t)
  {w t : World (kind.backend (K := K))} (agreed : agrees w.ledger (records w))
include refines shelf only agreed

theorem handleVouched {place : ℕ} {visit : Visit} {m : Sent K} (here : w.requests[place]? = some m) :
    Vouched cfg.sign (w.handle cfg place m visit) m.browser m.ask
      (handle kind.backend cfg visit m.cookie m.ask w.ledger).1 := by
  have next : agrees (w.handle cfg place m visit).ledger (records (w.handle cfg place m visit)) := by
    have stepped := @stepRecords K _ _ _ _ cfg _ refines w agreed (.handle place visit)
    simpa only [step,here] using stepped
  have disclosed := @AccessControl.handleDisclosed K _ _ _ kind cfg visit m.cookie w.ledger _ refines shelf
    _ agreed only m.ask
  refine ⟨?stored,?named,?cookie⟩
  case stored =>
    intro rec shown
    exact shelf next ▸ (disclosed.shown rec shown).1
  case named =>
    intro rec shown
    obtain ⟨-,setCookie,owned,-⟩ := disclosed.shown rec shown
    cases ownerResolved owned with
    | known named => exact named
    | drawn rejected fresh => exact newIDNonempty fresh
  case cookie =>
    intro value issued rec shown
    obtain ⟨-,setCookie,owned,set⟩ := disclosed.shown rec shown
    rw [issued] at set
    cases ownerResolved owned with
    | known => contradiction
    | drawn rejected fresh =>
      cases set
      exact parseIssued cfg.sign fresh

theorem movedVouched {event : Event K} (carried : Carried (Vouched cfg.sign) w) (moved : Moved cfg w event t) :
    Carried (Vouched cfg.sign) t := by
  refine movedCarried ?_ ?_ carried moved
  · intro browser ask res was
    exact ⟨fun rec shown => recordsKept moved (was.stored rec shown),was.named,was.cookie⟩
  · intro place visit m same here
    subst same
    cases moved with
    | idle nothing nobody => exact absurd here (by simp [nobody place visit rfl])
    | handled there =>
      cases here.symm.trans there
      exact handleVouched refines shelf only agreed here

end Kind

theorem reachVouched {kind : StoreKind} {agrees : (kind.backend (K := K)).State → List (Record K) → Prop}
    (refines : Refines kind.backend agrees) (shelf : ∀ {s log}, agrees s log → kind.records s = log)
    (only : ∀ {s t log}, agrees s log → agrees t log → s = t) (jar : ℕ → Option String)
    (events : List (Event K)) : Carried (Vouched cfg.sign) (reach kind.backend cfg jar events) := by
  induction events using List.reverseRecOn with
  | nil => exact startCarried _ jar
  | append_singleton seen event ih =>
    have agreed := @reachRecords K _ _ _ _ cfg _ refines jar seen
    rw [reach,List.foldl_append]
    exact movedVouched refines shelf only agreed ih (stepMoved _ event)

end MoltenPour.CarriedAnswers
