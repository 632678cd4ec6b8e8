import MoltenPour.AccessControl
import MoltenPour.MintedRecords

/-! A browser that holds an owner's cookie, and so do its requests in flight: it
stays that owner's. -/
namespace MoltenPour.SignedIn
open NumberFormat Pour KeyedLog Store Session Handlers MintDelivery DeliverySteps MintedRecords

variable {K : Type} [LinearOrder K] [Zero K] [Format K] {B : Backend K} {cfg : Config}

structure Identified (cfg : Config) (w : World B) (browser : ℕ) (ownerId : String) : Prop where
  named : ownerId ≠ ""
  jar : (w.jar browser).map (parse cfg.sign) = some ownerId
  requests : ∀ m ∈ w.requests, m.browser = browser → m.cookie.map (parse cfg.sign) = some ownerId
  answers : ∀ a ∈ w.answers, a.browser = browser → a.res.setCookie = none
  minted : ∀ taken ∈ w.minted, taken.1 = browser → taken.2.ownerId = ownerId

theorem handleSilent {visit : Visit} {cookie : Option String} {ownerId : String}
    (owned : ownerID cfg.sign cookie visit.entropy = some (ownerId,none)) (ask : Ask K) (s : B.State) :
    (handle B cfg visit cookie ask s).1.setCookie = none := by
  cases handleCookie owned ask s with
  | inl silent => exact silent
  | inr limited => exact limited.1

section Steps
variable {w : World B} {browser : ℕ} {ownerId : String} (known : Identified cfg w browser ownerId)
include known

omit [LinearOrder K] [Zero K] [Format K] in
theorem sendIdentified {calls : ℕ → Option (MintDelivery.Call K)} {n attempts : ℕ}
    {call : MintDelivery.Call K} {attempt : ℕ} :
    Identified cfg { w with
      calls := calls
      requests := w.requests ++ [⟨n,call.browser,attempt,w.jar call.browser,call.ask⟩]
      attempts := attempts } browser ownerId := by
  refine ⟨known.named,known.jar,fun m mem mine => ?_,known.answers,known.minted⟩
  cases List.mem_append.mp mem with
  | inl old => exact known.requests m old mine
  | inr new =>
    rw [List.mem_singleton] at new
    subst new
    exact (congrArg (fun b => (w.jar b).map (parse cfg.sign)) mine).trans known.jar

omit [LinearOrder K] [Zero K] [Format K] in
theorem deliverIdentified {place : ℕ} {a : Answered K} (here : a ∈ w.answers) :
    Identified cfg (w.deliver place a) browser ownerId := by
  refine ⟨known.named,?jar,known.requests,?answers,known.minted⟩
  case answers => exact fun other mem => known.answers other (List.mem_of_mem_eraseIdx mem)
  case jar =>
    by_cases mine : a.browser = browser
    · have silent := known.answers a here mine
      subst mine
      simpa [World.deliver,silent] using known.jar
    · simpa [World.deliver,Function.update_of_ne (Ne.symm mine)] using known.jar

theorem handleIdentified {agrees : B.State → List (Record K) → Prop} (refines : Refines B agrees)
    (agreed : agrees w.ledger (records w)) {place : ℕ} {m : Sent K} (visit : Visit)
    (here : m ∈ w.requests) : Identified cfg (w.handle cfg place m visit) browser ownerId := by
  refine ⟨known.named,known.jar,?requests,?answers,?minted⟩
  case requests => exact fun other mem => known.requests other (List.mem_of_mem_eraseIdx mem)
  case answers =>
    intro a mem mine
    cases List.mem_append.mp mem with
    | inl old => exact known.answers a old mine
    | inr new =>
      rw [List.mem_singleton] at new
      subst new
      exact handleSilent (ownerKnown known.named (known.requests m here mine) _) m.ask w.ledger
  case minted =>
    intro taken mem mine
    cases List.mem_append.mp mem with
    | inl old => exact known.minted taken old mine
    | inr new =>
      obtain ⟨log,handled,-⟩ := handleStep refines agreed cfg visit m.cookie m.ask
      generalize (handle B cfg visit m.cookie m.ask w.ledger).1.minted = minted at handled new
      cases handled with
      | quiet => cases new
      | fresh mintable free key =>
        cases List.mem_singleton.mp new
        have owned := ownerKnown known.named (known.requests m here mine) visit.entropy
        have owner := mintable.admitted.owner
        rw [owned] at owner
        exact (congrArg Prod.fst key).trans (Option.some.inj owner).symm

theorem movedIdentified {agrees : B.State → List (Record K) → Prop} (refines : Refines B agrees)
    (agreed : agrees w.ledger (records w)) {event : Event K} {t : World B} (moved : Moved cfg w event t) :
    Identified cfg t browser ownerId := by
  cases moved with
  | idle => exact known
  | fetched => exact ⟨known.named,known.jar,known.requests,known.answers,known.minted⟩
  | sent made ready => exact sendIdentified known
  | handled here => exact handleIdentified known refines agreed _ (List.mem_of_getElem? here)
  | requestLost place =>
    exact ⟨known.named,known.jar,fun m mem => known.requests m (List.mem_of_mem_eraseIdx mem),
      known.answers,known.minted⟩
  | answerLost place =>
    exact ⟨known.named,known.jar,known.requests,
      fun a mem => known.answers a (List.mem_of_mem_eraseIdx mem),known.minted⟩
  | delivered here => exact deliverIdentified known (List.mem_of_getElem? here)
  | aborted => exact ⟨known.named,known.jar,known.requests,known.answers,known.minted⟩

end Steps

section Run
variable {agrees : B.State → List (Record K) → Prop} (refines : Refines B agrees) {browser : ℕ}
  {ownerId : String}
include refines

theorem runIdentified {w : World B} (agreed : agrees w.ledger (records w))
    (known : Identified cfg w browser ownerId) (events : List (Event K)) :
    agrees (events.foldl (step cfg) w).ledger (records (events.foldl (step cfg) w)) ∧
      Identified cfg (events.foldl (step cfg) w) browser ownerId := by
  induction events generalizing w with
  | nil => exact ⟨agreed,known⟩
  | cons event rest ih => exact ih (stepRecords refines agreed) (movedIdentified known refines agreed (stepMoved w event))

end Run

def signedIn (browser : ℕ) : Option String :=
  if browser = 0 then some (cookieValue AccessControl.bracketed.sign "visitor") else none

end MoltenPour.SignedIn
