import MoltenPour.CarriedAnswers
import MoltenPour.SignedIn
import MoltenPour.Runs
import MoltenPour.BinaryFormat

/-! App.tsx keeps one list of pours. A listing is asked for at mount and after every
mint, and each answer replaces the list whole, in the order the answers come in. -/
namespace MoltenPour.LateListing
open NumberFormat BinaryFormat Pour KeyedLog Store Session Runs Handlers MintDelivery DeliverySteps MintedRecords CarriedAnswers
open SignedIn
open LedgerDurability (StoreKind kindHolds)

section Definitions
variable {K : Type}

def tells (call : Call K) : Bool :=
  match call.ask,call.progress with
  | .list,.resolved _ => true
  | .list,.rejected _ => true
  | .mint _,.resolved _ => true
  | _,_ => false

variable [LinearOrder K] [Zero K] [Format K]

/- `due` counts the refreshes promised and not begun, `missed` says that one failed.
`seen` is what no party sees: how long the ledger was when an attempt was handled. -/
structure Shell (B : Backend K) where
  world : World B
  pours : List (Record K)
  due : ℕ
  missed : Bool
  seen : ℕ → ℕ

variable {B : Backend K}

namespace Shell

def mount (jar : ℕ → Option String) : Shell B := ⟨World.start jar,[],1,false,fun _ => 0⟩

def ended (s : Shell B) (call : Call K) : Shell B :=
  match call.ask,call.progress with
  | .list,.resolved res => { s with pours := res.records }
  | .list,.rejected _ => { s with missed := true }
  | .mint _,.resolved _ => { s with due := s.due + 1 }
  | _,_ => s

end Shell

def step (cfg : Config) (browser : ℕ) (s : Shell B) (event : Event K) : Shell B :=
  let next : Shell B := { s with world := MintDelivery.step cfg s.world event }
  match event with
  | .fetch n owner .list _ =>
      if owner = browser then
        if s.due = 0 ∨ (s.world.calls n).isSome then s else { next with due := s.due - 1 }
      else next
  | .handle place _ =>
      match s.world.requests[place]? with
      | some m => { next with seen := Function.update s.seen m.attempt (records s.world).length }
      | none => next
  | .deliver place =>
      match s.world.answers[place]? with
      | some a =>
          match s.world.calls a.call with
          | some call =>
              if call.browser = browser ∧ call.awaits a.attempt = true then next.ended (call.answer a.res)
              else next
          | none => next
      | none => next
  | .abort n timedOut =>
      match s.world.calls n with
      | some call =>
          match call.progress with
          | .waiting _ => if call.browser = browser then next.ended (call.abort timedOut) else next
          | _ => next
      | none => next
  | _ => next

def live (B : Backend K) (cfg : Config) (browser : ℕ) (jar : ℕ → Option String)
    (events : List (Event K)) : Shell B :=
  events.foldl (step cfg browser) (Shell.mount jar)

def InFlight (w : World B) (browser n : ℕ) : Prop :=
  ∃ call, w.calls n = some call ∧ call.browser = browser ∧ call.ask = .list ∧
    (call.progress = .ready ∨ ∃ attempt, call.progress = .waiting attempt)

def Quiet (browser : ℕ) (s : Shell B) : Prop :=
  s.due = 0 ∧ s.missed = false ∧ ∀ n, ¬ InFlight s.world browser n

def Whole (browser : ℕ) (s : Shell B) : Prop :=
  Quiet browser s → ∀ n rec, ResolvedTo s.world n browser rec → s.pours.count rec = 1

/- The listing that is answered last was read after every sealed record was written. -/
def Current (browser : ℕ) (s : Shell B) : Event K → Prop
  | .deliver place => ∀ a call, s.world.answers[place]? = some a → s.world.calls a.call = some call →
      call.browser = browser → call.ask = .list → call.awaits a.attempt = true →
      200 ≤ a.res.status ∧ a.res.status < 300 → s.due = 0 → s.missed = false →
      (∀ n, InFlight s.world browser n → n = a.call) →
        ∀ n rec, ResolvedTo s.world n browser rec → rec.ledgerPosition ≤ s.seen a.attempt
  | _ => True

def Calm (w : World B) (browser : ℕ) (event : Event K) : Prop :=
  ∀ n after, CallMoved w n event after → after.browser = browser → tells after = true →
    w.calls n = some after

inductive Ran (cfg : Config) (browser : ℕ) (s : Shell B) : Event K → Shell B → Prop where
  | barred {n retries} : Ran cfg browser s (.fetch n browser .list retries) s
  | asked {n retries} (begun : (MintDelivery.step cfg s.world (.fetch n browser .list retries)).calls n =
        some ⟨browser,.list,retries + 1,.ready⟩) :
      Ran cfg browser s (.fetch n browser .list retries)
        { s with
          world := MintDelivery.step cfg s.world (.fetch n browser .list retries)
          due := s.due - 1 }
  | heard {place a call} (here : s.world.answers[place]? = some a)
      (made : s.world.calls a.call = some call) (mine : call.browser = browser) (ask : call.ask = .list)
      (awaited : call.awaits a.attempt = true) (fine : 200 ≤ a.res.status ∧ a.res.status < 300) :
      Ran cfg browser s (.deliver place)
        { s with world := MintDelivery.step cfg s.world (.deliver place), pours := a.res.records }
  | sealed {place a call body} (here : s.world.answers[place]? = some a)
      (made : s.world.calls a.call = some call) (ask : call.ask = .mint body) :
      Ran cfg browser s (.deliver place)
        { s with world := MintDelivery.step cfg s.world (.deliver place), due := s.due + 1 }
  | missed {event} (refused : ∀ place a, event = .deliver place → s.world.answers[place]? = some a →
        ¬ (200 ≤ a.res.status ∧ a.res.status < 300))
      (unhandled : ∀ place visit, event ≠ .handle place visit) :
      Ran cfg browser s event { s with world := MintDelivery.step cfg s.world event, missed := true }
  | handled {place visit m} (here : s.world.requests[place]? = some m) :
      Ran cfg browser s (.handle place visit)
        { s with
          world := MintDelivery.step cfg s.world (.handle place visit)
          seen := Function.update s.seen m.attempt (records s.world).length }
  | other {event} (calm : Calm s.world browser event)
      (unhandled : ∀ place visit m, event = .handle place visit → s.world.requests[place]? ≠ some m) :
      Ran cfg browser s event { s with world := MintDelivery.step cfg s.world event }

end Definitions

variable {K : Type} [LinearOrder K] [Zero K] [Format K] {B : Backend K} {cfg : Config}

omit [LinearOrder K] [Zero K] [Format K] in
theorem untold {call : MintDelivery.Call K}
    (unlisted : ∀ res, call.ask = .list → call.progress ≠ .resolved res)
    (unmissed : ∀ err, call.ask = .list → call.progress ≠ .rejected err)
    (unsealed : ∀ body res, call.ask = .mint body → call.progress ≠ .resolved res) : tells call = false := by
  unfold tells
  split
  · next res listing resolved => exact absurd resolved (unlisted res listing)
  · next err listing rejected => exact absurd rejected (unmissed err listing)
  · next body res minting resolved => exact absurd resolved (unsealed body res minting)
  · rfl

section Running
variable {browser : ℕ}

omit [LinearOrder K] [Zero K] [Format K] in
theorem fetchCalm {w : World B} {n owner : ℕ} {ask : Ask K} {retries : ℕ} :
    Calm w browser (.fetch n owner ask retries) := by
  intro m after moved mine told
  cases moved with
  | same made => exact made
  | began free => cases ask <;> contradiction

theorem ranFetch (s : Shell B) (n owner : ℕ) (ask : Ask K) (retries : ℕ) :
    Ran cfg browser s (.fetch n owner ask retries) (step cfg browser s (.fetch n owner ask retries)) := by
  have elsewhere : Ran cfg browser s (.fetch n owner ask retries)
      { s with world := MintDelivery.step cfg s.world (.fetch n owner ask retries) } :=
    .other fetchCalm (fun _ _ _ => nofun)
  cases ask with
  | mint body => exact elsewhere
  | get id => exact elsewhere
  | list =>
    unfold step
    dsimp only
    split
    · next mine =>
      subst mine
      split
      · exact .barred
      · next free =>
        rw [not_or,Option.not_isSome_iff_eq_none] at free
        refine .asked ?_
        simp [MintDelivery.step,free.2]
    · exact elsewhere

omit [LinearOrder K] [Zero K] [Format K] in
theorem deliverCalm {w : World B} {place : ℕ}
    (quiet : ∀ a call, w.answers[place]? = some a → w.calls a.call = some call → call.browser = browser →
      call.awaits a.attempt = true → tells (call.answer a.res) = false) :
    Calm w browser (.deliver place) := by
  intro n after moved mine told
  cases moved with
  | same made => exact made
  | @answered _ a before here sent made awaited =>
    subst sent
    have own := (answerKept before a.res).1.symm.trans mine
    rw [quiet a before here made own (awaitsWaiting.mpr awaited)] at told
    contradiction

theorem ranDeliver (s : Shell B) (place : ℕ) :
    Ran cfg browser s (.deliver place) (step cfg browser s (.deliver place)) := by
  have elsewhere : Calm s.world browser (.deliver place) → Ran cfg browser s (.deliver place)
      { s with world := MintDelivery.step cfg s.world (.deliver place) } :=
    fun calm => .other calm (fun _ _ _ => nofun)
  unfold step
  dsimp only
  cases here : s.world.answers[place]? with
  | none =>
    refine elsewhere (deliverCalm fun a call there => ?_)
    rw [here] at there
    contradiction
  | some a =>
    dsimp only
    cases made : s.world.calls a.call with
    | none =>
      refine elsewhere (deliverCalm fun b call there held => ?_)
      cases here.symm.trans there
      rw [made] at held
      contradiction
    | some call =>
      dsimp only
      split
      · next own =>
        obtain ⟨mine,awaited⟩ := own
        have still : tells (call.answer a.res) = false → Calm s.world browser (.deliver place) := by
          intro untold
          refine deliverCalm fun b before there held _ _ => ?_
          cases here.symm.trans there
          cases made.symm.trans held
          exact untold
        have ask := (answerKept call a.res).2
        unfold Shell.ended
        split
        · next res listing resolved =>
          obtain ⟨rfl,fine⟩ := answerResolved resolved
          exact .heard here made mine (ask.symm.trans listing) awaited fine
        · next err listing rejected =>
          refine .missed (fun _ b same there fine => ?_) (fun _ _ => nofun)
          cases same
          cases here.symm.trans there
          rw [answerFine fine] at rejected
          contradiction
        · next body res minting resolved => exact .sealed here made (ask.symm.trans minting)
        · next unlisted unmissed unsealed =>
          exact elsewhere (still (untold unlisted unmissed unsealed))
      · next foreign =>
        refine elsewhere (deliverCalm fun b before there held mine awaited => ?_)
        cases here.symm.trans there
        cases made.symm.trans held
        exact absurd ⟨mine,awaited⟩ foreign

omit [LinearOrder K] [Zero K] [Format K] in
theorem abortCalm {w : World B} {n : ℕ} {timedOut : Bool}
    (quiet : ∀ call attempt, w.calls n = some call → call.browser = browser →
      call.progress = .waiting attempt → tells (call.abort timedOut) = false) :
    Calm w browser (.abort n timedOut) := by
  intro m after moved mine told
  cases moved with
  | same made => exact made
  | @aborted before attempt _ made waiting =>
    rw [quiet before attempt made mine waiting] at told
    contradiction

theorem ranAbort (s : Shell B) (n : ℕ) (timedOut : Bool) :
    Ran cfg browser s (.abort n timedOut) (step cfg browser s (.abort n timedOut)) := by
  have elsewhere : Calm s.world browser (.abort n timedOut) → Ran cfg browser s (.abort n timedOut)
      { s with world := MintDelivery.step cfg s.world (.abort n timedOut) } :=
    fun calm => .other calm (fun _ _ _ => nofun)
  unfold step
  dsimp only
  cases made : s.world.calls n with
  | none =>
    refine elsewhere (abortCalm fun call attempt held => ?_)
    rw [made] at held
    contradiction
  | some call =>
    dsimp only
    split
    · next attempt waiting =>
      split
      · next mine =>
        unfold Shell.ended
        split
        · next res listing resolved => exact absurd resolved (failUnresolved _ _ res)
        · exact .missed (fun _ _ => nofun) (fun _ _ => nofun)
        · next body res minting resolved => exact absurd resolved (failUnresolved _ _ res)
        · next unlisted unmissed unsealed =>
          refine elsewhere (abortCalm fun before other held _ _ => ?_)
          cases made.symm.trans held
          exact untold unlisted unmissed unsealed
      · next foreign =>
        refine elsewhere (abortCalm fun before other held mine _ => ?_)
        cases made.symm.trans held
        exact absurd mine foreign
    · next still =>
      refine elsewhere (abortCalm fun before other held _ waiting => ?_)
      cases made.symm.trans held
      exact absurd waiting (still other)

theorem stepRan (s : Shell B) (event : Event K) : Ran cfg browser s event (step cfg browser s event) := by
  cases event with
  | fetch n owner ask retries => exact ranFetch s n owner ask retries
  | deliver place => exact ranDeliver s place
  | abort n timedOut => exact ranAbort s n timedOut
  | send n =>
    refine .other (fun m after moved _ told => ?_) (fun _ _ _ => nofun)
    cases moved with
    | same made => exact made
    | sent made ready =>
      unfold tells at told
      split at told <;> contradiction
  | handle place visit =>
    cases here : s.world.requests[place]? with
    | none =>
      simp only [step,here]
      refine .other (fun m after moved _ _ => ?_) (fun other _ m same => ?_)
      · cases moved with
        | same made => exact made
      · cases same
        simp [here]
    | some m =>
      simp only [step,here]
      exact .handled here
  | loseRequest place =>
    refine .other (fun m after moved _ _ => ?_) (fun _ _ _ => nofun)
    cases moved with
    | same made => exact made
  | loseAnswer place =>
    refine .other (fun m after moved _ _ => ?_) (fun _ _ _ => nofun)
    cases moved with
    | same made => exact made

theorem ranWorld {s t : Shell B} {event : Event K} (ran : Ran cfg browser s event t) :
    t = s ∨ t.world = MintDelivery.step cfg s.world event := by
  cases ran with
  | barred => exact .inl rfl
  | _ => exact .inr rfl

end Running

def Owned (browser : ℕ) (ownerId : String) (_w : World B) (of : ℕ) (_ask : Ask K) (res : Response K) : Prop :=
  of = browser → ∀ rec ∈ res.records, rec.ownerId = ownerId

def Dated (browser : ℕ) (ownerId : String) (s : Shell B) : Prop :=
  ∀ a ∈ s.world.answers, ∀ call, s.world.calls a.call = some call → a.browser = browser →
    call.ask = .list → 200 ≤ a.res.status ∧ a.res.status < 300 →
    s.seen a.attempt ≤ (records s.world).length ∧
    a.res.records =
      (((records s.world).take (s.seen a.attempt)).filter fun r => r.ownerId = ownerId).reverse

theorem otherWhole {browser : ℕ} {s : Shell B} {event : Event K} (whole : Whole browser s) (calm : Calm s.world browser event) :
    Whole browser { s with world := MintDelivery.step cfg s.world event } := by
  have moved := @stepMoved K _ _ _ _ cfg s.world event
  intro quiet n rec resolved
  obtain ⟨due,missed,none⟩ := quiet
  have flights : ∀ m, ¬ InFlight s.world browser m := by
    intro m flight
    obtain ⟨call,made,mine,ask,pending⟩ := flight
    obtain ⟨after,held,mine',ask'⟩ := callKept moved made
    have own := mine'.trans mine
    have listing := ask'.trans ask
    have still : tells after = true → after = call := by
      intro told
      have before := calm m after (callMoved moved held) own told
      exact Option.some.inj (before.symm.trans made)
    unfold tells at still
    rw [listing] at still
    cases progress : after.progress with
    | ready => exact none m ⟨after,held,own,listing,.inl progress⟩
    | waiting attempt => exact none m ⟨after,held,own,listing,.inr ⟨attempt,progress⟩⟩
    | resolved res =>
      rw [progress] at still
      rw [← still rfl,progress] at pending
      simp at pending
    | rejected err =>
      rw [progress] at still
      rw [← still rfl,progress] at pending
      simp at pending
  obtain ⟨call,made,mine,minted⟩ := resolved
  obtain ⟨body,res,ask,progress,shown⟩ := mintedByCases minted
  have told : tells call = true := by
    unfold tells
    rw [ask,progress]
  exact whole ⟨due,missed,flights⟩ n rec ⟨call,calm n call (callMoved moved made) mine told,mine,minted⟩

section Hearing
variable {browser : ℕ} {w : World B} {place : ℕ} {a : Answered K} {call : MintDelivery.Call K}

omit [LinearOrder K] [Zero K] [Format K] in
theorem heardFlights (made : w.calls a.call = some call) (awaited : call.awaits a.attempt = true)
    (fine : 200 ≤ a.res.status ∧ a.res.status < 300) :
    (∀ n, ¬ InFlight (w.deliver place a) browser n) ↔ ∀ n, InFlight w browser n → n = a.call := by
  have answered : (w.deliver place a).calls a.call = some { call with progress := .resolved a.res } := by
    simp [World.deliver,made,awaited,answerFine fine]
  have elsewhere : ∀ n, n ≠ a.call → (w.deliver place a).calls n = w.calls n :=
    fun n other => Function.update_of_ne other ..
  constructor
  · intro none n flight
    obtain ⟨before,held,own,listing,pending⟩ := flight
    by_contra other
    exact none n ⟨before,(elsewhere n other).trans held,own,listing,pending⟩
  · intro alone n flight
    obtain ⟨after,held,own,listing,pending⟩ := flight
    by_cases here : n = a.call
    · subst here
      cases answered.symm.trans held
      simp at pending
    · exact here (alone n ⟨after,(elsewhere n here).symm.trans held,own,listing,pending⟩)

theorem heardMinted (cfg : Config) (here : w.answers[place]? = some a) (made : w.calls a.call = some call)
    (ask : call.ask = .list) (n : ℕ) (rec : Record K) :
    ResolvedTo (w.deliver place a) n browser rec ↔ ResolvedTo w n browser rec := by
  have moved : Moved cfg w (.deliver place) (w.deliver place a) := .delivered here
  constructor
  · intro resolved
    obtain old | ⟨_,b,other,body,same,there,rfl,made',-,ask',-⟩ := resolvedCases moved resolved
    · exact old
    · cases same
      cases here.symm.trans there
      cases made.symm.trans made'
      rw [ask] at ask'
      contradiction
  · exact resolvedKept moved

end Hearing

section Ledger
variable {agrees : B.State → List (Record K) → Prop} (refines : Refines B agrees)
include refines

theorem listFine {w : World B} (agreed : agrees w.ledger (records w)) {visit : Visit} {cookie : Option String}
    {ownerId : String} (owned : ownerID cfg.sign cookie visit.entropy = some (ownerId,none))
    (fine : (handle B cfg visit cookie .list w.ledger).1.status < 300) :
    (handle B cfg visit cookie .list w.ledger).1.records =
      ((records w).filter fun r => r.ownerId = ownerId).reverse := by
  have listed := recordsListed refines agreed ownerId
  simp only [handle,handleList,owned] at fine ⊢
  cases answer : B.list visit.faults ownerId w.ledger with
  | error err =>
    rw [answer] at fine
    exact absurd fine (by simp [writeErr])
  | ok recs =>
    cases refines.faults visit.faults (.list ownerId) w.ledger with
    | inl same =>
      simp only [Backend.serve,answer,listed,listedOf,Prod.mk.injEq,Answer.listed.injEq] at same
      exact same.1
    | inr failed =>
      obtain ⟨context,failed⟩ := failed
      simp [Backend.serve,answer,listedOf] at failed

theorem takenIff {s : B.State} {log : List (Record K)} (agreed : agrees s log) {rec : Record K}
    (stored : rec ∈ log) (k : ℕ) : rec ∈ log.take k ↔ rec.ledgerPosition ≤ k := by
  have places : log.map Record.ledgerPosition = List.range' 1 log.length := (refines.sound agreed).kept.places
  have place : ∀ (i : ℕ) (low : i < log.length), log[i].ledgerPosition = i + 1 := by
    intro i low
    have here := congrArg (fun positions => positions[i]?) places
    simpa [low,Nat.add_comm] using here
  obtain ⟨i,low,rfl⟩ := List.getElem_of_mem stored
  rw [place i low,List.mem_take_iff_getElem]
  constructor
  · intro taken
    obtain ⟨j,high,same⟩ := taken
    have number := congrArg Record.ledgerPosition same
    rw [place j (by omega),place i low] at number
    omega
  · exact fun early => ⟨i,by omega,rfl⟩

theorem listedIff {s : B.State} {log : List (Record K)} (agreed : agrees s log) {rec : Record K}
    (stored : rec ∈ log) (k : ℕ) :
    (((log.take k).filter fun r => r.ownerId = rec.ownerId).reverse.count rec = 1) ↔
      rec.ledgerPosition ≤ k := by
  -- A listing has a record of its owner exactly when it is not older than the record.
  have distinct : log.Nodup := .of_map _ (placesDistinct (refines.sound agreed).kept)
  rw [← takenIff refines agreed stored k]
  constructor
  · intro once
    have mem := List.count_pos_iff.mp (Nat.lt_of_lt_of_eq Nat.one_pos once.symm)
    exact (List.mem_filter.mp (List.mem_reverse.mp mem)).1
  · intro mem
    have short : (log.take k).Nodup := distinct.sublist (List.take_sublist ..)
    refine List.count_eq_one_of_mem (List.nodup_reverse.mpr (short.filter _)) ?_
    simpa using mem

end Ledger

structure Tracked {kind : StoreKind} (agrees : (kind.backend (K := K)).State → List (Record K) → Prop)
    (cfg : Config) (browser : ℕ) (ownerId : String) (s : Shell (kind.backend (K := K))) : Prop where
  agreed : agrees s.world.ledger (records s.world)
  known : Identified cfg s.world browser ownerId
  vouched : Carried (Vouched cfg.sign) s.world
  owned : Carried (Owned browser ownerId) s.world
  numbered : Numbered s.world
  dated : Dated browser ownerId s

section Kind
variable {kind : StoreKind} {agrees : (kind.backend (K := K)).State → List (Record K) → Prop}
  (refines : Refines kind.backend agrees) (shelf : ∀ {s log}, agrees s log → kind.records s = log)
  (only : ∀ {s t log}, agrees s log → agrees t log → s = t) {browser : ℕ} {ownerId : String}
  {s t : Shell (kind.backend (K := K))} {event : Event K}
include refines

theorem ranDated (tracked : Tracked agrees cfg browser ownerId s) (ran : Ran cfg browser s event t) :
    Dated browser ownerId t := by
  obtain rfl | world := ranWorld ran
  · exact tracked.dated
  have moved : Moved cfg s.world event t.world := world ▸ stepMoved s.world event
  intro a mem after held mine ask fine
  obtain ⟨more,grown⟩ := recordsPrefix moved
  obtain old | ⟨place,visit,m,rfl,here,rfl⟩ := answersCases moved mem
  · obtain ⟨call,made,-⟩ := tracked.vouched.answers a old
    obtain ⟨later,held',-,ask'⟩ := callKept moved made
    cases held.symm.trans held'
    obtain ⟨short,listing⟩ := tracked.dated a old call made mine (ask'.symm.trans ask) fine
    have seen : t.seen a.attempt = s.seen a.attempt := by
      cases ran with
      | @handled place visit m here =>
        have other := tracked.numbered.apart m (List.mem_of_getElem? here) a old
        exact Function.update_of_ne other.symm ..
      | _ => rfl
    rw [seen,← grown,List.length_append,List.take_append_of_le_length short]
    exact ⟨by omega,listing⟩
  · have listed : m.ask = .list := by
      obtain ⟨call,made,-,ask'⟩ := tracked.vouched.requests m (List.mem_of_getElem? here)
      obtain ⟨later,held',-,ask''⟩ := callKept moved made
      cases held.symm.trans held'
      exact ask'.symm.trans (ask''.symm.trans ask)
    have seen : t.seen m.attempt = (records s.world).length := by
      cases ran with
      | handled there =>
        cases here.symm.trans there
        exact Function.update_self ..
      | missed _ unhandled => exact absurd rfl (unhandled place visit)
      | other _ unhandled => exact absurd here (unhandled place visit m rfl)
    have cookie := tracked.known.requests m (List.mem_of_getElem? here) mine
    have owned := ownerKnown tracked.known.named cookie visit.entropy
    rw [listed] at fine
    have listing := listFine refines tracked.agreed owned fine.2
    rw [seen,← grown,List.length_append,List.take_left,listed]
    exact ⟨by omega,listing⟩

theorem heardCount (tracked : Tracked agrees cfg browser ownerId s) {place : ℕ} {a : Answered K}
    {call : MintDelivery.Call K} (here : s.world.answers[place]? = some a)
    (made : s.world.calls a.call = some call) (mine : call.browser = browser) (ask : call.ask = .list)
    (fine : 200 ≤ a.res.status ∧ a.res.status < 300) {n : ℕ} {rec : Record K}
    (resolved : ResolvedTo s.world n browser rec) :
    a.res.records.count rec = 1 ↔ rec.ledgerPosition ≤ s.seen a.attempt := by
  have sent : a.browser = browser := by
    obtain ⟨sender,made',own,-⟩ := tracked.vouched.answers a (List.mem_of_getElem? here)
    cases made.symm.trans made'
    exact own.symm.trans mine
  obtain ⟨-,listing⟩ := tracked.dated a (List.mem_of_getElem? here) call made sent ask fine
  obtain ⟨_,_,vouched,shown⟩ := resolvedGood tracked.vouched resolved
  obtain ⟨_,_,owned,shown'⟩ := resolvedGood tracked.owned resolved
  rw [listing,← owned rfl rec shown']
  exact listedIff refines tracked.agreed (vouched.stored rec shown) _

theorem heardExact (tracked : Tracked agrees cfg browser ownerId s) {place : ℕ} {a : Answered K}
    {call : MintDelivery.Call K} (here : s.world.answers[place]? = some a)
    (made : s.world.calls a.call = some call) (mine : call.browser = browser) (ask : call.ask = .list)
    (awaited : call.awaits a.attempt = true) (fine : 200 ≤ a.res.status ∧ a.res.status < 300) :
    Whole browser
      { s with world := MintDelivery.step cfg s.world (.deliver place), pours := a.res.records } ↔
      Current browser s (.deliver place) := by
  have now : MintDelivery.step cfg s.world (.deliver place) = s.world.deliver place a := by
    simp only [MintDelivery.step,here]
  have flights := @heardFlights K _ browser s.world place a call made awaited fine
  have minted := @heardMinted K _ _ _ _ browser s.world place a call cfg here made ask
  rw [now]
  constructor
  · intro whole b other there held own listing waits ok due missed alone n rec resolved
    cases here.symm.trans there
    have once := whole ⟨due,missed,flights.mpr alone⟩ n rec ((minted n rec).mpr resolved)
    exact (heardCount refines tracked here made mine ask fine resolved).mp once
  · intro current quiet n rec resolved
    obtain ⟨due,missed,none⟩ := quiet
    have old := (minted n rec).mp resolved
    have early := current a call here made mine ask awaited fine due missed (flights.mp none) n rec old
    exact (heardCount refines tracked here made mine ask fine old).mpr early

theorem wholeExact (tracked : Tracked agrees cfg browser ownerId s) (whole : Whole browser s)
    (ran : Ran cfg browser s event t) : Whole browser t ↔ Current browser s event := by
  cases ran with
  | barred => exact iff_of_true whole trivial
  | asked begun =>
    refine iff_of_true (fun quiet => ?_) trivial
    exact absurd ⟨_,begun,rfl,rfl,.inl rfl⟩ (quiet.2.2 _)
  | heard here made mine ask awaited fine => exact heardExact refines tracked here made mine ask awaited fine
  | sealed here made ask =>
    refine iff_of_true (fun quiet => absurd quiet.1 (Nat.succ_ne_zero _)) ?_
    intro b other there held _ listing
    cases here.symm.trans there
    cases made.symm.trans held
    rw [ask] at listing
    contradiction
  | missed refused =>
    refine iff_of_true (fun quiet => absurd quiet.2.1 (by simp)) ?_
    cases event with
    | deliver place => exact fun a _ here _ _ _ _ fine => absurd fine (refused place a rfl here)
    | _ => trivial
  | handled here =>
    refine iff_of_true ?_ trivial
    simp only [MintDelivery.step,here]
    exact whole
  | other calm =>
    refine iff_of_true (otherWhole whole calm) ?_
    cases event with
    | deliver place =>
      intro a call here made mine ask awaited fine
      obtain ⟨own,listing⟩ := answerKept call a.res
      have told : tells (call.answer a.res) = true := by
        unfold tells
        rw [listing,ask,answerFine fine]
      have answered := calm a.call _ (.answered here rfl made (awaitsWaiting.mp awaited)) (own.trans mine) told
      have same := congrArg Call.progress (Option.some.inj (made.symm.trans answered))
      rw [answerFine fine,awaitsWaiting.mp awaited] at same
      contradiction
    | _ => trivial

include shelf only

theorem movedOwned {w u : World (kind.backend (K := K))} (agreed : agrees w.ledger (records w))
    (known : Identified cfg w browser ownerId) (owned : Carried (Owned browser ownerId) w)
    (moved : Moved cfg w event u) : Carried (Owned browser ownerId) u := by
  refine movedCarried ?_ ?_ owned moved
  · exact fun was => was
  intro place visit m _ here mine rec shown
  have disclosed := @AccessControl.handleDisclosed K _ _ _ kind cfg visit m.cookie w.ledger _ refines shelf
    _ agreed only m.ask
  obtain ⟨-,setCookie,resolved,-⟩ := disclosed.shown rec shown
  have cookie := known.requests m (List.mem_of_getElem? here) mine
  rw [ownerKnown known.named cookie visit.entropy] at resolved
  cases resolved
  rfl

theorem ranTracked (tracked : Tracked agrees cfg browser ownerId s) (ran : Ran cfg browser s event t) :
    Tracked agrees cfg browser ownerId t := by
  have dated := ranDated refines tracked ran
  obtain ⟨agreed,known,vouched,owned,numbered,-⟩ := tracked
  obtain rfl | world := ranWorld ran
  · exact ⟨agreed,known,vouched,owned,numbered,dated⟩
  have moved : Moved cfg s.world event t.world := world ▸ stepMoved s.world event
  exact ⟨world ▸ stepRecords refines agreed,movedIdentified known refines agreed moved,
    movedVouched refines shelf only agreed vouched moved,
    movedOwned refines shelf only agreed known owned moved,movedNumbered numbered moved,dated⟩

end Kind

theorem listingsIff (kind : StoreKind) (cfg : Config) (jar : ℕ → Option String) {browser : ℕ}
    {ownerId : String} (named : ownerId ≠ "")
    (cookie : (jar browser).map (parse cfg.sign) = some ownerId) (events : List (Event K)) :
    (∀ seen rest, events = seen ++ rest →
      Whole browser (live (kind.backend (K := K)) cfg browser jar seen)) ↔
    ∀ seen event rest, events = seen ++ event::rest →
      Current browser (live (kind.backend (K := K)) cfg browser jar seen) event := by
  obtain ⟨agrees,refines,shelf,only⟩ := kindHolds (K := K) kind
  have start : Tracked agrees cfg browser ownerId (Shell.mount jar) := by
    refine ⟨refines.start,⟨named,cookie,?_,?_,?_⟩,startCarried _ jar,startCarried _ jar,startNumbered jar,?_⟩
    all_goals simp [Shell.mount,World.start,Dated]
  refine alwaysIff (Tracked agrees cfg browser ownerId) (Whole browser) (Current browser)
    (fun tracked => ranTracked refines shelf only tracked (stepRan _ _))
    (fun tracked whole => wholeExact refines tracked whole (stepRan _ _)) start ?_ events
  exact fun quiet => absurd quiet.1 Nat.one_ne_zero

section Failing

def overtaken : List (Event (Rounded 53)) :=
  [.fetch 0 0 .list 2,.send 0,.handle 0 (AccessControl.visitOf 7),
    .fetch 1 0 (.mint (.ok MintStatus.firstMint)) 2,.send 1,.handle 0 (AccessControl.visitOf 7),.deliver 1,
    .fetch 2 0 .list 2,.send 2,.handle 0 (AccessControl.visitOf 7),.deliver 1,.deliver 0]

theorem liveFetched {browser n : ℕ} {jar : ℕ → Option String} {events : List (Event K)}
    {call : MintDelivery.Call K} (made : (live B cfg browser jar events).world.calls n = some call) :
    ∃ owner ask retries, Event.fetch n owner ask retries ∈ events := by
  induction events using List.reverseRecOn generalizing call with
  | nil => cases made
  | append_singleton seen event ih =>
    rw [live,List.foldl_append,List.foldl_cons,List.foldl_nil] at made
    obtain same | world := ranWorld (@stepRan K _ _ _ B cfg browser (live B cfg browser jar seen) event)
    · have still := (congrArg (fun s => s.world.calls n) same).symm.trans made
      obtain ⟨owner,ask,retries,mem⟩ := ih still
      exact ⟨owner,ask,retries,List.mem_append_left _ mem⟩
    · have now := (congrFun (congrArg World.calls world) n).symm.trans made
      obtain ⟨before,held⟩ | ⟨owner,ask,retries,rfl⟩ := callBegun (stepMoved _ event) now
      · obtain ⟨owner,ask,retries,mem⟩ := ih held
        exact ⟨owner,ask,retries,List.mem_append_left _ mem⟩
      · exact ⟨owner,ask,retries,List.mem_append_right _ (List.mem_singleton.mpr rfl)⟩

def isOver (call : MintDelivery.Call K) : Bool :=
  match call.progress with
  | .ready => false
  | .waiting _ => false
  | _ => true

omit [Zero K] [Format K] in
theorem emptyLost {browser n k : ℕ} {s : Shell B}
    (minted : (s.world.calls n).any (fun call => call.browser == browser && !(mintedBy call).isEmpty) = true)
    (begun : ∀ m call, s.world.calls m = some call → m < k)
    (closed : ∀ m < k, (s.world.calls m).all isOver = true) (due : s.due = 0) (missed : s.missed = false)
    (none : s.pours = []) : ¬ Whole browser s := by
  intro whole
  have quiet : Quiet browser s := by
    refine ⟨due,missed,?_⟩
    intro m flight
    obtain ⟨call,made,-,-,pending⟩ := flight
    have ended := closed m (begun m call made)
    rw [made,Option.all_some] at ended
    obtain ready | ⟨attempt,waiting⟩ := pending
    · simp [isOver,ready] at ended
    · simp [isOver,waiting] at ended
  obtain ⟨rec,resolved⟩ := resolvedSome minted
  have once := whole quiet n rec resolved
  rw [none] at once
  contradiction

theorem overtakenBegun (m : ℕ) (call : MintDelivery.Call (Rounded 53))
    (made : (live StoreKind.memory.backend AccessControl.bracketed 0 signedIn overtaken).world.calls m =
      some call) : m < 3 := by
  obtain ⟨owner,ask,retries,begun⟩ := liveFetched made
  simp only [overtaken,List.mem_cons,List.not_mem_nil,Event.fetch.injEq,or_false,reduceCtorEq,
    false_or] at begun
  omega

theorem overtakenLost :
    ¬ Whole 0 (live StoreKind.memory.backend AccessControl.bracketed 0 signedIn overtaken) := by
  refine emptyLost (n := 1) ?_ overtakenBegun ?_ ?_ ?_ ?_
  all_goals decide +kernel

theorem listingLosesMint : ¬ ∀ seen rest, overtaken = seen ++ rest →
    Whole 0 (live StoreKind.memory.backend AccessControl.bracketed 0 signedIn seen) :=
  fun whole => overtakenLost (whole overtaken [] (List.append_nil _).symm)

theorem overtakenNotCurrent : ¬ ∀ seen event rest, overtaken = seen ++ event::rest →
    Current 0 (live StoreKind.memory.backend AccessControl.bracketed 0 signedIn seen) event := by
  have named : "visitor" ≠ "" := by decide
  have cookie : (signedIn 0).map (parse AccessControl.bracketed.sign) = some "visitor" := by decide +kernel
  intro current
  have whole := (listingsIff .memory AccessControl.bracketed signedIn named cookie overtaken).mpr current
  exact overtakenLost (whole overtaken [] (List.append_nil _).symm)

end Failing
end MoltenPour.LateListing
