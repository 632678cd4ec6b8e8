import MoltenPour.Handlers
import MoltenPour.MintDelivery

/-! What one event does to the calls, the requests and the answers, guards included,
said once: every invariant of the runs is read off it. -/
namespace MoltenPour.DeliverySteps
open NumberFormat Pour Store Session Handlers MintDelivery

section Calls
variable {K : Type}

theorem failKept (call : Call K) (err : ApiError) :
    (call.fail err).browser = call.browser ∧ (call.fail err).ask = call.ask := ⟨rfl,rfl⟩

theorem failUnresolved (call : Call K) (err : ApiError) (res : Response K) :
    (call.fail err).progress ≠ .resolved res := by
  unfold Call.fail
  split <;> simp

theorem answerKept (call : Call K) (res : Response K) :
    (call.answer res).browser = call.browser ∧ (call.answer res).ask = call.ask := by
  unfold Call.answer
  split
  · exact ⟨rfl,rfl⟩
  · exact failKept call _

theorem answerResolved {call : Call K} {res other : Response K}
    (resolved : (call.answer res).progress = .resolved other) :
    other = res ∧ 200 ≤ res.status ∧ res.status < 300 := by
  unfold Call.answer at resolved
  split at resolved
  · next fine =>
    cases resolved
    exact ⟨rfl,fine⟩
  · exact absurd resolved (failUnresolved call _ other)

theorem answerFine {call : Call K} {res : Response K} (fine : 200 ≤ res.status ∧ res.status < 300) :
    call.answer res = { call with progress := .resolved res } := if_pos fine

theorem answerRefused {call : Call K} {res : Response K}
    (refused : ¬ (200 ≤ res.status ∧ res.status < 300)) : call.answer res = call.fail (failureFor res) :=
  if_neg refused

theorem failIdle (call : Call K) (err : ApiError) (attempt : ℕ) : (call.fail err).awaits attempt = false := by
  unfold Call.awaits
  split
  · next waited held =>
    unfold Call.fail at held
    split at held <;> contradiction
  · rfl

theorem awaitsWaiting {call : Call K} {attempt : ℕ} :
    call.awaits attempt = true ↔ call.progress = .waiting attempt := by
  unfold Call.awaits
  split
  · next waited held => simp [held]
  · next other => simpa using fun held => other attempt held

end Calls

variable {K : Type} [LinearOrder K] [Zero K] [Format K] {B : Backend K} {cfg : Config}

inductive Moved (cfg : Config) (w : World B) : Event K → World B → Prop where
  | idle {event} (nothing : ∀ place, event = .deliver place → w.answers[place]? = none)
      (nobody : ∀ place visit, event = .handle place visit → w.requests[place]? = none) :
      Moved cfg w event w
  | fetched {n browser ask retries} (free : w.calls n = none) :
      Moved cfg w (.fetch n browser ask retries)
        { w with calls := Function.update w.calls n (some ⟨browser,ask,retries + 1,.ready⟩) }
  | sent {n call} (made : w.calls n = some call) (ready : call.progress = .ready) :
      Moved cfg w (.send n) { w with
        calls := Function.update w.calls n (some { call with
          attemptsLeft := call.attemptsLeft - 1, progress := .waiting w.attempts })
        requests := w.requests ++ [⟨n,call.browser,w.attempts,w.jar call.browser,call.ask⟩]
        attempts := w.attempts + 1 }
  | handled {place visit m} (here : w.requests[place]? = some m) :
      Moved cfg w (.handle place visit) (w.handle cfg place m visit)
  | requestLost (place) :
      Moved cfg w (.loseRequest place) { w with requests := w.requests.eraseIdx place }
  | answerLost (place) : Moved cfg w (.loseAnswer place) { w with answers := w.answers.eraseIdx place }
  | delivered {place a} (here : w.answers[place]? = some a) :
      Moved cfg w (.deliver place) (w.deliver place a)
  | aborted {n call attempt timedOut} (made : w.calls n = some call)
      (waiting : call.progress = .waiting attempt) :
      Moved cfg w (.abort n timedOut)
        { w with calls := Function.update w.calls n (some (call.abort timedOut)) }

theorem stepMoved (w : World B) (event : Event K) : Moved cfg w event (step cfg w event) := by
  cases event with
  | fetch n browser ask retries =>
    cases free : w.calls n with
    | none =>
      simp only [step,free]
      exact .fetched free
    | some call =>
      simp only [step,free]
      exact .idle (by simp) (by simp)
  | send n =>
    cases made : w.calls n with
    | none =>
      simp only [step,made]
      exact .idle (by simp) (by simp)
    | some call =>
      simp only [step,made]
      unfold World.send
      split
      · next ready => exact .sent made ready
      · exact .idle (by simp) (by simp)
  | handle place visit =>
    cases here : w.requests[place]? with
    | none =>
      simp only [step,here]
      refine .idle (by simp) fun other _ same => ?_
      cases same
      exact here
    | some m =>
      simp only [step,here]
      exact .handled here
  | loseRequest place => exact .requestLost place
  | loseAnswer place => exact .answerLost place
  | deliver place =>
    cases here : w.answers[place]? with
    | none =>
      simp only [step,here]
      refine .idle (fun other same => ?_) (by simp)
      cases same
      exact here
    | some a =>
      simp only [step,here]
      exact .delivered here
  | abort n timedOut =>
    cases made : w.calls n with
    | none =>
      simp only [step,made]
      exact .idle (by simp) (by simp)
    | some call =>
      simp only [step,made]
      unfold World.abort
      split
      · next attempt waiting => exact .aborted made waiting
      · exact .idle (by simp) (by simp)

inductive CallMoved (w : World B) (n : ℕ) : Event K → Call K → Prop where
  | same {event call} (made : w.calls n = some call) : CallMoved w n event call
  | began {browser ask retries} (free : w.calls n = none) :
      CallMoved w n (.fetch n browser ask retries) ⟨browser,ask,retries + 1,.ready⟩
  | sent {before} (made : w.calls n = some before) (ready : before.progress = .ready) :
      CallMoved w n (.send n)
        { before with attemptsLeft := before.attemptsLeft - 1, progress := .waiting w.attempts }
  | answered {place a before} (here : w.answers[place]? = some a) (mine : a.call = n)
      (made : w.calls n = some before) (awaited : before.progress = .waiting a.attempt) :
      CallMoved w n (.deliver place) (before.answer a.res)
  | aborted {before attempt timedOut} (made : w.calls n = some before)
      (waiting : before.progress = .waiting attempt) :
      CallMoved w n (.abort n timedOut) (before.abort timedOut)

section Moving
variable {w t : World B} {event : Event K} {n : ℕ} {call : Call K}

theorem callMoved (moved : Moved cfg w event t) (made : t.calls n = some call) :
    CallMoved w n event call := by
  cases moved with
  | idle => exact .same made
  | @fetched m browser ask retries free =>
    by_cases mine : n = m
    · subst mine
      simp only [Function.update_self,Option.some.injEq] at made
      subst made
      exact .began free
    · simp only [Function.update_of_ne mine] at made
      exact .same made
  | @sent m before held ready =>
    by_cases mine : n = m
    · subst mine
      simp only [Function.update_self,Option.some.injEq] at made
      subst made
      exact .sent held ready
    · simp only [Function.update_of_ne mine] at made
      exact .same made
  | handled => exact .same made
  | requestLost => exact .same made
  | answerLost => exact .same made
  | @delivered place a here =>
    simp only [World.deliver] at made
    by_cases mine : n = a.call
    · subst mine
      simp only [Function.update_self,Option.map_eq_some_iff] at made
      obtain ⟨before,held,answered⟩ := made
      split at answered
      · next awaited =>
        subst answered
        exact .answered here rfl held (awaitsWaiting.mp awaited)
      · subst answered
        exact .same held
    · simp only [Function.update_of_ne mine] at made
      exact .same made
  | @aborted m before attempt timedOut held waiting =>
    by_cases mine : n = m
    · subst mine
      simp only [Function.update_self,Option.some.injEq] at made
      subst made
      exact .aborted held waiting
    · simp only [Function.update_of_ne mine] at made
      exact .same made

theorem callKept (moved : Moved cfg w event t) (made : w.calls n = some call) :
    ∃ after, t.calls n = some after ∧ after.browser = call.browser ∧ after.ask = call.ask := by
  cases moved with
  | idle => exact ⟨call,made,rfl,rfl⟩
  | @fetched m browser ask retries free =>
    have other : n ≠ m := by
      intro same
      rw [same,free] at made
      contradiction
    exact ⟨call,by simpa [Function.update_of_ne other] using made,rfl,rfl⟩
  | @sent m before held ready =>
    by_cases mine : n = m
    · subst mine
      cases made.symm.trans held
      exact ⟨_,Function.update_self ..,rfl,rfl⟩
    · exact ⟨call,by simpa [Function.update_of_ne mine] using made,rfl,rfl⟩
  | handled => exact ⟨call,made,rfl,rfl⟩
  | requestLost => exact ⟨call,made,rfl,rfl⟩
  | answerLost => exact ⟨call,made,rfl,rfl⟩
  | @delivered place a here =>
    by_cases mine : n = a.call
    · subst mine
      refine ⟨if call.awaits a.attempt then call.answer a.res else call,?_,?_⟩
      · simp only [World.deliver,Function.update_self,made,Option.map_some]
      · split
        · exact answerKept call a.res
        · exact ⟨rfl,rfl⟩
    · exact ⟨call,by simpa [World.deliver,Function.update_of_ne mine] using made,rfl,rfl⟩
  | @aborted m before attempt timedOut held waiting =>
    by_cases mine : n = m
    · subst mine
      cases made.symm.trans held
      exact ⟨_,Function.update_self ..,rfl,rfl⟩
    · exact ⟨call,by simpa [Function.update_of_ne mine] using made,rfl,rfl⟩

theorem callEnded (moved : Moved cfg w event t) (made : w.calls n = some call)
    (ended : call.progress ≠ .ready ∧ ∀ attempt, call.progress ≠ .waiting attempt) :
    t.calls n = some call := by
  obtain ⟨after,held,-⟩ := callKept moved made
  cases callMoved moved held with
  | same still => rwa [made.symm.trans still]
  | began free =>
    rw [free] at made
    contradiction
  | sent before ready =>
    cases made.symm.trans before
    exact absurd ready ended.1
  | answered here mine before awaited =>
    cases made.symm.trans before
    exact absurd awaited (ended.2 _)
  | aborted before waiting =>
    cases made.symm.trans before
    exact absurd waiting (ended.2 _)

theorem jarKept (moved : Moved cfg w event t)
    (other : ∀ place a, event = .deliver place → w.answers[place]? ≠ some a) : t.jar = w.jar := by
  cases moved with
  | delivered here => exact absurd here (other _ _ rfl)
  | _ => rfl

theorem answersCases (moved : Moved cfg w event t) {a : Answered K} (mem : a ∈ t.answers) :
    a ∈ w.answers ∨ ∃ place visit m, event = .handle place visit ∧ w.requests[place]? = some m ∧
      a = ⟨m.call,m.browser,m.attempt,(handle B cfg visit m.cookie m.ask w.ledger).1⟩ := by
  cases moved with
  | @handled place visit m here =>
    cases List.mem_append.mp mem with
    | inl old => exact .inl old
    | inr new => exact .inr ⟨place,visit,m,rfl,here,List.mem_singleton.mp new⟩
  | answerLost => exact .inl (List.mem_of_mem_eraseIdx mem)
  | delivered => exact .inl (List.mem_of_mem_eraseIdx mem)
  | _ => exact .inl mem

end Moving

section Numbers

structure Numbered (w : World B) : Prop where
  below : ∀ m ∈ w.requests, m.attempt < w.attempts
  answered : ∀ a ∈ w.answers, a.attempt < w.attempts
  distinct : (w.requests.map Sent.attempt).Nodup
  apart : ∀ m ∈ w.requests, ∀ a ∈ w.answers, m.attempt ≠ a.attempt

omit [LinearOrder K] [Zero K] [Format K] in
theorem erasedApart {requests : List (Sent K)} (distinct : (requests.map Sent.attempt).Nodup) {place : ℕ}
    {m other : Sent K} (here : requests[place]? = some m) (mem : other ∈ requests.eraseIdx place) :
    other.attempt ≠ m.attempt := by
  obtain ⟨index,elsewhere,there⟩ := List.mem_eraseIdx_iff_getElem?.mp mem
  intro same
  have listed : (requests.map Sent.attempt)[place]? = some m.attempt := by simp [here]
  have again : (requests.map Sent.attempt)[index]? = some m.attempt := by simp [there,same]
  obtain ⟨low,-⟩ := List.getElem?_eq_some_iff.mp listed
  exact elsewhere ((List.getElem?_inj low distinct).mp (listed.trans again.symm)).symm

theorem movedNumbered {w t : World B} {event : Event K} (numbered : Numbered w) (moved : Moved cfg w event t) :
    Numbered t := by
  obtain ⟨below,answered,distinct,apart⟩ := numbered
  have erased : ∀ place, ((w.requests.eraseIdx place).map Sent.attempt).Nodup := fun place =>
    distinct.sublist (List.Sublist.map _ (List.eraseIdx_sublist ..))
  cases moved with
  | @sent n call made ready =>
    refine ⟨?below,?answered,?distinct,?apart⟩
    case below =>
      intro m mem
      cases List.mem_append.mp mem with
      | inl old => exact Nat.lt_succ_of_lt (below m old)
      | inr new =>
        cases List.mem_singleton.mp new
        exact Nat.lt_succ_self _
    case answered => exact fun a mem => Nat.lt_succ_of_lt (answered a mem)
    case distinct =>
      rw [List.map_append,List.map_singleton,List.nodup_append]
      refine ⟨distinct,List.nodup_singleton _,?_⟩
      intro number old new mem
      obtain ⟨m,listed,rfl⟩ := List.mem_map.mp old
      cases List.mem_singleton.mp mem
      exact (below m listed).ne
    case apart =>
      intro m mem a listed
      cases List.mem_append.mp mem with
      | inl old => exact apart m old a listed
      | inr new =>
        cases List.mem_singleton.mp new
        exact (answered a listed).ne'
  | @handled place visit m here =>
    refine ⟨fun other mem => below other (List.mem_of_mem_eraseIdx mem),?answered,erased place,?apart⟩
    case answered =>
      intro a mem
      cases List.mem_append.mp mem with
      | inl old => exact answered a old
      | inr new =>
        cases List.mem_singleton.mp new
        exact below m (List.mem_of_getElem? here)
    case apart =>
      intro other mem a listed
      cases List.mem_append.mp listed with
      | inl old => exact apart other (List.mem_of_mem_eraseIdx mem) a old
      | inr new =>
        cases List.mem_singleton.mp new
        exact erasedApart distinct here mem
  | requestLost place =>
    exact ⟨fun m mem => below m (List.mem_of_mem_eraseIdx mem),answered,erased place,
      fun m mem => apart m (List.mem_of_mem_eraseIdx mem)⟩
  | answerLost place =>
    exact ⟨below,fun a mem => answered a (List.mem_of_mem_eraseIdx mem),distinct,
      fun m mem a listed => apart m mem a (List.mem_of_mem_eraseIdx listed)⟩
  | delivered here =>
    exact ⟨below,fun a mem => answered a (List.mem_of_mem_eraseIdx mem),distinct,
      fun m mem a listed => apart m mem a (List.mem_of_mem_eraseIdx listed)⟩
  | _ => exact ⟨below,answered,distinct,apart⟩

omit [LinearOrder K] [Zero K] [Format K] in
theorem startNumbered (jar : ℕ → Option String) : Numbered (World.start (B := B) jar) := by
  refine ⟨fun m mem => ?_,fun a mem => ?_,List.nodup_nil,fun m mem => ?_⟩
  · cases mem
  · cases mem
  · cases mem

/- The one answer an attempt is ever given. -/
structure Only (a : Answered K) (w : World B) : Prop where
  below : a.attempt < w.attempts
  asked : ∀ m ∈ w.requests, m.attempt ≠ a.attempt
  answer : ∀ b ∈ w.answers, b.attempt = a.attempt → b = a

theorem handledOnly {w : World B} (numbered : Numbered w) {place : ℕ} {m : Sent K} {visit : Visit}
    (here : w.requests[place]? = some m) :
    Only ⟨m.call,m.browser,m.attempt,(handle B cfg visit m.cookie m.ask w.ledger).1⟩
      (w.handle cfg place m visit) := by
  have mem := List.mem_of_getElem? here
  refine ⟨numbered.below m mem,fun other listed => erasedApart numbered.distinct here listed,?_⟩
  intro b listed same
  cases List.mem_append.mp listed with
  | inl old => exact absurd same.symm (numbered.apart m mem b old)
  | inr new => exact List.mem_singleton.mp new

theorem movedOnly {w t : World B} {event : Event K} {a : Answered K} (only : Only a w)
    (moved : Moved cfg w event t) : Only a t := by
  obtain ⟨below,asked,answer⟩ := only
  cases moved with
  | sent made ready =>
    refine ⟨Nat.lt_succ_of_lt below,fun m mem => ?_,answer⟩
    cases List.mem_append.mp mem with
    | inl old => exact asked m old
    | inr new =>
      cases List.mem_singleton.mp new
      exact below.ne'
  | handled here =>
    refine ⟨below,fun m mem => asked m (List.mem_of_mem_eraseIdx mem),fun b mem same => ?_⟩
    cases List.mem_append.mp mem with
    | inl old => exact answer b old same
    | inr new =>
      cases List.mem_singleton.mp new
      exact absurd same (asked _ (List.mem_of_getElem? here))
  | requestLost => exact ⟨below,fun m mem => asked m (List.mem_of_mem_eraseIdx mem),answer⟩
  | answerLost => exact ⟨below,asked,fun b mem => answer b (List.mem_of_mem_eraseIdx mem)⟩
  | delivered => exact ⟨below,asked,fun b mem => answer b (List.mem_of_mem_eraseIdx mem)⟩
  | _ => exact ⟨below,asked,answer⟩

theorem afterHandle {w : World B} {seen : List (Event K)} {place : ℕ} {m : Sent K} {visit : Visit}
    (here : (seen.foldl (step cfg) w).requests[place]? = some m) (mid : List (Event K)) :
    (seen ++ Event.handle place visit::mid).foldl (step cfg) w =
      mid.foldl (step cfg) ((seen.foldl (step cfg) w).handle cfg place m visit) := by
  rw [List.foldl_append,List.foldl_cons]
  simp only [step,here]

theorem runOnly {w : World B} {a : Answered K} (only : Only a w) (events : List (Event K)) :
    Only a (events.foldl (step cfg) w) := by
  induction events generalizing w with
  | nil => exact only
  | cons event rest ih => exact ih (movedOnly only (stepMoved w event))

end Numbers

section Runs

theorem callBegun {w t : World B} {event : Event K} {n : ℕ} {call : Call K} (moved : Moved cfg w event t)
    (made : t.calls n = some call) :
    (∃ before, w.calls n = some before) ∨ ∃ browser ask retries, event = .fetch n browser ask retries := by
  cases callMoved moved made with
  | same held => exact .inl ⟨_,held⟩
  | began free => exact .inr ⟨_,_,_,rfl⟩
  | sent held => exact .inl ⟨_,held⟩
  | answered here mine held => exact .inl ⟨_,held⟩
  | aborted held => exact .inl ⟨_,held⟩

theorem callFetched {jar : ℕ → Option String} {events : List (Event K)} {n : ℕ} {call : Call K}
    (made : (reach B cfg jar events).calls n = some call) :
    ∃ browser ask retries, Event.fetch n browser ask retries ∈ events := by
  induction events using List.reverseRecOn generalizing call with
  | nil => cases made
  | append_singleton seen event ih =>
    rw [reach,List.foldl_append] at made
    obtain ⟨before,held⟩ | ⟨browser,ask,retries,rfl⟩ := callBegun (stepMoved (reach B cfg jar seen) event) made
    · obtain ⟨browser,ask,retries,mem⟩ := ih held
      exact ⟨browser,ask,retries,List.mem_append_left _ mem⟩
    · exact ⟨browser,ask,retries,List.mem_append_right _ (List.mem_singleton.mpr rfl)⟩

end Runs
end MoltenPour.DeliverySteps
