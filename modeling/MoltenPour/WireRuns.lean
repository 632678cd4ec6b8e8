import MoltenPour.RequestText

/-! A run in which every mint request goes over the wire as text, against the same run
handed the requests as they are. Only what is asked differs, never what is answered. -/
namespace MoltenPour.WireRuns
open NumberFormat BinaryFormat Pour Store Handlers MintDelivery DeliverySteps AnswerText RequestText

def carriedAsk : Ask Double → Ask Double
  | .mint (.ok req) =>
      match decode (posted req) with
      | some sent => .mint (.ok sent)
      | none => .mint (.error "")
  | ask => ask

def carriedCall (call : Call Double) : Call Double := { call with ask := carriedAsk call.ask }

def carriedSent (m : Sent Double) : Sent Double := { m with ask := carriedAsk m.ask }

def carriedEvent : Event Double → Event Double
  | .fetch n browser ask retries => .fetch n browser (carriedAsk ask) retries
  | event => event

variable {B : Backend Double} {cfg : Config}

def carried (w : World B) : World B :=
  { w with
    calls := fun n => (w.calls n).map carriedCall
    requests := w.requests.map carriedSent }

def HeldAsk (ask : Ask Double) : Prop := ∀ req, ask = .mint (.ok req) → Held req

theorem heldCarried {req : Request Double} (held : Held req) :
    carriedAsk (.mint (.ok req)) = .mint (.ok (received req)) := by
  simp only [carriedAsk,requestDecoded held]

theorem carriedHandled {ask : Ask Double} (held : HeldAsk ask) (visit : Visit) (cookie : Option String)
    (s : B.State) : handle B cfg visit cookie (carriedAsk ask) s = handle B cfg visit cookie ask s := by
  cases ask with
  | mint body =>
    cases body with
    | ok req =>
      rw [heldCarried (held req rfl)]
      exact receivedHandled B cfg visit cookie req s
    | error err => rfl
  | list => rfl
  | get id => rfl

theorem updateCarried (calls : ℕ → Option (Call Double)) (n : ℕ) (call : Option (Call Double)) :
    (fun m => (Function.update calls n call m).map carriedCall) =
      Function.update (fun m => (calls m).map carriedCall) n (call.map carriedCall) :=
  funext fun m => Function.apply_update (fun _ => Option.map carriedCall) calls n call m

structure Asking (w : World B) : Prop where
  calls : ∀ n call, w.calls n = some call → HeldAsk call.ask
  requests : ∀ m ∈ w.requests, HeldAsk m.ask

def HeldEvent (event : Event Double) : Prop :=
  ∀ n browser ask retries, event = .fetch n browser ask retries → HeldAsk ask

theorem askingStart (jar : ℕ → Option String) : Asking (World.start (B := B) jar) := by
  constructor
  · intro n call made
    cases made
  · intro m mem
    cases mem

theorem askingMoved {w t : World B} {event : Event Double} (asking : Asking w) (held : HeldEvent event)
    (moved : Moved cfg w event t) : Asking t := by
  refine ⟨fun n call made => ?calls,?requests⟩
  case calls =>
    cases callMoved moved made with
    | same before => exact asking.calls n call before
    | began => exact held _ _ _ _ rfl
    | @sent before was => exact asking.calls n before was
    | @answered place a before here mine was =>
      rw [(answerKept before a.res).2]
      exact asking.calls n before was
    | @aborted before attempt timedOut was =>
      have kept : (before.abort timedOut).ask = before.ask := (failKept before _).2
      rw [kept]
      exact asking.calls n before was
  case requests =>
    cases moved with
    | sent made =>
      intro m mem
      cases List.mem_append.mp mem with
      | inl old => exact asking.requests m old
      | inr new =>
        cases List.mem_singleton.mp new
        exact asking.calls _ _ made
    | handled => exact fun m mem => asking.requests m (List.mem_of_mem_eraseIdx mem)
    | requestLost => exact fun m mem => asking.requests m (List.mem_of_mem_eraseIdx mem)
    | _ => exact asking.requests

theorem answerCarried (call : Call Double) (res : Response Double) :
    (carriedCall call).answer res = carriedCall (call.answer res) := by
  unfold Call.answer
  split <;> rfl

theorem abortCarried (call : Call Double) (timedOut : Bool) :
    (carriedCall call).abort timedOut = carriedCall (call.abort timedOut) := rfl

theorem stepCarried {w : World B} {event : Event Double} (asking : Asking w) :
    step cfg (carried w) (carriedEvent event) = carried (step cfg w event) := by
  cases event with
  | fetch n browser ask retries =>
    cases made : w.calls n with
    | none => simp [step,carriedEvent,carried,made,updateCarried,carriedCall]
    | some call => simp [step,carriedEvent,carried,made]
  | send n =>
    cases made : w.calls n with
    | none => simp [step,carriedEvent,carried,made]
    | some call =>
      cases progress : call.progress with
      | ready =>
        simp [step,carriedEvent,carried,made,World.send,carriedCall,progress,updateCarried,carriedSent]
      | waiting => simp [step,carriedEvent,carried,made,World.send,carriedCall,progress]
      | resolved => simp [step,carriedEvent,carried,made,World.send,carriedCall,progress]
      | rejected => simp [step,carriedEvent,carried,made,World.send,carriedCall,progress]
  | handle place visit =>
    cases here : w.requests[place]? with
    | none => simp [step,carriedEvent,carried,here]
    | some m =>
      have alike : handle B cfg visit m.cookie (carriedAsk m.ask) w.ledger =
          handle B cfg visit m.cookie m.ask w.ledger :=
        carriedHandled (asking.requests m (List.mem_of_getElem? here)) visit m.cookie w.ledger
      simp [step,carriedEvent,carried,here,World.handle,carriedSent,alike,List.eraseIdx_map]
  | loseRequest place => simp [step,carriedEvent,carried,List.eraseIdx_map]
  | loseAnswer place => rfl
  | deliver place =>
    cases here : w.answers[place]? with
    | none => simp [step,carriedEvent,carried,here]
    | some a =>
      have answered : ∀ call, (if (carriedCall call).awaits a.attempt = true then (carriedCall call).answer a.res
          else carriedCall call) = carriedCall (if call.awaits a.attempt = true then call.answer a.res else call) := by
        intro call
        rw [apply_ite carriedCall,answerCarried]
        rfl
      simp [step,carriedEvent,carried,here,World.deliver,updateCarried,Function.comp_def,answered]
  | abort n timedOut =>
    cases made : w.calls n with
    | none => simp [step,carriedEvent,carried,made]
    | some call =>
      cases progress : call.progress with
      | waiting =>
        have shape : (carriedCall call).progress = .waiting _ := progress
        simp [step,carriedEvent,carried,made,World.abort,progress,shape,updateCarried,abortCarried]
      | ready => simp [step,carriedEvent,carried,made,World.abort,carriedCall,progress]
      | resolved => simp [step,carriedEvent,carried,made,World.abort,carriedCall,progress]
      | rejected => simp [step,carriedEvent,carried,made,World.abort,carriedCall,progress]

section Run
variable (jar : ℕ → Option String) {events : List (Event Double)}

theorem askingReach (held : ∀ event ∈ events, HeldEvent event) : Asking (reach B cfg jar events) := by
  induction events using List.reverseRecOn with
  | nil => exact askingStart jar
  | append_singleton seen event ih =>
    rw [reach,List.foldl_append]
    exact askingMoved (ih fun e mem => held e (List.mem_append_left _ mem))
      (held event (List.mem_append_right _ (List.mem_singleton.mpr rfl))) (stepMoved _ event)

theorem textChangesNothing (cfg : Config) (held : ∀ event ∈ events, HeldEvent event) :
    reach B cfg jar (events.map carriedEvent) = carried (reach B cfg jar events) := by
  induction events using List.reverseRecOn with
  | nil => rfl
  | append_singleton seen event ih =>
    have earlier : ∀ e ∈ seen, HeldEvent e := fun e mem => held e (List.mem_append_left _ mem)
    have asking := @askingReach B cfg jar _ earlier
    have before := ih earlier
    unfold reach at before asking ⊢
    rw [List.map_append,List.foldl_append,List.foldl_append,before]
    exact stepCarried asking

end Run

def posting : List (Event Double) :=
  [.fetch 0 0 (.mint (.ok firstRequest)) 2,.send 0,
    .handle 0 ⟨none,none,⟨1785628801000000000⟩,noFaults⟩,.deliver 0]

theorem postingCarried :
    reach MemoryLedger.memory ⟨id,5⟩ (fun _ => some "visitor") (posting.map carriedEvent) =
      carried (reach MemoryLedger.memory ⟨id,5⟩ (fun _ => some "visitor") posting) := by
  refine textChangesNothing _ _ fun event mem n browser ask retries same req asked => ?_
  subst same
  obtain ⟨-,-,asks,-⟩ : n = 0 ∧ browser = 0 ∧ ask = .mint (.ok firstRequest) ∧ retries = 2 := by
    simpa [posting] using mem
  cases asked.symm.trans asks
  exact firstHeld

end MoltenPour.WireRuns
