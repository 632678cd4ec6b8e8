import MoltenPour.ClientAddress
import MoltenPour.Panics
import MoltenPour.AnswerText

/-! api/httpapi/middleware.go: what runs around every route. A handler may return, panic
or ask to be aborted, whatever it sent before; the recorder, the recovery and the
access line agree on what the client got. -/
namespace MoltenPour.Middleware
open Bytes ClientAddress Panics

inductive Panic (V : Type) where
  | abort
  | value (v : V)
  deriving DecidableEq, Repr

structure Request where
  method : String
  path : String
  address : ClientAddress.Request
  forwardedId : String
  requestId : Option String

inductive Line (V : Type) where
  | request (requestId : Option String) (method path : String) (peer clientIp : Text) (status : ℕ)
      (durationMs : ℤ)
  | panicked (requestId : Option String) (panic : V) (stack : String)
  deriving DecidableEq, Repr

structure Server (net : Netip) where
  sessions : Manager net
  randText : String
  stack : String

abbrev Header := List (String × String)

/- textproto.CanonicalMIMEHeaderKey of a key with letters, digits and dashes only. -/
def canonical : Bool → List Char → List Char
  | _,[] => []
  | first,c::rest => (if first then c.toUpper else c.toLower)::canonical (c = '-') rest

def Header.set (header : Header) (key value : String) : Header :=
  let key := String.ofList (canonical true key.toList)
  header.filter (fun entry => entry.1 ≠ key) ++ [(key,value)]

structure Sent where
  status : ℕ
  header : Header
  deriving DecidableEq, Repr

structure World (V : Type) where
  header : Header
  sent : Option Sent
  body : List String
  code : ℕ
  log : List (Line V)
  now : ℤ
  deriving DecidableEq, Repr

abbrev Act (V A : Type) := Go (Panic V) (World V) A

inductive ResponseWriter where
  | server
  | recorder (inner : ResponseWriter)

section Handlers
variable {V : Type}

/- net/http sends the first status it is given. -/
def sendStatus (code : ℕ) (w : World V) : World V :=
  match w.sent with
  | some _ => w
  | none => { w with sent := some ⟨code,w.header⟩ }

def sendBody (b : String) (w : World V) : World V :=
  { sendStatus 200 w with body := w.body ++ [b] }

def record (code : ℕ) (w : World V) : World V := if w.code = 0 then { w with code := code } else w

def ResponseWriter.writeHeader (code : ℕ) : ResponseWriter → Act V Unit
  | .server => modify (sendStatus code)
  | .recorder inner => do
      modify (record code)
      inner.writeHeader code

def ResponseWriter.write (b : String) : ResponseWriter → Act V Unit
  | .server => modify (sendBody b)
  | .recorder inner => do
      modify (record 200)
      inner.write b

def setHeader (key value : String) : Act V Unit :=
  modify fun w => { w with header := w.header.set key value }

abbrev Handler (V : Type) := ResponseWriter → Request → Act V Unit

def write (line : Line V) : Act V Unit := modify fun w => { w with log := w.log ++ [line] }

def errorBody (msg : String) : String := String.ofList (AnswerText.writeJSON (.error msg))

def writeErr (writer : ResponseWriter) (code : ℕ) (msg : String) : Act V Unit := do
  setHeader "content-type" "application/json"
  writer.writeHeader code
  writer.write (errorBody msg)

def status (code : ℕ) : ℕ := if code = 0 then 200 else code

variable {net : Netip} (s : Server net)

def recoverer (next : Handler V) : Handler V := fun writer r => do
  match ← recovered (next writer r) with
  | none => pure ()
  | some .abort => throw .abort
  | some (.value v) =>
      write (.panicked r.requestId v s.stack)
      match writer,(← get).code with
      | .recorder _,_+1 => throw .abort
      | _,_ => writeErr writer 500 "internal error"

def accessLog (next : Handler V) : Handler V := fun writer r => do
  modify fun w => { w with code := 0 }
  let start := (← get).now
  deferred (next (.recorder writer) r) do
    let w ← get
    write (.request r.requestId r.method r.path (peer net r.address) (clientIP s.sessions r.address)
      (status w.code) ((w.now - start).tdiv 1000000))

def plainID (id : String) : Bool :=
  !(id = "" || 64 < id.utf8ByteSize) && id.toList.all fun c =>
    'a' ≤ c && c ≤ 'z' || 'A' ≤ c && c ≤ 'Z' || '0' ≤ c && c ≤ '9' || c = '-' || c = '_' || c = '.'

def requestID (next : Handler V) : Handler V := fun writer r => do
  let id := if plainID r.forwardedId then r.forwardedId else s.randText
  setHeader "X-Request-Id" id
  next writer { r with requestId := some id }

def nosniff (next : Handler V) : Handler V := fun writer r => do
  setHeader "X-Content-Type-Options" "nosniff"
  next writer r

def middleware (h : Handler V) : Handler V := nosniff (requestID s (accessLog s (recoverer s h)))

structure Outcome (V : Type) where
  propagated : Option (Panic V)
  world : World V

def serveHTTP (h : Handler V) (r : Request) (w : World V) : Outcome V :=
  match (h .server r).outcome w with
  | (.ok _,w) => ⟨none,sendStatus 200 w⟩
  | (.error v,w) => ⟨some v,w⟩

abbrev FinalCode := { code : ℕ // 200 ≤ code }

inductive Action where
  | writeHeader (code : FinalCode)
  | write (b : String)

inductive Ending (V : Type) where
  | returns
  | panics (v : V)
  | aborts

structure Behaviour (V : Type) where
  actions : List Action
  ending : Ending V
  took : ℤ

def Action.act (writer : ResponseWriter) : Action → Act V Unit
  | .writeHeader code => writer.writeHeader code
  | .write b => writer.write b

def Behaviour.handler (behaviour : Behaviour V) : Handler V := fun writer _ => do
  behaviour.actions.forM (Action.act writer)
  modify fun w => { w with now := w.now + behaviour.took }
  match behaviour.ending with
  | .returns => pure ()
  | .panics v => throw (.value v)
  | .aborts => throw .abort

def firstCode : List Action → Option ℕ
  | [] => none
  | .writeHeader code::_ => some code
  | .write _::_ => some 200

def written : List Action → List String
  | [] => []
  | .writeHeader _::rest => written rest
  | .write b::rest => b::written rest

def arriving (header : Header) (log : List (Line V)) (now : ℤ) : World V := ⟨header,none,[],0,log,now⟩

def accessLine (r : Request) (status : ℕ) (took : ℤ) : Line V :=
  .request r.requestId r.method r.path (peer net r.address) (clientIP s.sessions r.address) status
    (took.tdiv 1000000)

def isAccess : Line V → Bool
  | .request .. => true
  | .panicked .. => false

def Line.id : Line V → Option String
  | .request requestId .. => requestId
  | .panicked requestId .. => requestId

theorem sentLog (code : ℕ) (w : World V) : (sendStatus code w).log = w.log := by
  unfold sendStatus
  split <;> rfl

def Action.effect : Action → World V → World V
  | .writeHeader code,w => sendStatus code (record code w)
  | .write b,w => sendBody b (record 200 w)

theorem actEffect (action : Action) (w : World V) :
    (action.act (.recorder .server)).outcome w = (.ok (),action.effect w) := by
  cases action <;> rfl

def told (header : Header) (first : Option ℕ) (body : List String) (log : List (Line V)) (now : ℤ) : World V :=
  ⟨header,first.map fun code => ⟨code,header⟩,body,first.getD 0,log,now⟩

section Told
variable {header : Header} {first : Option ℕ} {body : List String} {log : List (Line V)} {now : ℤ}

theorem effectTold (final : ∀ code ∈ first, 200 ≤ code) (action : Action) :
    action.effect (told header first body log now) =
      told header (first.or (firstCode [action])) (body ++ written [action]) log now := by
  cases first with
  | none => cases action <;> simp [told,Action.effect,sendStatus,sendBody,record,firstCode,written]
  | some code =>
    have known : code ≠ 0 := by
      have := final code rfl
      omega
    cases action <;> simp [told,Action.effect,sendStatus,sendBody,record,firstCode,written,known]

theorem firstFinal (actions : List Action) : ∀ code ∈ firstCode actions, 200 ≤ code := by
  intro code mem
  cases actions with
  | nil => contradiction
  | cons action rest =>
    cases action with
    | writeHeader sent =>
      cases mem
      exact sent.property
    | write b =>
      cases mem
      exact le_rfl

theorem actionsTold (final : ∀ code ∈ first, 200 ≤ code) (actions : List Action) :
    actions.foldl (fun w action => action.effect w) (told header first body log now) =
      told header (first.or (firstCode actions)) (body ++ written actions) log now := by
  induction actions generalizing first body with
  | nil => simp [firstCode,written]
  | cons action rest ih =>
    have next : ∀ code ∈ first.or (firstCode [action]), 200 ≤ code := by
      intro code mem
      cases first with
      | none => exact firstFinal [action] code mem
      | some sent => exact final code mem
    rw [List.foldl_cons,effectTold final,ih next,List.append_assoc]
    cases first <;> cases action <;> rfl

def Ending.result : Ending V → Except (Panic V) Unit
  | .returns => .ok ()
  | .panics v => .error (.value v)
  | .aborts => .error .abort

theorem handlerOutcome (b : Behaviour V) (r : Request) (header : Header) (log : List (Line V)) (now : ℤ) :
    (b.handler (.recorder .server) r).outcome (arriving header log now) =
      (b.ending.result,told header (firstCode b.actions) (written b.actions) log (now + b.took)) := by
  have start : arriving header log now = told header none [] log now := rfl
  have acted := forMOk actEffect b.actions (arriving header log now)
  rw [start,actionsTold (by simp)] at acted
  unfold Behaviour.handler
  rw [start,bindOk acted]
  cases b.ending <;> rfl

theorem untouched {actions : List Action} (none : firstCode actions = none) : actions = [] := by
  cases actions with
  | nil => rfl
  | cons action rest => cases action <;> contradiction

section Recovered
variable (b : Behaviour V) (r : Request)

def fiveHundred (header : Header) (log : List (Line V)) (now : ℤ) : World V :=
  told (header.set "content-type" "application/json") (some 500) [errorBody "internal error"] log now

theorem recovererReturns (ends : b.ending = .returns) :
    (recoverer s b.handler (.recorder .server) r).outcome (arriving header log now) =
      (.ok (),told header (firstCode b.actions) (written b.actions) log (now + b.took)) := by
  have ran := handlerOutcome b r header log now
  rw [ends] at ran
  exact bindOk (recoveredOk ran) _

theorem recovererAborts (ends : b.ending = .aborts) :
    (recoverer s b.handler (.recorder .server) r).outcome (arriving header log now) =
      (.error .abort,told header (firstCode b.actions) (written b.actions) log (now + b.took)) := by
  have ran := handlerOutcome b r header log now
  rw [ends] at ran
  exact bindOk (recoveredError ran) _

theorem recovererReplaces {v : V} (ends : b.ending = .panics v) (none : firstCode b.actions = none) :
    (recoverer s b.handler (.recorder .server) r).outcome (arriving header log now) =
      (.ok (),fiveHundred header (log ++ [.panicked r.requestId v s.stack]) (now + b.took)) := by
  have ran := handlerOutcome b r header log now
  rw [ends,none,untouched none] at ran
  exact bindOk (recoveredError ran) _

theorem recovererCuts {v : V} {code : ℕ} (ends : b.ending = .panics v) (sent : firstCode b.actions = some code) :
    (recoverer s b.handler (.recorder .server) r).outcome (arriving header log now) =
      (.error .abort,told header (some code) (written b.actions) (log ++ [.panicked r.requestId v s.stack])
        (now + b.took)) := by
  have ran := handlerOutcome b r header log now
  rw [ends,sent] at ran
  refine (bindOk (recoveredError ran) _).trans ?_
  obtain ⟨n,rfl⟩ : ∃ n, code = n + 1 := ⟨code - 1,by have := firstFinal b.actions code sent; omega⟩
  rfl

end Recovered

theorem statusTold (final : ∀ code ∈ first, 200 ≤ code) :
    status (told header first body log now).code = first.getD 200 := by
  cases first with
  | none => rfl
  | some code =>
    have sent := final code rfl
    exact if_neg (by change code ≠ 0; omega)

theorem accessLogged {next : Handler V} {r : Request} {result : Except (Panic V) Unit} {took : ℤ}
    {before : List (Line V)} {start : Header} (final : ∀ code ∈ first, 200 ≤ code)
    (ran : (next (.recorder .server) r).outcome (arriving start before now) =
      (result,told header first body log (now + took))) :
    (accessLog s next .server r).outcome (arriving start before now) =
      (result,told header first body (log ++ [accessLine s r (first.getD 200) took]) (now + took)) := by
  have line : accessLine s r (first.getD 200) took = (.request r.requestId r.method r.path (peer net r.address)
      (clientIP s.sessions r.address) (status (told header first body log (now + took)).code)
      ((now + took - now).tdiv 1000000) : Line V) := by
    rw [statusTold final,add_sub_cancel_left]
    rfl
  rw [line]
  cases result with
  | ok => exact deferredOk ran
  | error v => exact deferredError ran rfl

section Served
variable (r : Request) (b : Behaviour V)

theorem servedReturns (ends : b.ending = .returns) :
    serveHTTP (accessLog s (recoverer s b.handler)) r (arriving header log now) =
      ⟨none,sendStatus 200 (told header (firstCode b.actions) (written b.actions)
        (log ++ [accessLine s r ((firstCode b.actions).getD 200) b.took]) (now + b.took))⟩ := by
  rw [serveHTTP,accessLogged s (firstFinal b.actions) (recovererReturns s b r ends)]

theorem servedReplaces {v : V} (ends : b.ending = .panics v) (none : firstCode b.actions = none) :
    serveHTTP (accessLog s (recoverer s b.handler)) r (arriving header log now) =
      ⟨.none,told (header.set "content-type" "application/json") (some 500) [errorBody "internal error"]
        (log ++ [.panicked r.requestId v s.stack] ++ [accessLine s r 500 b.took]) (now + b.took)⟩ := by
  have final : ∀ code ∈ some 500, 200 ≤ code := by simp
  rw [serveHTTP,accessLogged s final (recovererReplaces s b r ends none)]
  rfl

theorem servedCuts {v : V} {code : ℕ} (ends : b.ending = .panics v) (sent : firstCode b.actions = some code) :
    serveHTTP (accessLog s (recoverer s b.handler)) r (arriving header log now) =
      ⟨some .abort,told header (some code) (written b.actions)
        (log ++ [.panicked r.requestId v s.stack] ++ [accessLine s r code b.took]) (now + b.took)⟩ := by
  have final : ∀ c ∈ some code, 200 ≤ c := sent ▸ firstFinal b.actions
  rw [serveHTTP,accessLogged s final (recovererCuts s b r ends sent)]
  rfl

theorem servedAborts (ends : b.ending = .aborts) :
    serveHTTP (accessLog s (recoverer s b.handler)) r (arriving header log now) =
      ⟨some .abort,told header (firstCode b.actions) (written b.actions)
        (log ++ [accessLine s r ((firstCode b.actions).getD 200) b.took]) (now + b.took)⟩ := by
  rw [serveHTTP,accessLogged s (firstFinal b.actions) (recovererAborts s b r ends)]

variable (header log) (now : ℤ)

theorem servedLines : ∃ lines,
    (serveHTTP (accessLog s (recoverer s b.handler)) r (arriving header log now)).world.log = log ++ lines ∧
      lines.countP isAccess = 1 ∧ ∀ line ∈ lines, line.id = r.requestId := by
  have alone : ∀ status took, ∀ line ∈ [(accessLine s r status took : Line V)], line.id = r.requestId := by
    simp [accessLine,Line.id]
  have after : ∀ v status took,
      ∀ line ∈ [.panicked r.requestId v s.stack,(accessLine s r status took : Line V)],
        line.id = r.requestId := by
    simp [accessLine,Line.id]
  cases ends : b.ending with
  | returns =>
    rw [servedReturns s r b ends,sentLog]
    exact ⟨_,rfl,rfl,alone _ _⟩
  | aborts =>
    rw [servedAborts s r b ends]
    exact ⟨_,rfl,rfl,alone _ _⟩
  | panics v =>
    cases sent : firstCode b.actions with
    | none =>
      rw [servedReplaces s r b ends sent]
      exact ⟨_,List.append_assoc ..,rfl,after _ _ _⟩
    | some code =>
      rw [servedCuts s r b ends sent]
      exact ⟨_,List.append_assoc ..,rfl,after _ _ _⟩

theorem servedHeader :
    ∀ sent ∈ (serveHTTP (accessLog s (recoverer s b.handler)) r (arriving header log now)).world.sent,
      sent.header = header ∨ sent.header = header.set "content-type" "application/json" := by
  intro sent mem
  cases ends : b.ending with
  | returns =>
    rw [servedReturns s r b ends] at mem
    cases first : firstCode b.actions with
    | none =>
      rw [first] at mem
      cases mem
      exact .inl rfl
    | some code =>
      rw [first] at mem
      cases mem
      exact .inl rfl
  | aborts =>
    rw [servedAborts s r b ends] at mem
    obtain ⟨code,-,rfl⟩ := Option.map_eq_some_iff.mp mem
    exact .inl rfl
  | panics v =>
    cases first : firstCode b.actions with
    | none =>
      rw [servedReplaces s r b ends first] at mem
      cases mem
      exact .inr rfl
    | some code =>
      rw [servedCuts s r b ends first] at mem
      cases mem
      exact .inl rfl

end Served
end Told

section Headers

theorem setNames (header : Header) (key value : String) :
    (String.ofList (canonical true key.toList),value) ∈ header.set key value :=
  List.mem_append_right _ (List.mem_singleton.mpr rfl)

theorem setKeeps {header : Header} {entry : String × String} (mem : entry ∈ header) {key value : String}
    (other : entry.1 ≠ String.ofList (canonical true key.toList)) : entry ∈ header.set key value :=
  List.mem_append_left _ (List.mem_filter.mpr ⟨mem,by simpa using other⟩)

theorem middlewareInside (h : Handler V) (r : Request) (header : Header) (log : List (Line V)) (now : ℤ) :
    serveHTTP (middleware s h) r (arriving header log now) =
      serveHTTP (accessLog s (recoverer s h))
        { r with requestId := some (if plainID r.forwardedId then r.forwardedId else s.randText) }
        (arriving ((header.set "X-Content-Type-Options" "nosniff").set "X-Request-Id"
          (if plainID r.forwardedId then r.forwardedId else s.randText)) log now) := rfl

/- requestID stands outside everything that logs: one access line, and every line and the
answer itself carry the one id, which is never a forwarded one that is not plain. -/
theorem middlewareTagged (r : Request) (b : Behaviour V) (header : Header) (log : List (Line V)) (now : ℤ) :
    let out := serveHTTP (middleware s b.handler) r (arriving header log now)
    ∃ lines id, out.world.log = log ++ lines ∧ lines.countP isAccess = 1 ∧
      (∀ line ∈ lines, line.id = some id) ∧ (∀ sent ∈ out.world.sent, ("X-Request-Id",id) ∈ sent.header) ∧
      (id = r.forwardedId ∧ plainID id = true ∨ id = s.randText) := by
  intro out
  have inside : out = serveHTTP (middleware s b.handler) r (arriving header log now) := rfl
  rw [middlewareInside] at inside
  generalize chosen : (if plainID r.forwardedId then r.forwardedId else s.randText) = id at inside
  generalize outer : header.set "X-Content-Type-Options" "nosniff" = start at inside
  obtain ⟨lines,logged,once,tagged⟩ :=
    servedLines s (start.set "X-Request-Id" id) log { r with requestId := some id } b now
  have named : ("X-Request-Id",id) ∈ start.set "X-Request-Id" id := setNames start "X-Request-Id" id
  rw [inside]
  refine ⟨lines,id,logged,once,tagged,fun sent mem => ?answered,?source⟩
  case answered =>
    cases servedHeader s _ log _ b now sent mem with
    | inl same => exact same ▸ named
    | inr typed =>
      rw [typed]
      exact setKeeps named
        (by decide : "X-Request-Id" ≠ String.ofList (canonical true "content-type".toList))
  case source =>
    split at chosen
    · next plain => exact .inl ⟨chosen.symm,chosen ▸ plain⟩
    · exact .inr chosen.symm

end Headers

structure Logged (r : Request) (b : Behaviour V) (header : Header) (log : List (Line V))
    (out : Outcome V) : Prop where
  once : out.world.log.countP isAccess = log.countP isAccess + 1
  returned : b.ending = .returns → out.propagated = none ∧
    out.world.sent = some ⟨(firstCode b.actions).getD 200,header⟩ ∧ out.world.body = written b.actions ∧
    out.world.log = log ++ [accessLine s r ((firstCode b.actions).getD 200) b.took]
  replaced : ∀ v, b.ending = .panics v → firstCode b.actions = none → out.propagated = none ∧
    out.world.sent = some ⟨500,header.set "content-type" "application/json"⟩ ∧
    out.world.body = [errorBody "internal error"] ∧
    out.world.log = log ++ [.panicked r.requestId v s.stack,accessLine s r 500 b.took]
  cut : ∀ v code, b.ending = .panics v → firstCode b.actions = some code → out.propagated = some .abort ∧
    out.world.sent = some ⟨code,header⟩ ∧ out.world.body = written b.actions ∧
    out.world.log = log ++ [.panicked r.requestId v s.stack,accessLine s r code b.took]
  aborted : b.ending = .aborts → out.propagated = some .abort ∧
    out.world.sent = (firstCode b.actions).map (fun code => ⟨code,header⟩) ∧
    out.world.body = written b.actions ∧
    out.world.log = log ++ [accessLine s r ((firstCode b.actions).getD 200) b.took]

theorem everyRequestLogged (r : Request) (b : Behaviour V) (header : Header) (log : List (Line V)) (now : ℤ) :
    Logged s r b header log (serveHTTP (accessLog s (recoverer s b.handler)) r (arriving header log now)) := by
  refine ⟨?once,fun ends => ?returned,fun v ends none => ?replaced,fun v code ends sent => ?cut,
    fun ends => ?aborted⟩
  case once =>
    obtain ⟨lines,logged,once,-⟩ := servedLines s header log r b now
    rw [logged,List.countP_append,once]
  case returned =>
    rw [servedReturns s r b ends]
    cases firstCode b.actions with
    | none => exact ⟨rfl,rfl,rfl,rfl⟩
    | some code => exact ⟨rfl,rfl,rfl,rfl⟩
  case replaced =>
    rw [servedReplaces s r b ends none]
    exact ⟨rfl,rfl,rfl,List.append_assoc ..⟩
  case cut =>
    rw [servedCuts s r b ends sent]
    exact ⟨rfl,rfl,rfl,List.append_assoc ..⟩
  case aborted =>
    rw [servedAborts s r b ends]
    exact ⟨rfl,rfl,rfl,rfl⟩

end Handlers
end MoltenPour.Middleware
