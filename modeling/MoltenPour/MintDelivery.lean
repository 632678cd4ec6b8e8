import MoltenPour.Handlers
import MoltenPour.LedgerDurability

/-! app/pour/api.ts against the server, over a network that delays, reorders and
loses. A call is one apiFetch: the attempts it has left and the one it waits for.
A browser keeps one owner cookie, and sends the one it has when an attempt leaves. -/
namespace MoltenPour.MintDelivery
open NumberFormat Pour KeyedLog Store Session Handlers

inductive ApiErrorCode where
  | network | timeout | client | server | conflict
  deriving DecidableEq

def ApiErrorCode.retryable (code : ApiErrorCode) : Bool :=
  code == .network || code == .timeout || code == .server

def FALLBACK : ApiErrorCode → String
  | .network => "The ledger could not be reached."
  | .timeout => "The ledger did not answer."
  | .client => "The ledger refused the request."
  | .server => "The ledger failed to process the request."
  | .conflict => "The request conflicts with the ledger."

structure ApiError where
  code : ApiErrorCode
  status : ℕ
  message : String

inductive Progress (K : Type) where
  | ready
  | waiting (attempt : ℕ)
  | resolved (res : Response K)
  | rejected (err : ApiError)

structure Call (K : Type) where
  browser : ℕ
  ask : Ask K
  attemptsLeft : ℕ
  progress : Progress K

structure Sent (K : Type) where
  call : ℕ
  browser : ℕ
  attempt : ℕ
  cookie : Option String
  ask : Ask K

structure Answered (K : Type) where
  call : ℕ
  browser : ℕ
  attempt : ℕ
  res : Response K

inductive Event (K : Type) where
  | fetch (call browser : ℕ) (ask : Ask K) (retries : ℕ)
  | send (call : ℕ)
  | handle (place : ℕ) (visit : Visit)
  | loseRequest (place : ℕ)
  | loseAnswer (place : ℕ)
  | deliver (place : ℕ)
  | abort (call : ℕ) (timedOut : Bool)

section Client
variable {K : Type}

def serverMessage (res : Response K) : Option String :=
  match res.body with
  | .error message => if message = "" then none else some message
  | _ => none

def failureFor (res : Response K) : ApiError :=
  let code := if res.status = 409 then .conflict else if res.status ≥ 500 then .server else .client
  ⟨code,res.status,(serverMessage res).getD (FALLBACK code)⟩

namespace Call

def fail (call : Call K) (err : ApiError) : Call K :=
  { call with progress :=
      if err.code.retryable = true ∧ 0 < call.attemptsLeft then .ready else .rejected err }

def answer (call : Call K) (res : Response K) : Call K :=
  if 200 ≤ res.status ∧ res.status < 300 then { call with progress := .resolved res }
  else call.fail (failureFor res)

def abort (call : Call K) (timedOut : Bool) : Call K :=
  let code := if timedOut then .timeout else .network
  call.fail ⟨code,0,FALLBACK code⟩

def awaits (call : Call K) (attempt : ℕ) : Bool :=
  match call.progress with
  | .waiting waited => waited = attempt
  | _ => false

end Call
end Client

variable {K : Type} [LinearOrder K] [Zero K] [Format K]

/- `minted` is what no party sees: every record the ledger took, with the browser
whose request it was taken for. -/
structure World (B : Backend K) where
  jar : ℕ → Option String
  calls : ℕ → Option (Call K)
  requests : List (Sent K)
  answers : List (Answered K)
  attempts : ℕ
  ledger : B.State
  minted : List (ℕ × Record K)

namespace World
variable {B : Backend K}

def start (jar : ℕ → Option String) : World B := ⟨jar,fun _ => none,[],[],0,B.empty,[]⟩

def send (w : World B) (n : ℕ) (call : Call K) : World B :=
  match call.progress with
  | .ready => { w with
      calls := Function.update w.calls n (some { call with
        attemptsLeft := call.attemptsLeft - 1, progress := .waiting w.attempts })
      requests := w.requests ++ [⟨n,call.browser,w.attempts,w.jar call.browser,call.ask⟩]
      attempts := w.attempts + 1 }
  | _ => w

def handle (cfg : Config) (w : World B) (place : ℕ) (m : Sent K) (visit : Visit) : World B :=
  let done := Handlers.handle B cfg visit m.cookie m.ask w.ledger
  { w with
    requests := w.requests.eraseIdx place
    answers := w.answers ++ [⟨m.call,m.browser,m.attempt,done.1⟩]
    ledger := done.2
    minted := w.minted ++ (done.1.minted.map fun rec => (m.browser,rec)).toList }

/- The cookie is stored whether or not anyone still waits for the answer. -/
def deliver (w : World B) (place : ℕ) (a : Answered K) : World B :=
  { w with
    jar := Function.update w.jar a.browser (a.res.setCookie.or (w.jar a.browser))
    calls := Function.update w.calls a.call ((w.calls a.call).map fun call =>
      if call.awaits a.attempt then call.answer a.res else call)
    answers := w.answers.eraseIdx place }

def abort (w : World B) (n : ℕ) (call : Call K) (timedOut : Bool) : World B :=
  match call.progress with
  | .waiting _ => { w with calls := Function.update w.calls n (some (call.abort timedOut)) }
  | _ => w

end World

variable {B : Backend K}

def step (cfg : Config) (w : World B) : Event K → World B
  | .fetch n browser ask retries =>
      match w.calls n with
      | none => { w with calls := Function.update w.calls n (some ⟨browser,ask,retries + 1,.ready⟩) }
      | some _ => w
  | .send n =>
      match w.calls n with
      | some call => w.send n call
      | none => w
  | .handle place visit =>
      match w.requests[place]? with
      | some m => w.handle cfg place m visit
      | none => w
  | .loseRequest place => { w with requests := w.requests.eraseIdx place }
  | .loseAnswer place => { w with answers := w.answers.eraseIdx place }
  | .deliver place =>
      match w.answers[place]? with
      | some a => w.deliver place a
      | none => w
  | .abort n timedOut =>
      match w.calls n with
      | some call => w.abort n call timedOut
      | none => w

def reach (B : Backend K) (cfg : Config) (jar : ℕ → Option String) (events : List (Event K)) : World B :=
  events.foldl (step cfg) (World.start jar)

end MoltenPour.MintDelivery
