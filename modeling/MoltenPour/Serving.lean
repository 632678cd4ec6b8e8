import MoltenPour.RetryAfter
import MoltenPour.Routes
import MoltenPour.ClientAddress
import MoltenPour.RequestText

/-! The server main.go starts: a request comes in at the mux, a mint asks the limiter and
then the ledger, and between the two any other request may be served. What an address
can add to the ledger in a window is what its bucket held and regained. -/
namespace MoltenPour.Serving
open NumberFormat Pour Store Session Handlers Runs TokenBucket MintLimit ClientAddress Routes
open AnswerText (Double)
open Bytes (Text)

structure Arrival where
  method : String
  path : Text
  peer : ClientAddress.Request
  cookie : Option String
  body : Text
  asked : Time
  entropy : Entropy
  now : Time
  faults : Faults
  complaint : String

def mapKey (text : Text) : String := String.ofList (text.map fun b => Char.ofNat b.toNat)

section Server
variable {net : Netip} (m : Manager net) (staticDir : Bool) (B : Backend Double) (cfg : Handlers.Config)

def Arrival.mints (a : Arrival) : Prop := ServeMux.findHandler (routes staticDir) a.method a.path = .serve .mint []

instance (a : Arrival) : Decidable (a.mints staticDir) :=
  inferInstanceAs (Decidable (ServeMux.findHandler (routes staticDir) a.method a.path = .serve .mint []))

def Arrival.request (a : Arrival) : RetryAfter.MintRequest Double where
  clientIp := mapKey (clientIP m a.peer)
  asked := a.asked
  entropy := a.entropy
  now := a.now
  faults := a.faults
  cookie := a.cookie
  body := match RequestText.decode a.body with
    | some req => .ok req
    | none => .error a.complaint

def Arrival.handled (a : Arrival) (answer : Answer) (store : B.State) : Response Double × B.State :=
  handleMint B cfg ((a.request m).visit answer) a.cookie (a.request m).body store

structure Server where
  mintLimit : Option Limiter
  store : B.State
  running : List Arrival
  answered : List (Arrival × Response Double)

def new (burst : ℤ) (every : Duration) (store : B.State) : Server B where
  mintLimit := if 0 < burst ∧ 0 < every.nanos then some (newLimiter burst every) else none
  store := store
  running := []
  answered := []

inductive Event where
  | arrive (a : Arrival)
  | finish (a : Arrival)

/- The handlers of the other routes have no way to write to the ledger. -/
inductive Step (s : Server B) : Event → Server B → Prop where
  | elsewhere {a : Arrival} (other : ¬ a.mints staticDir) : Step s (.arrive a) s
  | unlimited {a : Arrival} (mints : a.mints staticDir) (none : s.mintLimit = none) :
      Step s (.arrive a) { s with running := s.running ++ [a] }
  | through {a : Arrival} {l : Limiter} (mints : a.mints staticDir) (limited : s.mintLimit = some l)
      (ok : (serve (a.request m).call l).1.ok = true) :
      Step s (.arrive a)
        { s with mintLimit := some (serve (a.request m).call l).2, running := s.running ++ [a] }
  | refused {a : Arrival} {l : Limiter} (mints : a.mints staticDir) (limited : s.mintLimit = some l)
      (no : (serve (a.request m).call l).1.ok = false) :
      Step s (.arrive a)
        { s with
          mintLimit := some (serve (a.request m).call l).2
          store := (a.handled m B cfg (serve (a.request m).call l).1 s.store).2
          answered := s.answered ++ [(a,(a.handled m B cfg (serve (a.request m).call l).1 s.store).1)] }
  | finish {a : Arrival} {before after : List Arrival} (here : s.running = before ++ a::after) :
      Step s (.finish a)
        { s with
          store := (a.handled m B cfg ⟨true,0⟩ s.store).2
          running := before ++ after
          answered := s.answered ++ [(a,(a.handled m B cfg ⟨true,0⟩ s.store).1)] }

def calls : List Event → List (Call String Time)
  | [] => []
  | .arrive a::rest => if a.mints staticDir then (a.request m).call::calls rest else calls rest
  | .finish _::rest => calls rest

def within (key : String) (b e : Time) (a : Arrival) : Bool :=
  decide ((a.request m).clientIp = key ∧ b ≤ a.asked ∧ a.asked ≤ e)

def issued (answered : List (Arrival × Response Double)) : List (Record Double) :=
  answered.filterMap fun p => p.2.minted

def gained (key : String) (b e : Time) (answered : List (Arrival × Response Double)) : List (Record Double) :=
  issued (answered.filter fun p => within m key b e p.1)

end Server

section Counting
variable {net : Netip} {m : Manager net} {staticDir : Bool} {B : Backend Double} {cfg : Handlers.Config}

theorem callsJoin (events more : List Event) :
    calls m staticDir (events ++ more) = calls m staticDir events ++ calls m staticDir more := by
  induction events with
  | nil => rfl
  | cons event rest ih =>
    cases event with
    | finish a => exact ih
    | arrive a =>
      rw [List.cons_append,calls,calls,ih]
      split <;> rfl

theorem allowedNext (key : String) (b e : Time) (l : Limiter) (calls : List (Call String Time)) (a : Arrival) :
    allowed key b e (calls ++ [(a.request m).call]) (answers serve l (calls ++ [(a.request m).call])) =
      allowed key b e calls (answers serve l calls) +
        if within m key b e a && (serve (a.request m).call (reached serve l calls)).1.ok then 1 else 0 := by
  have asked : (decide ((a.request m).call.key = key ∧ b ≤ (a.request m).call.now ∧ (a.request m).call.now ≤ e ∧
      (serve (a.request m).call (reached serve l calls)).1.ok = true)) =
        (within m key b e a && (serve (a.request m).call (reached serve l calls)).1.ok) := by
    rw [within,Bool.eq_iff_iff]
    simp only [decide_eq_true_eq,Bool.and_eq_true,and_assoc]
    rfl
  rw [answersNext,allowed,List.zip_append (answersLength serve l calls).symm,List.countP_append,← allowed,
    ← asked,List.zip_cons_cons,List.zip_nil_left,List.countP_singleton]

theorem issuedNext (answered : List (Arrival × Response Double)) (a : Arrival) (res : Response Double) :
    issued (answered ++ [(a,res)]) = issued answered ++ res.minted.toList := by
  rw [issued,List.filterMap_append,← issued]
  cases minted : res.minted <;> simp [minted]

theorem gainedNext (key : String) (b e : Time) (answered : List (Arrival × Response Double)) (a : Arrival)
    (res : Response Double) : (gained m key b e (answered ++ [(a,res)])).length =
      (gained m key b e answered).length + if within m key b e a then res.minted.toList.length else 0 := by
  rw [gained,List.filter_append,gained]
  cases inside : within m key b e a with
  | true => simp [inside,issuedNext]
  | false => simp [inside]

theorem mintedFew (res : Response Double) : res.minted.toList.length ≤ 1 := by
  cases res.minted <;> simp

end Counting

section Runs
variable {net : Netip} (m : Manager net) (staticDir : Bool) {B : Backend Double} (cfg : Handlers.Config)
  {agrees : B.State → List (Record Double) → Prop}

theorem handledGains (refines : Refines B agrees) {store : B.State} {log : List (Record Double)}
    (agreed : agrees store log) (a : Arrival) (answer : Answer) :
    agrees (a.handled m B cfg answer store).2 (log ++ (a.handled m B cfg answer store).1.minted.toList) := by
  obtain ⟨log',handled,next⟩ := handleStep refines agreed cfg ((a.request m).visit answer) a.cookie
    (.mint (a.request m).body)
  have same : handle B cfg ((a.request m).visit answer) a.cookie (.mint (a.request m).body) store =
      a.handled m B cfg answer store := rfl
  rw [same] at handled next
  generalize (a.handled m B cfg answer store).1.minted = minted at handled ⊢
  cases handled with
  | fresh mintable free key => exact next
  | quiet taken => simpa using next

theorem refusedGains (a : Arrival) {answer : Answer} (no : answer.ok = false) (store : B.State) :
    (a.handled m B cfg answer store).1.minted = none ∧ (a.handled m B cfg answer store).2 = store := by
  have refused : ((a.request m).visit answer).refusedFor = some answer.wait.toNat :=
    if_neg (Bool.eq_false_iff.mp no)
  unfold Arrival.handled handleMint
  rw [refused]
  exact ⟨rfl,rfl⟩

/- What was let through is answered for or still running. -/
structure Priced (agrees : B.State → List (Record Double) → Prop) (l : Limiter) (log : List (Record Double))
    (events : List Event) (s : Server B) : Prop where
  limit : s.mintLimit = some (reached serve l (calls m staticDir events))
  ledger : agrees s.store (log ++ issued s.answered)
  few : ∀ key b e, (gained m key b e s.answered).length + s.running.countP (within m key b e) ≤
    allowed key b e (calls m staticDir events) (answers serve l (calls m staticDir events))

variable {m staticDir cfg}

theorem stepPriced (refines : Refines B agrees) {l : Limiter} {log : List (Record Double)} {events : List Event}
    {event : Event} {s t : Server B} (priced : Priced m staticDir agrees l log events s)
    (now : Step m staticDir B cfg s event t) : Priced m staticDir agrees l log (events ++ [event]) t := by
  obtain ⟨limit,ledger,few⟩ := priced
  cases now with
  | elsewhere other =>
    rename_i a
    have same : calls m staticDir (events ++ [.arrive a]) = calls m staticDir events := by
      rw [callsJoin,calls,if_neg other]
      exact List.append_nil _
    exact ⟨by rw [same]; exact limit,ledger,fun key b e => by rw [same]; exact few key b e⟩
  | unlimited mints none =>
    rw [limit] at none
    contradiction
  | through mints limited ok =>
    rename_i a before
    have here : reached serve l (calls m staticDir events) = before := Option.some.inj (limit.symm.trans limited)
    have more : calls m staticDir (events ++ [.arrive a]) = calls m staticDir events ++ [(a.request m).call] := by
      rw [callsJoin,calls,if_pos mints]
      rfl
    refine ⟨?_,ledger,fun key b e => ?_⟩
    · rw [more,reachedJoin,here]
      rfl
    · rw [more,allowedNext,here,ok,Bool.and_true,List.countP_append,List.countP_singleton,← Nat.add_assoc]
      exact Nat.add_le_add_right (few key b e) _
  | refused mints limited no =>
    rename_i a before
    have here : reached serve l (calls m staticDir events) = before := Option.some.inj (limit.symm.trans limited)
    have more : calls m staticDir (events ++ [.arrive a]) = calls m staticDir events ++ [(a.request m).call] := by
      rw [callsJoin,calls,if_pos mints]
      rfl
    obtain ⟨nothing,still⟩ := refusedGains m cfg a no s.store
    refine ⟨?_,?_,fun key b e => ?_⟩
    · rw [more,reachedJoin,here]
      rfl
    · dsimp only
      rw [issuedNext,nothing,still]
      simpa using ledger
    · dsimp only
      rw [more,allowedNext,here,no,Bool.and_false,gainedNext,nothing]
      simpa using few key b e
  | finish here =>
    rename_i a before after
    have same : calls m staticDir (events ++ [.finish a]) = calls m staticDir events := by
      rw [callsJoin]
      exact List.append_nil _
    refine ⟨by rw [same]; exact limit,?_,fun key b e => ?_⟩
    · dsimp only
      rw [issuedNext,← List.append_assoc]
      exact handledGains m cfg refines ledger a ⟨true,0⟩
    · have before := few key b e
      have one := mintedFew (a.handled m B cfg ⟨true,0⟩ s.store).1
      dsimp only
      rw [same,gainedNext]
      rw [here,List.countP_append,List.countP_cons] at before
      rw [List.countP_append]
      split <;> split at before <;> omega

theorem newPriced {store : B.State} {log : List (Record Double)} (agreed : agrees store log) {burst : ℤ}
    {every : Duration} (room : 1 ≤ burst) (positive : 0 < every.nanos) :
    Priced m staticDir agrees (newLimiter burst every) log [] (new B burst every store) := by
  refine ⟨if_pos ⟨by omega,positive⟩,?_,fun key b e => le_rfl⟩
  exact (List.append_nil log).symm ▸ agreed

theorem ledgerPriced (refines : Refines B agrees) {store : B.State} {log : List (Record Double)}
    (agreed : agrees store log) {burst : ℤ} {every : Duration} (room : 1 ≤ burst) (positive : 0 < every.nanos)
    {events : List Event} {s : Server B} (run : Run (Step m staticDir B cfg) (new B burst every store) events s) :
    agrees s.store (log ++ issued s.answered) ∧
    (Ordered (calls m staticDir events) → ∀ (key : String) (b e : Time), b ≤ e →
      ((gained m key b e s.answered).length : ℚ) ≤ burst + (e.nanos - b.nanos) / every.nanos) := by
  have priced : Priced m staticDir agrees (newLimiter burst every) log events s := by
    induction run with
    | rest => exact newPriced agreed room positive
    | next before now ih => exact stepPriced refines ih now
  refine ⟨priced.ledger,fun ordered key b e window => ?_⟩
  have few : (gained m key b e s.answered).length ≤ allowed key b e (calls m staticDir events)
      (answers serve (newLimiter burst every) (calls m staticDir events)) :=
    (Nat.le_add_right ..).trans (priced.few key b e)
  have held := grantedWindow (refillSteady room positive) ordered
    (soundNew burst every key (calls m staticDir events)) window
  rw [servedFrom room positive rfl rfl ordered,allowedGranted] at few
  calc ((gained m key b e s.answered).length : ℚ)
      ≤ (granted key b e (calls m staticDir events) _ : ℕ) := by exact_mod_cast few
    _ ≤ burst + (elapsed every e - elapsed every b) := held
    _ = burst + (e.nanos - b.nanos) / every.nanos := by rw [sub_div]; rfl

end Runs

section Crowd

def caller (second : ℤ) : Arrival where
  method := "POST"
  path := Bytes.ascii "/api/pours"
  peer := ⟨Bytes.ascii "203.0.113.9:50000",[]⟩
  cookie := none
  body := RequestText.posted RequestText.firstRequest
  asked := ⟨second * 1000000000⟩
  entropy := constantDraw 7
  now := ⟨1785628800000000000⟩
  faults := noFaults
  complaint := ""

theorem callerMints (second : ℤ) : (caller second).mints true := by
  have clean := leafCleaned (by simp) poursNames
  rw [Arrival.mints,show (caller second).path = UrlPath.rooted [Bytes.ascii "api",Bytes.ascii "pours"] from poursPath]
  exact ServeMux.serveFound clean (mintFound true poursRead) rfl

def crowd : List Event :=
  [.arrive (caller 1),.arrive (caller 2),.arrive (caller 3),.finish (caller 2),.finish (caller 1)]

def tens : Duration := RetryAfter.small.every

theorem crowdRuns : ∃ s, Run (Step behind true MemoryLedger.memory ⟨fun id => id ++ "!",5⟩)
    (new MemoryLedger.memory 2 tens MemoryLedger.memory.empty) crowd s := by
  have one : Run (Step behind true MemoryLedger.memory ⟨fun id => id ++ "!",5⟩)
      (new MemoryLedger.memory 2 tens MemoryLedger.memory.empty) [.arrive (caller 1)] _ :=
    Run.single (.through (l := newLimiter 2 tens) (callerMints 1) rfl (by decide +kernel))
  have two := one.next (.through (callerMints 2) rfl (by decide +kernel))
  have three := two.next (.refused (callerMints 3) rfl (by decide +kernel))
  have four := three.next (.finish (show [caller 1,caller 2] = [caller 1] ++ caller 2::[] from rfl))
  have five := four.next (.finish (show [caller 1] = [] ++ caller 1::[] from rfl))
  exact ⟨_,five⟩

theorem crowdPriced : ∃ s, Run (Step behind true MemoryLedger.memory ⟨fun id => id ++ "!",5⟩)
    (new MemoryLedger.memory 2 tens MemoryLedger.memory.empty) crowd s ∧
    MemoryLedger.Indexes s.store ([] ++ issued s.answered) ∧
    ((gained behind "203.0.113.9" ⟨0⟩ ⟨10000000000⟩ s.answered).length : ℚ) ≤
      (2 : ℤ) + ((10000000000 : ℤ) - (0 : ℤ)) / (10000000000 : ℤ) := by
  obtain ⟨s,run⟩ := crowdRuns
  obtain ⟨ledger,window⟩ := ledgerPriced MemoryLedger.memoryRefines MemoryLedger.memoryRefines.start
    (by decide : (1 : ℤ) ≤ 2) (by decide : 0 < tens.nanos) run
  exact ⟨s,run,ledger,window (by decide +kernel) "203.0.113.9" ⟨0⟩ ⟨10000000000⟩ (by decide)⟩

end Crowd

end MoltenPour.Serving
