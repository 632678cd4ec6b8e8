import MoltenPour.Session
import MoltenPour.Store

/-! api/httpapi/server.go: the handlers of the ledger, over any store. A request
body is what the decoder made of it; the limiter, the random bytes, the clock and
the driver are the circumstances of a visit. -/
namespace MoltenPour.Handlers
open NumberFormat Pour KeyedLog Store Session

inductive Body (K : Type) where
  | record (rec : Record K)
  | records (recs : List (Record K))
  | error (message : String)

structure Response (K : Type) where
  status : ℕ
  setCookie : Option String
  retryAfter : Option ℕ
  body : Body K

/- The limiter refuses for some nanoseconds, or lets the request through. -/
structure Visit where
  refusedFor : Option ℕ
  entropy : Entropy
  now : Time
  faults : Faults

structure Config where
  sign : String → String
  maxTierIndex : ℤ

inductive Ask (K : Type) where
  | mint (body : Except String (Request K))
  | list
  | get (id : String)

section Handlers
variable {K : Type}

def writeErr (code : ℕ) (setCookie : Option String) (message : String) : Response K :=
  ⟨code,setCookie,none,.error message⟩

def writeMint (setCookie : Option String) : Except PourError (Record K × Bool) → Response K
  | .ok (rec,true) => ⟨200,setCookie,none,.record rec⟩
  | .ok (rec,false) => ⟨201,setCookie,none,.record rec⟩
  | .error (.validation detail) => writeErr 400 setCookie (PourError.validation detail).text
  | .error .conflict => writeErr 409 setCookie PourError.conflict.text
  | .error _ => writeErr 500 setCookie "could not mint the pour"

def Response.records (res : Response K) : List (Record K) :=
  match res.body with
  | .record rec => [rec]
  | .records recs => recs
  | .error _ => []

def Response.minted (res : Response K) : Option (Record K) :=
  match res.status,res.body with
  | 201,.record rec => some rec
  | _,_ => none

variable [LinearOrder K] [Zero K] [Format K] (B : Backend K) (cfg : Config) (visit : Visit)
  (cookie : Option String)

def handleMint (body : Except String (Request K)) (s : B.State) : Response K × B.State :=
  match visit.refusedFor with
  | some wait =>
      (⟨429,none,some (wait / 1000000000 + 1),
        .error "too many pours in a short time; try again shortly"⟩,s)
  | none =>
      match ownerID cfg.sign cookie visit.entropy with
      | none => (writeErr 500 none "could not establish a session",s)
      | some (ownerId,setCookie) =>
          match body with
          | .error err => (writeErr 400 setCookie ("malformed request: " ++ err),s)
          | .ok req =>
              if req.tierIndex > cfg.maxTierIndex then
                (writeErr 400 setCookie "that tier is not available",s)
              else
                let posted : Posted K := ⟨ownerId,req,visit.now⟩
                let done := B.append visit.faults posted.key posted.mint s
                (writeMint setCookie done.1,done.2)

def handleList (s : B.State) : Response K :=
  match ownerID cfg.sign cookie visit.entropy with
  | none => writeErr 500 none "could not establish a session"
  | some (ownerId,setCookie) =>
      match B.list visit.faults ownerId s with
      | .ok recs => ⟨200,setCookie,none,.records recs⟩
      | .error _ => writeErr 500 setCookie "could not read the ledger"

def handleGet (id : String) (s : B.State) : Response K :=
  match ownerID cfg.sign cookie visit.entropy with
  | none => writeErr 500 none "could not establish a session"
  | some (ownerId,setCookie) =>
      match B.get visit.faults id ownerId s with
      | .ok rec => ⟨200,setCookie,none,.record rec⟩
      | .error .notFound => writeErr 404 setCookie "no such pour"
      | .error _ => writeErr 500 setCookie "could not read the ledger"

def handle (ask : Ask K) (s : B.State) : Response K × B.State :=
  match ask with
  | .mint body => handleMint B cfg visit cookie body s
  | .list => (handleList B cfg visit cookie s,s)
  | .get id => (handleGet B cfg visit cookie id s,s)

structure Admitted (ask : Ask K) (ownerId : String) (req : Request K) : Prop where
  allowed : visit.refusedFor = none
  owner : (ownerID cfg.sign cookie visit.entropy).map Prod.fst = some ownerId
  decoded : ask = .mint (.ok req)
  offered : req.tierIndex ≤ cfg.maxTierIndex

/- The driver does not give up on this append. -/
def Driven (posted : Posted K) (s : B.State) : Prop :=
  B.serve visit.faults (.append posted) s = B.serve noFaults (.append posted) s

structure Mintable (ask : Ask K) (s : B.State) (ownerId : String) (req : Request K) : Prop where
  admitted : Admitted cfg visit cookie ask ownerId req
  accepted : Accepted req visit.now
  driven : Driven B visit ⟨ownerId,req,visit.now⟩ s

inductive Appending (posted : Posted K) (s : B.State) (log : List (Record K)) :
    Answer K → List (Record K) → Prop where
  | fresh {rec} (driven : Driven B visit posted s) (accepted : Accepted posted.req posted.now)
      (free : ∀ r ∈ log, (startKeys K).key r ≠ posted.start)
      (key : (startKeys K).key rec = posted.start) :
      Appending posted s log (.appended rec false) (log ++ [rec])
  | quiet {answer} (old : ∀ rec, answer ≠ .appended rec false)
      (taken : Driven B visit posted s → Accepted posted.req posted.now →
        ∃ r ∈ log, (startKeys K).key r = posted.start) : Appending posted s log answer log

inductive Handled (ask : Ask K) (s : B.State) (log : List (Record K)) :
    Option (Record K) → List (Record K) → Prop where
  | fresh {ownerId req rec} (mintable : Mintable B cfg visit cookie ask s ownerId req)
      (free : ∀ r ∈ log, (startKeys K).key r ≠ (ownerId,req.timestampMs))
      (key : (startKeys K).key rec = (ownerId,req.timestampMs)) :
      Handled ask s log (some rec) (log ++ [rec])
  | quiet (taken : ∀ ownerId req, Mintable B cfg visit cookie ask s ownerId req →
      ∃ r ∈ log, (startKeys K).key r = (ownerId,req.timestampMs)) :
      Handled ask s log none log

end Handlers

variable {K : Type} [LinearOrder K] [Zero K] [Format K] {B : Backend K} {cfg : Config} {visit : Visit}
  {cookie : Option String}

omit [LinearOrder K] [Zero K] [Format K] in
theorem admittedUnique {ask : Ask K} {a b : String} {req other : Request K}
    (first : Admitted cfg visit cookie ask a req) (second : Admitted cfg visit cookie ask b other) :
    a = b ∧ req = other := by
  constructor
  · exact Option.some.inj (first.owner.symm.trans second.owner)
  · cases first.decoded.symm.trans second.decoded
    rfl

theorem handleAdmitted {ask : Ask K} {ownerId : String} {req : Request K}
    (admitted : Admitted cfg visit cookie ask ownerId req) (s : B.State) :
    ∃ setCookie, handle B cfg visit cookie ask s =
      (writeMint setCookie (B.append visit.faults (Posted.key ⟨ownerId,req,visit.now⟩)
          (Posted.mint ⟨ownerId,req,visit.now⟩) s).1,
        (B.serve visit.faults (.append ⟨ownerId,req,visit.now⟩) s).2) := by
  obtain ⟨allowed,owner,rfl,offered⟩ := admitted
  obtain ⟨⟨_,setCookie⟩,owned,rfl⟩ := Option.map_eq_some_iff.mp owner
  refine ⟨setCookie,?_⟩
  unfold handle handleMint
  simp only [allowed,owned]
  rw [if_neg (not_lt.mpr offered)]
  rfl

theorem handleElse {ask : Ask K} (s : B.State)
    (never : ∀ ownerId req, ¬ Admitted cfg visit cookie ask ownerId req) :
    (handle B cfg visit cookie ask s).1.minted = none ∧
      (handle B cfg visit cookie ask s).2 = s := by
  cases ask with
  | list =>
    refine ⟨?_,rfl⟩
    simp only [handle,handleList]
    split
    · rfl
    · split <;> rfl
  | get id =>
    refine ⟨?_,rfl⟩
    simp only [handle,handleGet]
    split
    · rfl
    · split <;> rfl
  | mint body =>
    simp only [handle,handleMint]
    cases allowed : visit.refusedFor with
    | some wait => exact ⟨rfl,rfl⟩
    | none =>
      cases owned : ownerID cfg.sign cookie visit.entropy with
      | none => exact ⟨rfl,rfl⟩
      | some owner =>
        cases body with
        | error err => exact ⟨rfl,rfl⟩
        | ok req =>
          by_cases above : req.tierIndex > cfg.maxTierIndex
          · simp only [if_pos above]
            exact ⟨rfl,trivial⟩
          · exact absurd ⟨allowed,by rw [owned]; rfl,rfl,not_lt.mp above⟩ (never owner.1 req)

theorem handleCookie {ownerId : String} {setCookie : Option String}
    (owned : ownerID cfg.sign cookie visit.entropy = some (ownerId,setCookie)) (ask : Ask K) (s : B.State) :
    (handle B cfg visit cookie ask s).1.setCookie = setCookie ∨
      (handle B cfg visit cookie ask s).1.setCookie = none ∧
        (handle B cfg visit cookie ask s).1.status = 429 := by
  cases ask with
  | mint body =>
    simp only [handle,handleMint]
    split
    · exact .inr ⟨rfl,rfl⟩
    · rw [owned]
      dsimp only
      split
      · exact .inl rfl
      · split
        · exact .inl rfl
        · unfold writeMint
          split <;> exact .inl rfl
  | list =>
    simp only [handle,handleList,owned]
    split <;> exact .inl rfl
  | get id =>
    simp only [handle,handleGet,owned]
    split <;> exact .inl rfl

theorem handleIssues {ask : Ask K} {s : B.State} {value : String}
    (issued : (handle B cfg visit cookie ask s).1.setCookie = some value) :
    ∃ id, newID visit.entropy = some id ∧ value = cookieValue cfg.sign id ∧
      ownerID cfg.sign cookie visit.entropy = some (id,some value) := by
  cases owned : ownerID cfg.sign cookie visit.entropy with
  | none =>
    cases ask with
    | mint body =>
      simp only [handle,handleMint,owned] at issued
      split at issued <;> contradiction
    | list =>
      simp only [handle,handleList,owned] at issued
      contradiction
    | get id =>
      simp only [handle,handleGet,owned] at issued
      contradiction
  | some pair =>
    obtain ⟨ownerId,setCookie⟩ := pair
    cases handleCookie owned ask s with
    | inr limited =>
      rw [limited.1] at issued
      contradiction
    | inl same =>
      have set : setCookie = some value := same.symm.trans issued
      cases ownerResolved owned with
      | known => contradiction
      | drawn rejected fresh =>
        cases set
        exact ⟨ownerId,fresh,rfl,rfl⟩

omit [LinearOrder K] [Zero K] [Format K] in
theorem writeMinted (setCookie : Option String) (result : Except PourError (Record K × Bool)) :
    (writeMint setCookie result).minted =
      match answerOf result with
      | .appended rec false => some rec
      | _ => none := by
  cases result with
  | ok appended =>
    obtain ⟨rec,replayed⟩ := appended
    cases replayed <;> rfl
  | error err => cases err <;> rfl

section Refined
variable {agrees : B.State → List (Record K) → Prop} (refines : Refines B agrees)
include refines

theorem drivenAppends {s : B.State} {log : List (Record K)} (agreed : agrees s log) {posted : Posted K}
    (driven : Driven B visit posted s) :
    ∃ log', Appending B visit posted s log (B.serve visit.faults (.append posted) s).1 log' ∧
      agrees (B.serve visit.faults (.append posted) s).2 log' := by
  obtain ⟨answered,next⟩ := refines.serve (.append posted) agreed
  rw [driven,answered]
  generalize done : append log posted.call = result at next
  obtain ⟨o,log'⟩ := result
  simp only [ledger,done] at next ⊢
  refine ⟨log',?_,next⟩
  cases appendCases done with
  | fresh free made =>
    have minted := mintMinted made
    exact .fresh driven minted.accepted free (Prod.ext minted.owner minted.timestamp)
  | replay stored key => exact .quiet (by simp [outcome]) fun _ _ => ⟨_,stored,key⟩
  | conflict stored key => exact .quiet (by simp [outcome]) fun _ _ => ⟨_,stored,key⟩
  | refused free failed =>
    refine .quiet (by simp [outcome]) fun _ accepted => ?_
    obtain ⟨rec,made,-⟩ := mintAccepted accepted (log.length + 1) posted.ownerId
    have impossible := made.symm.trans failed
    contradiction

theorem serveAppends {s : B.State} {log : List (Record K)} (agreed : agrees s log) (visit : Visit)
    (posted : Posted K) :
    ∃ log', Appending B visit posted s log (B.serve visit.faults (.append posted) s).1 log' ∧
      agrees (B.serve visit.faults (.append posted) s).2 log' := by
  by_cases driven : Driven B visit posted s
  · exact drivenAppends refines agreed driven
  · obtain ⟨context,failed⟩ := (refines.faults visit.faults (.append posted) s).resolve_left driven
    rw [failed]
    exact ⟨log,.quiet (by simp) fun served => absurd served driven,agreed⟩

theorem handleStep {s : B.State} {log : List (Record K)} (agreed : agrees s log) (cfg : Config)
    (visit : Visit) (cookie : Option String) (ask : Ask K) :
    ∃ log', Handled B cfg visit cookie ask s log (handle B cfg visit cookie ask s).1.minted log' ∧
      agrees (handle B cfg visit cookie ask s).2 log' := by
  by_cases admissible : ∃ ownerId req, Admitted cfg visit cookie ask ownerId req
  case neg =>
    have never : ∀ ownerId req, ¬ Admitted cfg visit cookie ask ownerId req :=
      fun ownerId req admitted => admissible ⟨ownerId,req,admitted⟩
    obtain ⟨nothing,same⟩ := handleElse s never
    rw [nothing,same]
    exact ⟨log,.quiet fun ownerId req mintable => absurd mintable.admitted (never ownerId req),agreed⟩
  case pos =>
    obtain ⟨ownerId,req,admitted⟩ := admissible
    obtain ⟨setCookie,handled⟩ := handleAdmitted admitted s
    obtain ⟨log',appending,next⟩ := serveAppends refines agreed visit ⟨ownerId,req,visit.now⟩
    rw [handled]
    refine ⟨log',?_,next⟩
    generalize whole : (B.serve visit.faults (.append ⟨ownerId,req,visit.now⟩) s).1 = answer at appending
    rw [writeMinted,show answerOf _ = answer from whole]
    cases appending with
    | fresh driven accepted free key => exact .fresh ⟨admitted,accepted,driven⟩ free key
    | quiet old taken =>
      have none : (match answer with | .appended rec false => some rec | _ => none) = none := by
        split
        · exact absurd rfl (old _)
        · rfl
      rw [none]
      refine .quiet fun owner other mintable => ?_
      obtain ⟨rfl,rfl⟩ := admittedUnique mintable.admitted admitted
      exact taken mintable.driven mintable.accepted

theorem handleFresh {s : B.State} {log : List (Record K)} (agreed : agrees s log) {ask : Ask K} {ownerId : String} {req : Request K} (mintable : Mintable B cfg visit cookie ask s ownerId req)
    (free : ∀ r ∈ log, (startKeys K).key r ≠ (ownerId,req.timestampMs)) :
    ∃ rec, (handle B cfg visit cookie ask s).1.minted = some rec ∧
      (startKeys K).key rec = (ownerId,req.timestampMs) ∧
      agrees (handle B cfg visit cookie ask s).2 (log ++ [rec]) := by
  obtain ⟨log',handled,next⟩ := handleStep refines agreed cfg visit cookie ask
  generalize (handle B cfg visit cookie ask s).1.minted = minted at handled
  cases handled with
  | quiet taken =>
    obtain ⟨rec,stored,key⟩ := taken ownerId req mintable
    exact absurd key (free rec stored)
  | @fresh owner other rec found _ key =>
    obtain ⟨rfl,rfl⟩ := admittedUnique found.admitted mintable.admitted
    exact ⟨rec,rfl,key,next⟩

end Refined
end MoltenPour.Handlers
