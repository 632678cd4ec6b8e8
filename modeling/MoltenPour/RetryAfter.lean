import MoltenPour.MintLimit
import MoltenPour.MintStatus

/-! handleMint behind its limiter. Whoever waits out the seconds of a Retry-After is
let through, however often refused meanwhile. -/
namespace MoltenPour.RetryAfter
open NumberFormat Pour Store LedgerDurability Session Handlers Runs TokenBucket MintLimit

structure MintRequest (K : Type) where
  clientIp : String
  asked : Time
  entropy : Entropy
  now : Time
  faults : Faults
  cookie : Option String
  body : Except String (Request K)

section Mint
variable {K : Type}

def MintRequest.call (req : MintRequest K) : Call String Time := ⟨req.clientIp,req.asked⟩

def MintRequest.visit (req : MintRequest K) (answer : Answer) : Visit where
  refusedFor := if answer.ok then none else some answer.wait.toNat
  entropy := req.entropy
  now := req.now
  faults := req.faults

variable [LinearOrder K] [Zero K] [Format K] (B : Backend K) (cfg : Config)

def mint (req : MintRequest K) (s : Limiter × B.State) : Response K × Limiter × B.State :=
  let allowed := allow req.clientIp req.asked s.1
  let done := handleMint B cfg (req.visit allowed.1) req.cookie req.body s.2
  (done.1,allowed.2,done.2)

theorem letThrough {visit : Visit} (through : visit.refusedFor = none) (cookie : Option String)
    (body : Except String (Request K)) (s : B.State) :
    (handleMint B cfg visit cookie body s).1.status ≠ 429 ∧
      (handleMint B cfg visit cookie body s).1.retryAfter = none := by
  unfold handleMint
  rw [through]
  dsimp only
  cases ownerID cfg.sign cookie visit.entropy with
  | none => exact ⟨by simp [writeErr],rfl⟩
  | some owner =>
    cases body with
    | error err => exact ⟨by simp [writeErr],rfl⟩
    | ok req =>
      dsimp only
      split
      · exact ⟨by simp [writeErr],rfl⟩
      · unfold writeMint
        split <;> exact ⟨by simp [writeErr],rfl⟩

theorem mintAllowed {req : MintRequest K} {s : Limiter × B.State} (ok : (serve req.call s.1).1.ok = true) :
    (mint B cfg req s).1.status ≠ 429 ∧ (mint B cfg req s).1.retryAfter = none := by
  have through : (req.visit (serve req.call s.1).1).refusedFor = none := if_pos ok
  exact letThrough B cfg through req.cookie req.body s.2

theorem mintRefused {req : MintRequest K} {s : Limiter × B.State} (no : (serve req.call s.1).1.ok = false) :
    (mint B cfg req s).1.status = 429 ∧
      (mint B cfg req s).1.retryAfter = some ((serve req.call s.1).1.wait.toNat / 1000000000 + 1) := by
  have refused : (req.visit (serve req.call s.1).1).refusedFor =
      some (serve req.call s.1).1.wait.toNat := if_neg (Bool.eq_false_iff.mp no)
  change (handleMint B cfg (req.visit (serve req.call s.1).1) req.cookie req.body s.2).1.status = _ ∧
    (handleMint B cfg (req.visit (serve req.call s.1).1) req.cookie req.body s.2).1.retryAfter = _
  unfold handleMint
  rw [refused]
  exact ⟨rfl,rfl⟩

theorem mintStatus (req : MintRequest K) (s : Limiter × B.State) :
    decide ((mint B cfg req s).1.status = 429) = !(serve req.call s.1).1.ok := by
  cases ok : (serve req.call s.1).1.ok with
  | true => exact decide_eq_false (mintAllowed B cfg ok).1
  | false => exact decide_eq_true (mintRefused B cfg ok).1

theorem mintReached (requests : List (MintRequest K)) (s : Limiter × B.State) :
    (reached (mint B cfg) s requests).1 = reached serve s.1 (requests.map MintRequest.call) := by
  induction requests generalizing s with
  | nil => rfl
  | cons req rest ih => exact ih (mint B cfg req s).2

theorem mintRefusals (requests : List (MintRequest K)) (s : Limiter × B.State) :
    (answers (mint B cfg) s requests).map (fun res => decide (res.status = 429)) =
      (answers serve s.1 (requests.map MintRequest.call)).map fun answer => !answer.ok := by
  induction requests generalizing s with
  | nil => rfl
  | cons req rest ih =>
    rw [answers,List.map_cons,List.map_cons,answers,List.map_cons,mintStatus,ih]
    rfl

theorem mintHeard {key : String} {requests : List (MintRequest K)} {s : Limiter × B.State}
    (still : ∀ res ∈ heard key (requests.map MintRequest.call) (answers (mint B cfg) s requests),
      res.status = 429) :
    ∀ a ∈ heard key (requests.map MintRequest.call)
      (answers serve s.1 (requests.map MintRequest.call)), a.ok = false := by
  intro a mem
  have alike := congrArg (heard key (requests.map MintRequest.call)) (mintRefusals B cfg requests s)
  rw [heardMap,heardMap] at alike
  have told := List.mem_map_of_mem (f := fun answer : Answer => !answer.ok) mem
  rw [← alike] at told
  obtain ⟨res,mem,same⟩ := List.mem_map.mp told
  rw [decide_eq_true (still res mem)] at same
  simpa using same.symm

end Mint

section Waiting
variable {every : Duration} (positive : 0 < every.nanos)
include positive

theorem regainedApart {s t u : Time} (before : s ≤ t) (later : t ≤ u) :
    regained every s u ≤ regained every s t + regained every t u := by
  have rate : (0 : ℚ) < every.nanos := by exact_mod_cast positive
  have first : s.nanos ≤ t.nanos := before
  have second : t.nanos ≤ u.nanos := later
  have apart : (sub u s).nanos ≤ (sub t s).nanos + (sub u t).nanos := by
    simp only [sub]
    omega
  have apart : ((sub u s).nanos : ℚ) ≤ (sub t s).nanos + (sub u t).nanos := by exact_mod_cast apart
  exact (div_le_div_of_nonneg_right apart rate.le).trans_eq (add_div ..)

theorem waitWorth {x : ℚ} (nonneg : 0 ≤ x) (few : x < 1) {t u : Time}
    (waited : t.nanos + ((answer every x).wait.toNat / 1000000000 + 1 : ℕ) * 1000000000 ≤ u.nanos) :
    1 ≤ x + regained every t u := by
  -- both divisions round down, and the second that is added is more than they have lost
  have rate : (0 : ℚ) < every.nanos := by exact_mod_cast positive
  have short : 0 ≤ (1 - x) * every.nanos := mul_nonneg (sub_nonneg.mpr few.le) rate.le
  have wait : (answer every x).wait = ⌊(1 - x) * every.nanos⌋ := by
    have whole : truncated ((1 - x) * every.nanos) = ⌊(1 - x) * every.nanos⌋ := if_neg short.not_gt
    rw [answer,if_pos few,whole]
  have below : ⌈(1 - x) * every.nanos⌉ ≤ u.nanos - t.nanos := by
    have up := Int.ceil_le_floor_add_one ((1 - x) * (every.nanos : ℚ))
    rw [wait] at waited
    push_cast at waited
    omega
  have most : ⌈(1 - x) * every.nanos⌉ ≤ every.nanos :=
    Int.ceil_le.mpr (mul_le_of_le_one_left rate.le (sub_le_self 1 nonneg))
  have gained : (1 - x) * every.nanos ≤ (sub u t).nanos := by
    have fits := every.most
    have whole : ⌈(1 - x) * (every.nanos : ℚ)⌉ ≤ (sub u t).nanos := by
      simp only [sub]
      omega
    exact Int.ceil_le.mp whole
  have worth : 1 - x ≤ regained every t u := (le_div_iff₀ rate).mpr gained
  linarith

omit positive in
theorem fewRefused {levels : List ℚ} (refused : ∀ a ∈ levels.map (answer every), a.ok = false) :
    ∀ x ∈ levels, x < 1 := by
  intro x mem
  have no := refused (answer every x) (List.mem_map_of_mem mem)
  exact not_le.mp fun enough => absurd ((answerOk every x).mpr enough) (by simp [no])

variable {burst : ℤ} (room : 1 ≤ burst)
include room

theorem refusedBucket {calls : List (Call String Time)} {c : Call String Time} (ordered : Ordered (calls ++ [c]))
    (no : (serve c (reached serve (newLimiter burst every) calls)).1.ok = false) :
    ∃ (x : ℚ) (buckets : String → Option bucket), 0 ≤ x ∧ x < 1 ∧
      (serve c (reached serve (newLimiter burst every) calls)).1 = answer every x ∧
      buckets c.key = some ⟨x,c.now⟩ ∧
      Tracks burst every c.now (serve c (reached serve (newLimiter burst every) calls)).2 buckets := by
  have steady := refillSteady room positive
  obtain ⟨before,-,early⟩ := List.pairwise_append.mp ordered
  have early : ∀ e ∈ calls, e.now ≤ c.now := fun e mem => early e mem c (by simp)
  have start := (followedFrom (l := newLimiter burst every) (serveTracks room positive) rfl rfl before).2 early
  obtain ⟨same,tracks⟩ := serveTracks room positive start (le_refl c.now)
  have sound := soundReached steady ordered (soundNew burst every c.key (calls ++ [c]))
  generalize reached (refill burst every).ask (lookups (newLimiter burst every)) calls = buckets
    at same tracks sound
  have few : ((refill burst every).ask c buckets).1 < 1 := by
    rw [same] at no
    have one : ∀ a ∈ [((refill burst every).ask c buckets).1].map (answer every), a.ok = false := by
      simpa using no
    exact fewRefused one _ (by simp)
  have kept : ((refill burst every).ask c buckets).2 c.key =
      some ⟨left ((refill burst every).ask c buckets).1,c.now⟩ := afterAsked buckets rfl
  rw [leftFew few] at kept
  exact ⟨_,_,levelNonneg steady sound,few,same,kept,tracks⟩

theorem waitedOut {calls between : List (Call String Time)} {c d : Call String Time}
    (ordered : Ordered ((calls ++ [c]) ++ (between ++ [d])))
    (no : (serve c (reached serve (newLimiter burst every) calls)).1.ok = false)
    (refused : ∀ a ∈ heard c.key between
      (answers serve (serve c (reached serve (newLimiter burst every) calls)).2 between), a.ok = false)
    (mine : d.key = c.key)
    (waited : c.now.nanos + ((serve c (reached serve (newLimiter burst every) calls)).1.wait.toNat /
      1000000000 + 1 : ℕ) * 1000000000 ≤ d.now.nanos) :
    (serve d (reached serve (serve c (reached serve (newLimiter burst every) calls)).2 between)).1.ok =
      true := by
  obtain ⟨first,after,cross⟩ := List.pairwise_append.mp ordered
  obtain ⟨amid,-,last⟩ := List.pairwise_append.mp after
  have next : ∀ e ∈ between ++ [d], c.now ≤ e.now := fun e mem => cross c (by simp) e mem
  have last : ∀ e ∈ between, e.now ≤ d.now := fun e mem => last e mem d (by simp)
  have early : ∀ e ∈ between, c.now ≤ e.now := fun e mem => next e (by simp [mem])
  obtain ⟨x,buckets,nonneg,few,same,kept,tracks⟩ := refusedBucket positive room first no
  obtain ⟨answered,tracked⟩ := followed (serveTracks room positive) tracks amid early
  rw [answered,heardMap] at refused
  rw [same] at waited
  have enough : 1 ≤ (refill burst every).burst := by
    change (1 : ℚ) ≤ burst
    exact_mod_cast room
  have worth := TokenBucket.waited enough (regainedApart positive) amid kept early (fewRefused refused) last
    (waitWorth positive nonneg few waited)
  have answer := (serveTracks room positive (tracked (next d (by simp)) last) le_rfl).1
  rw [answer,answerOk,Refill.ask,mine]
  exact worth

end Waiting

theorem retryAfterEnough {K : Type} [LinearOrder K] [Zero K] [Format K] (B : Backend K) (cfg : Config)
    (burst : ℤ) (every : Duration) (room : 1 ≤ burst) (positive : 0 < every.nanos) (store : B.State)
    (requests : List (MintRequest K)) (first : MintRequest K) (n : ℕ)
    (refused : (mint B cfg first (reached (mint B cfg) (newLimiter burst every,store) requests)).1.retryAfter =
      some n) :
    1 ≤ n ∧ ∀ (between : List (MintRequest K)) (again : MintRequest K),
      Ordered ((requests ++ [first] ++ between ++ [again]).map MintRequest.call) →
      (∀ res ∈ heard first.clientIp (between.map MintRequest.call) (answers (mint B cfg)
        (reached (mint B cfg) (newLimiter burst every,store) (requests ++ [first])) between),
        res.status = 429) →
      again.clientIp = first.clientIp → first.asked.nanos + n * 1000000000 ≤ again.asked.nanos →
      let res := (mint B cfg again (reached (mint B cfg) (newLimiter burst every,store)
        (requests ++ [first] ++ between))).1
      res.status ≠ 429 ∧ res.retryAfter = none := by
  have limiter := mintReached B cfg requests (newLimiter burst every,store)
  have no : (serve first.call (reached (mint B cfg) (newLimiter burst every,store) requests).1).1.ok = false := by
    cases ok : (serve first.call (reached (mint B cfg) (newLimiter burst every,store) requests).1).1.ok with
    | false => rfl
    | true =>
      rw [(mintAllowed B cfg ok).2] at refused
      contradiction
  have seconds := (mintRefused B cfg no).2
  rw [refused] at seconds
  cases seconds
  refine ⟨Nat.le_add_left ..,fun between again ordered still mine waited => ?_⟩
  have next : (reached (mint B cfg) (newLimiter burst every,store) (requests ++ [first])).1 =
      (serve first.call (reached (mint B cfg) (newLimiter burst every,store) requests).1).2 := by
    rw [reachedJoin]
    rfl
  have short := mintHeard B cfg still
  rw [next,limiter] at short
  rw [limiter] at no waited
  have ordered : Ordered (((requests.map MintRequest.call) ++ [first.call]) ++
      ((between.map MintRequest.call) ++ [again.call])) := by
    simpa only [List.map_append,List.map_cons,List.map_nil,List.append_assoc] using ordered
  have through := waitedOut positive room ordered no short mine waited
  refine mintAllowed B cfg ?_
  rw [reachedJoin,mintReached,next,limiter]
  exact through

section Example

def small : Limiter := newLimiter 2 ⟨10000000000,by decide,by decide⟩

def pours : MintRequest (BinaryFormat.Rounded 53) →
    Limiter × (StoreKind.memory.backend (K := BinaryFormat.Rounded 53)).State →
    Response (BinaryFormat.Rounded 53) × Limiter × (StoreKind.memory.backend (K := BinaryFormat.Rounded 53)).State :=
  mint StoreKind.memory.backend ⟨fun id => id ++ "!",5⟩

def visitor (clientIp : String) (seconds : ℤ) : MintRequest (BinaryFormat.Rounded 53) where
  clientIp := clientIp
  asked := ⟨seconds * 1000000000⟩
  entropy := MintStatus.firstVisit.entropy
  now := MintStatus.firstVisit.now
  faults := noFaults
  cookie := none
  body := .ok MintStatus.firstMint

theorem elevenEnough :
    let start := (small,(StoreKind.memory.backend (K := BinaryFormat.Rounded 53)).empty)
    let two := [visitor "a" 0,visitor "a" 0]
    (pours (visitor "a" 0) (reached pours start two)).1.retryAfter = some 11 ∧
    let res := (pours (visitor "a" 11) (reached pours start
      (two ++ [visitor "a" 0] ++ [visitor "a" 5,visitor "b" 6]))).1
    res.status ≠ 429 ∧ res.retryAfter = none := by
  intro start two
  have refused : (pours (visitor "a" 0) (reached pours start two)).1.retryAfter = some 11 := by decide +kernel
  have still : ∀ res ∈ heard "a" ([visitor "a" 5,visitor "b" 6].map MintRequest.call)
      (answers pours (reached pours start (two ++ [visitor "a" 0])) [visitor "a" 5,visitor "b" 6]),
      res.status = 429 := by decide +kernel
  exact ⟨refused,(retryAfterEnough StoreKind.memory.backend ⟨fun id => id ++ "!",5⟩ 2
    ⟨10000000000,by decide,by decide⟩ (by decide) (by decide) StoreKind.memory.backend.empty two
    (visitor "a" 0) 11 refused).2 [visitor "a" 5,visitor "b" 6] (visitor "a" 11) (by decide) still rfl
    (by decide)⟩

end Example
end MoltenPour.RetryAfter
