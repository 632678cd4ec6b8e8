import Mathlib.Data.List.AList
import MoltenPour.Pour
import MoltenPour.TokenBucket

/-! api/httpapi/limiter.go: a token bucket per client address, with the idle ones
swept away at most once a minute. The lock makes each call one step; a token
count is the rational its float stands for. -/
namespace MoltenPour.MintLimit
open Pour Runs TokenBucket

theorem nanosOnly : Function.Injective Time.nanos := by
  intro a b same
  cases a
  cases b
  exact congrArg Time.mk same

instance : LinearOrder Time := LinearOrder.lift' Time.nanos nanosOnly

structure Duration where
  nanos : ℤ
  least : -9223372036854775808 ≤ nanos
  most : nanos ≤ 9223372036854775807

theorem saturates (d : ℤ) :
    -9223372036854775808 ≤ max (-9223372036854775808) (min 9223372036854775807 d) ∧
    max (-9223372036854775808) (min 9223372036854775807 d) ≤ 9223372036854775807 :=
  ⟨le_max_left ..,max_le (by norm_num) (min_le_left ..)⟩

/- Sub saturates, at about two hundred and ninety-two years. -/
def sub (t u : Time) : Duration :=
  ⟨max (-9223372036854775808) (min 9223372036854775807 (t.nanos - u.nanos)),
    (saturates (t.nanos - u.nanos)).1,(saturates (t.nanos - u.nanos)).2⟩

def minute : ℤ := 60000000000

def zeroTime : Time := ⟨-62135596800000000000⟩

abbrev bucket := Bucket ℚ Time

structure Limiter where
  burst : ℤ
  every : Duration
  buckets : AList fun _ : String => bucket
  swept : Time

def newLimiter (burst : ℤ) (every : Duration) : Limiter := ⟨burst,every,∅,zeroTime⟩

/- float64(now.Sub(b.at))/float64(l.every) -/
def regained (every : Duration) (since now : Time) : ℚ := (sub now since).nanos / every.nanos

theorem filteredKeys (p : bucket → Bool) (buckets : AList fun _ : String => bucket) :
    (buckets.entries.filter fun e => !p e.2).NodupKeys :=
  buckets.nodupKeys.sublist List.filter_sublist

def delete (p : bucket → Bool) (buckets : AList fun _ : String => bucket) :
    AList fun _ : String => bucket :=
  ⟨buckets.entries.filter fun e => !p e.2,filteredKeys p buckets⟩

def idle (burst : ℤ) (every : Duration) (now : Time) (b : bucket) : Bool :=
  decide (burst ≤ b.tokens + regained every b.since now)

def sweep (now : Time) (l : Limiter) : Limiter :=
  if minute < (sub now l.swept).nanos then
    { l with buckets := delete (idle l.burst l.every now) l.buckets, swept := now }
  else l

def truncated (x : ℚ) : ℤ := if x < 0 then ⌈x⌉ else ⌊x⌋

structure Answer where
  ok : Bool
  wait : ℤ
  deriving DecidableEq, Repr

def take (key : String) (now : Time) (l : Limiter) : Answer × Limiter :=
  let b := (l.buckets.lookup key).getD ⟨l.burst,now⟩
  let tokens := min (l.burst : ℚ) (b.tokens + regained l.every b.since now)
  if tokens < 1 then
    (⟨false,truncated ((1 - tokens) * l.every.nanos)⟩,
      { l with buckets := l.buckets.insert key ⟨tokens,now⟩ })
  else (⟨true,0⟩,{ l with buckets := l.buckets.insert key ⟨tokens - 1,now⟩ })

def allow (key : String) (now : Time) (l : Limiter) : Answer × Limiter := take key now (sweep now l)

def serve (call : Call String Time) (l : Limiter) : Answer × Limiter := allow call.key call.now l

def refill (burst : ℤ) (every : Duration) : Refill ℚ Time := ⟨burst,regained every⟩

def elapsed (every : Duration) (t : Time) : ℚ := t.nanos / every.nanos

def answer (every : Duration) (tokens : ℚ) : Answer :=
  if tokens < 1 then ⟨false,truncated ((1 - tokens) * every.nanos)⟩ else ⟨true,0⟩

theorem subSelf (t : Time) : (sub t t).nanos = 0 := by simp [sub]

theorem subRises (s : Time) {t u : Time} (later : t ≤ u) : (sub t s).nanos ≤ (sub u s).nanos := by
  have order : t.nanos ≤ u.nanos := later
  simp only [sub]
  omega

theorem subMost {s t : Time} (later : s ≤ t) : (sub t s).nanos ≤ t.nanos - s.nanos := by
  have order : s.nanos ≤ t.nanos := later
  simp only [sub]
  omega

theorem refillSteady {burst : ℤ} {every : Duration} (room : 1 ≤ burst) (positive : 0 < every.nanos) :
    Steady (refill burst every) (elapsed every) := by
  have rate : (0 : ℚ) < every.nanos := by exact_mod_cast positive
  refine ⟨?room,fun t => ?still,fun s t u later => ?rises,fun {s t} later => ?bounded⟩
  case room =>
    have one : (1 : ℚ) ≤ burst := by exact_mod_cast room
    exact zero_le_one.trans one
  case still => simp [refill,regained,subSelf]
  case rises =>
    have more : ((sub t s).nanos : ℚ) ≤ (sub u s).nanos := by exact_mod_cast subRises s later
    exact div_le_div_of_nonneg_right more rate.le
  case bounded =>
    have most : ((sub t s).nanos : ℚ) ≤ t.nanos - s.nanos := by exact_mod_cast subMost later
    exact (div_le_div_of_nonneg_right most rate.le).trans_eq (sub_div ..)

def lookups (l : Limiter) : String → Option bucket := fun key => l.buckets.lookup key

theorem lookupDelete (p : bucket → Bool) (buckets : AList fun _ : String => bucket) (key : String) :
    (delete p buckets).lookup key = (buckets.lookup key).filter fun b => !p b := by
  refine Option.ext fun b => ?_
  rw [Option.filter_eq_some_iff]
  change b ∈ (delete p buckets).lookup key ↔ b ∈ buckets.lookup key ∧ (!p b) = true
  rw [AList.mem_lookup_iff,AList.mem_lookup_iff]
  exact List.mem_filter

theorem sweepKeeps (now : Time) (l : Limiter) :
    (sweep now l).burst = l.burst ∧ (sweep now l).every = l.every := by
  unfold sweep
  split <;> exact ⟨rfl,rfl⟩

theorem sweptBucket {now : Time} {l : Limiter} {key : String} {b : bucket} (found : lookups (sweep now l) key = some b) :
    lookups l key = some b ∧ (minute < (sub now l.swept).nanos → idle l.burst l.every now b = false) := by
  unfold sweep at found
  split at found
  · change (delete (idle l.burst l.every now) l.buckets).lookup key = some b at found
    rw [lookupDelete,Option.filter_eq_some_iff] at found
    exact ⟨found.1,fun _ => Bool.not_eq_eq_eq_not.mp found.2⟩
  · next calm => exact ⟨found,fun due => absurd due calm⟩

theorem tokensFound (burst : ℤ) (every : Duration) (now : Time) (b : Option bucket) :
    min (burst : ℚ) ((b.getD ⟨burst,now⟩).tokens + regained every (b.getD ⟨burst,now⟩).since now) =
      (refill burst every).level b now := by
  cases b with
  | none => simp [Refill.level,refill,regained,subSelf]
  | some b => rfl

theorem lookupsInsert (l : Limiter) (key : String) (b : bucket) :
    lookups { l with buckets := l.buckets.insert key b } = Function.update (lookups l) key (some b) := by
  funext k
  by_cases mine : k = key
  · subst mine
    rw [Function.update_self]
    exact AList.lookup_insert ..
  · rw [Function.update_of_ne mine]
    exact AList.lookup_insert_ne mine

theorem takeAsks (key : String) (now : Time) (l : Limiter) :
    let asked := (refill l.burst l.every).ask ⟨key,now⟩ (lookups l)
    (take key now l).1 = answer l.every asked.1 ∧ lookups (take key now l).2 = asked.2 ∧
    (take key now l).2.burst = l.burst ∧ (take key now l).2.every = l.every := by
  intro asked
  have found : asked.1 = (refill l.burst l.every).level (l.buckets.lookup key) now := rfl
  have kept : asked.2 = Function.update (lookups l) key (some ⟨left asked.1,now⟩) := rfl
  unfold take
  simp only [tokensFound]
  rw [kept,← found,answer,left]
  split
  · exact ⟨rfl,lookupsInsert ..,rfl,rfl⟩
  · exact ⟨rfl,lookupsInsert ..,rfl,rfl⟩

structure Tracks (burst : ℤ) (every : Duration) (now : Time) (l : Limiter)
    (buckets : String → Option bucket) : Prop where
  sameBurst : l.burst = burst
  sameEvery : l.every = every
  alike : Alike (refill burst every) now (lookups l) buckets

section Swept
variable {burst : ℤ} {every : Duration} (room : 1 ≤ burst) (positive : 0 < every.nanos)
include room positive

theorem sweepAlike {now : Time} {l : Limiter} {buckets : String → Option bucket}
    (tracks : Tracks burst every now l buckets) : Tracks burst every now (sweep now l) buckets := by
  obtain ⟨sameBurst,sameEvery⟩ := sweepKeeps now l
  refine ⟨sameBurst.trans tracks.sameBurst,sameEvery.trans tracks.sameEvery,?_⟩
  unfold sweep
  split
  · have full (b : bucket) (dead : (!idle burst every now b) = false) :
        (refill burst every).burst ≤ b.tokens + (refill burst every).gain b.since now :=
      of_decide_eq_true (Bool.not_eq_eq_eq_not.mp dead)
    have gone : lookups { l with buckets := delete (idle l.burst l.every now) l.buckets, swept := now } =
        fun key => (lookups l key).filter fun b => !idle burst every now b := by
      funext key
      rw [← tracks.sameBurst,← tracks.sameEvery]
      exact lookupDelete ..
    rw [gone]
    exact alikeForget (refillSteady room positive) tracks.alike full
  · exact tracks.alike

omit room positive in
theorem takeTracks {c : Call String Time} {l : Limiter} {buckets : String → Option bucket}
    (tracks : Tracks burst every c.now l buckets) :
    (take c.key c.now l).1 = answer every ((refill burst every).ask c buckets).1 ∧
      Tracks burst every c.now (take c.key c.now l).2 ((refill burst every).ask c buckets).2 := by
  obtain ⟨same,next⟩ := alikeAsk tracks.alike (le_refl c.now)
  obtain ⟨answered,kept,sameBurst,sameEvery⟩ := takeAsks c.key c.now l
  rw [tracks.sameBurst,tracks.sameEvery] at answered kept
  refine ⟨answered.trans (congrArg (answer every) same),sameBurst.trans tracks.sameBurst,
    sameEvery.trans tracks.sameEvery,?_⟩
  rw [kept]
  exact next

omit room positive in
theorem Tracks.later {now next : Time} {l : Limiter} {buckets : String → Option bucket}
    (tracks : Tracks burst every now l buckets) (later : now ≤ next) : Tracks burst every next l buckets :=
  ⟨tracks.sameBurst,tracks.sameEvery,fun key t after => tracks.alike key t (later.trans after)⟩

theorem serveTracks {now : Time} {l : Limiter} {buckets : String → Option bucket} {c : Call String Time}
    (tracks : Tracks burst every now l buckets) (later : now ≤ c.now) :
    (serve c l).1 = answer every ((refill burst every).ask c buckets).1 ∧
      Tracks burst every c.now (serve c l).2 ((refill burst every).ask c buckets).2 :=
  takeTracks (sweepAlike room positive (tracks.later later))

omit room positive in
theorem followed {act : Call String Time → Limiter → Answer × Limiter}
    (step : ∀ {now l buckets c}, Tracks burst every now l buckets → now ≤ c.now →
      (act c l).1 = answer every ((refill burst every).ask c buckets).1 ∧
        Tracks burst every c.now (act c l).2 ((refill burst every).ask c buckets).2)
    {now : Time} {l : Limiter} {buckets : String → Option bucket} (tracks : Tracks burst every now l buckets)
    {calls : List (Call String Time)} (ordered : Ordered calls) (later : ∀ c ∈ calls, now ≤ c.now) :
    answers act l calls = (answers (refill burst every).ask buckets calls).map (answer every) ∧
    ∀ {next}, now ≤ next → (∀ c ∈ calls, c.now ≤ next) →
      Tracks burst every next (reached act l calls) (reached (refill burst every).ask buckets calls) := by
  induction calls generalizing now l buckets with
  | nil => exact ⟨rfl,fun after _ => tracks.later after⟩
  | cons c rest ih =>
    obtain ⟨first,ordered⟩ := List.pairwise_cons.mp ordered
    obtain ⟨same,next⟩ := step tracks (later c (by simp))
    obtain ⟨answered,tracked⟩ := ih next ordered first
    refine ⟨?_,fun after last => tracked (last c (by simp)) fun d mem => last d (by simp [mem])⟩
    rw [answers,answers,List.map_cons,same,answered]

omit room positive in
theorem followedFrom {act : Call String Time → Limiter → Answer × Limiter} {l : Limiter}
    (step : ∀ {now l buckets c}, Tracks burst every now l buckets → now ≤ c.now →
      (act c l).1 = answer every ((refill burst every).ask c buckets).1 ∧
        Tracks burst every c.now (act c l).2 ((refill burst every).ask c buckets).2)
    (sameBurst : l.burst = burst) (sameEvery : l.every = every)
    {calls : List (Call String Time)} (ordered : Ordered calls) :
    answers act l calls = (answers (refill burst every).ask (lookups l) calls).map (answer every) ∧
    ∀ {next}, (∀ c ∈ calls, c.now ≤ next) →
      Tracks burst every next (reached act l calls) (reached (refill burst every).ask (lookups l) calls) := by
  have start (now : Time) : Tracks burst every now l (lookups l) := ⟨sameBurst,sameEvery,fun _ _ _ => rfl⟩
  cases calls with
  | nil => exact ⟨rfl,fun _ => start _⟩
  | cons c rest =>
    have first : ∀ d ∈ c::rest, c.now ≤ d.now := by
      intro d mem
      cases List.mem_cons.mp mem with
      | inl here => exact here ▸ le_rfl
      | inr after => exact (List.pairwise_cons.mp ordered).1 d after
    obtain ⟨answered,tracked⟩ := followed step (start c.now) ordered first
    exact ⟨answered,fun last => tracked (last c (by simp)) last⟩

theorem servedFrom {l : Limiter} (sameBurst : l.burst = burst) (sameEvery : l.every = every)
    {calls : List (Call String Time)} (ordered : Ordered calls) :
    answers serve l calls = (answers (refill burst every).ask (lookups l) calls).map (answer every) :=
  (followedFrom (serveTracks room positive) sameBurst sameEvery ordered).1

end Swept

theorem soundNew (burst : ℤ) (every : Duration) (key : String) (calls : List (Call String Time)) :
    Sound key calls (lookups (newLimiter burst every)) := by
  intro b found
  exact absurd ((AList.lookup_empty key).symm.trans found) (by simp)

def allowed (key : String) (s e : Time) (calls : List (Call String Time)) (answers : List Answer) : ℕ :=
  (calls.zip answers).countP fun p => p.1.key = key ∧ s ≤ p.1.now ∧ p.1.now ≤ e ∧ p.2.ok = true

theorem answerOk (every : Duration) (tokens : ℚ) : (answer every tokens).ok = true ↔ 1 ≤ tokens := by
  unfold answer
  split
  · next few => simpa using few
  · next enough => simpa using enough

theorem allowedGranted (every : Duration) (key : String) (s e : Time) (calls : List (Call String Time))
    (levels : List ℚ) : allowed key s e calls (levels.map (answer every)) = granted key s e calls levels := by
  unfold allowed granted
  rw [List.zip_map_right,List.countP_map]
  refine List.countP_congr fun p _ => ?_
  simp [answerOk]

theorem windowLimit (burst : ℤ) (every : Duration) (room : 1 ≤ burst) (positive : 0 < every.nanos)
    (calls : List (Call String Time)) (ordered : Ordered calls) (key : String) (s e : Time) (window : s ≤ e) :
    (allowed key s e calls (answers serve (newLimiter burst every) calls) : ℚ) ≤
      burst + (e.nanos - s.nanos) / every.nanos := by
  have sound := soundNew burst every key calls
  have window := grantedWindow (refillSteady room positive) ordered sound window
  rw [servedFrom room positive rfl rfl ordered,allowedGranted]
  refine window.trans_eq ?_
  rw [sub_div]
  rfl

example : (answers serve (newLimiter 2 ⟨10000000000,by decide,by decide⟩)
    [⟨"a",⟨0⟩⟩,⟨"a",⟨0⟩⟩,⟨"a",⟨0⟩⟩,⟨"b",⟨0⟩⟩,⟨"a",⟨10000000000⟩⟩,⟨"a",⟨10000000000⟩⟩]).map Answer.ok =
    [true,true,false,true,true,false] := by decide +kernel

def busy : List (Call String Time) :=
  List.replicate 60 ⟨"203.0.113.1",⟨1700000000000000000⟩⟩ ++ [⟨"203.0.113.2",⟨1700000001000000000⟩⟩]

def deployed : Limiter := newLimiter 5 ⟨6000000000,by decide,by decide⟩

theorem windowLimitBusy :
    (allowed "203.0.113.1" ⟨1700000000000000000⟩ ⟨1700000012000000000⟩ busy
      (answers serve (newLimiter 5 ⟨6000000000,by decide,by decide⟩) busy) : ℚ) ≤
      (5 : ℤ) + ((1700000012000000000 : ℤ) - (1700000000000000000 : ℤ)) / (6000000000 : ℤ) :=
  windowLimit 5 ⟨6000000000,by decide,by decide⟩ (by decide) (by decide) busy (by decide) "203.0.113.1"
    ⟨1700000000000000000⟩ ⟨1700000012000000000⟩ (by decide)

end MoltenPour.MintLimit
