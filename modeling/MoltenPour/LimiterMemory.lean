import MoltenPour.MintLimit

/-! What the limiter remembers. Deleting idle buckets changes no answer, and what
is left after a call was used within a minute and the time a bucket takes to fill. -/
namespace MoltenPour.LimiterMemory
open Pour Runs TokenBucket MintLimit

def keep (call : Call String Time) (l : Limiter) : Answer × Limiter := take call.key call.now l

theorem keepTracks {burst : ℤ} {every : Duration} {now : Time} {l : Limiter}
    {buckets : String → Option bucket} {c : Call String Time} (tracks : Tracks burst every now l buckets)
    (later : now ≤ c.now) : (keep c l).1 = answer every ((refill burst every).ask c buckets).1 ∧
      Tracks burst every c.now (keep c l).2 ((refill burst every).ask c buckets).2 :=
  takeTracks (tracks.later later)

theorem orderedHeard {calls : List (Call String Time)} (ordered : Ordered calls) (key : String) :
    Ordered (calls.filter fun c => c.key = key) := List.Pairwise.filter _ ordered

theorem sweepInvisible (l : Limiter) (room : 1 ≤ l.burst) (positive : 0 < l.every.nanos)
    (calls : List (Call String Time)) (ordered : Ordered calls) :
    answers serve l calls = answers keep l calls ∧
    ∀ key, heard key calls (answers serve l calls) =
      answers serve l (calls.filter fun c => c.key = key) := by
  have swept := servedFrom room positive (l := l) rfl rfl ordered
  have unswept := (followedFrom (l := l) keepTracks rfl rfl ordered).1
  refine ⟨swept.trans unswept.symm,fun key => ?_⟩
  have alone := servedFrom room positive (l := l) rfl rfl (orderedHeard ordered key)
  rw [swept,alone,heardMap,heardAlone calls rfl]

def revisited : List (Call String Time) :=
  [⟨"a",⟨1700000000000000000⟩⟩,⟨"b",⟨1700000001000000000⟩⟩,⟨"b",⟨1700000001000000000⟩⟩,
    ⟨"c",⟨1700000002000000000⟩⟩,⟨"a",⟨1700000120000000000⟩⟩]

theorem sweepInvisibleOnce : answers serve deployed revisited = answers keep deployed revisited ∧
    ∀ key, heard key revisited (answers serve deployed revisited) =
      answers serve deployed (revisited.filter fun c => c.key = key) :=
  sweepInvisible deployed (by decide) (by decide) revisited (by decide)

def lastUse (key : String) (calls : List (Call String Time)) : Option Time :=
  (calls.reverse.find? fun c => c.key = key).map Call.now

theorem lastUseMine {key : String} {c : Call String Time} (mine : c.key = key)
    (calls : List (Call String Time)) : lastUse key (calls ++ [c]) = some c.now := by
  simp [lastUse,mine]

theorem lastUseOther {key : String} {c : Call String Time} (other : c.key ≠ key)
    (calls : List (Call String Time)) : lastUse key (calls ++ [c]) = lastUse key calls := by
  simp [lastUse,other]

theorem lastUseCall {key : String} {calls : List (Call String Time)} {t : Time}
    (used : lastUse key calls = some t) : ∃ c ∈ calls, c.key = key ∧ c.now = t := by
  obtain ⟨c,found,same⟩ := Option.map_eq_some_iff.mp used
  have mine := List.find?_some found
  exact ⟨c,List.mem_reverse.mp (List.mem_of_find?_eq_some found),of_decide_eq_true mine,same⟩

def spanStart (burst : ℤ) (every : Duration) (now : Time) : ℤ :=
  now.nanos - minute - burst * every.nanos

def seenSince (start : ℤ) (calls : List (Call String Time)) : List String :=
  ((calls.filter fun c => start < c.now.nanos).map Call.key).dedup

structure Recent (start : ℤ) (calls : List (Call String Time)) (l : Limiter) : Prop where
  used : ∀ key ∈ l.buckets, ∃ t, lastUse key calls = some t ∧ start < t.nanos
  few : l.buckets.entries.length ≤ (seenSince start calls).length

theorem recentOf {start : ℤ} {calls : List (Call String Time)} {l : Limiter}
    (used : ∀ key ∈ l.buckets, ∃ t, lastUse key calls = some t ∧ start < t.nanos) :
    Recent start calls l := by
  have seen : l.buckets.keys ⊆ seenSince start calls := by
    intro key mem
    obtain ⟨t,last,recent⟩ := used key (AList.mem_keys.mp mem)
    obtain ⟨c,call,mine,same⟩ := lastUseCall last
    subst mine same
    have within : c ∈ calls.filter fun c => start < c.now.nanos :=
      List.mem_filter.mpr ⟨call,decide_eq_true recent⟩
    exact List.mem_dedup.mpr (List.mem_map_of_mem within)
  have fewer := (l.buckets.keys_nodup.subperm seen).length_le
  have same : l.buckets.keys.length = l.buckets.entries.length := List.length_map ..
  exact ⟨used,same ▸ fewer⟩

structure Dated (burst : ℤ) (every : Duration) (calls : List (Call String Time)) (l : Limiter) : Prop where
  sameBurst : l.burst = burst
  sameEvery : l.every = every
  since : ∀ {key b}, lookups l key = some b → lastUse key calls = some b.since
  held : ∀ {key b}, lookups l key = some b → 0 ≤ b.tokens

def Cleared (burst : ℤ) (every : Duration) (calls : List (Call String Time)) (l : Limiter) : Prop :=
  l.swept = zeroTime ∨ (∃ d ∈ calls, d.now = l.swept) ∧
    ∀ key b, lookups l key = some b → l.swept.nanos - burst * every.nanos < b.since.nanos

section Memory
variable {burst : ℤ} {every : Duration} {calls : List (Call String Time)} {c : Call String Time} {l : Limiter}

theorem sweptLately (now : Time) (l : Limiter) : (sub now (sweep now l).swept).nanos ≤ minute := by
  unfold sweep
  split
  · rw [subSelf]
    decide
  · next calm => exact not_lt.mp calm

theorem Dated.swept (dated : Dated burst every calls l) (now : Time) :
    Dated burst every calls (sweep now l) := by
  obtain ⟨sameBurst,sameEvery⟩ := sweepKeeps now l
  exact ⟨sameBurst.trans dated.sameBurst,sameEvery.trans dated.sameEvery,
    fun found => dated.since (sweptBucket found).1,fun found => dated.held (sweptBucket found).1⟩

theorem takeSwept (key : String) (now : Time) (l : Limiter) : (take key now l).2.swept = l.swept := by
  unfold take
  dsimp only
  split <;> rfl

theorem takeFound {key : String} {b : bucket} (found : lookups (take c.key c.now l).2 key = some b) :
    c.key = key ∧ b = ⟨left ((refill l.burst l.every).level (lookups l key) c.now),c.now⟩ ∨
      c.key ≠ key ∧ lookups l key = some b := by
  rw [(takeAsks c.key c.now l).2.1] at found
  by_cases mine : c.key = key
  · rw [afterAsked _ mine] at found
    cases found
    exact .inl ⟨mine,rfl⟩
  · rw [afterOther _ mine] at found
    exact .inr ⟨mine,found⟩

theorem Dated.early (dated : Dated burst every calls l) (next : ∀ d ∈ calls, d.now ≤ c.now) {key : String}
    {b : bucket} (found : lookups l key = some b) : b.since ≤ c.now := by
  obtain ⟨d,mem,-,same⟩ := lastUseCall (dated.since found)
  exact same ▸ next d mem

variable (room : 1 ≤ burst) (positive : 0 < every.nanos)
include room positive

theorem Dated.taken (dated : Dated burst every calls l) (next : ∀ d ∈ calls, d.now ≤ c.now) :
    Dated burst every (calls ++ [c]) (take c.key c.now l).2 := by
  obtain ⟨-,-,sameBurst,sameEvery⟩ := takeAsks c.key c.now l
  refine ⟨sameBurst.trans dated.sameBurst,sameEvery.trans dated.sameEvery,fun found => ?since,
    fun found => ?held⟩
  case since =>
    cases takeFound found with
    | inl mine => rw [lastUseMine mine.1,mine.2]
    | inr other => rw [lastUseOther other.1,dated.since other.2]
  case held =>
    cases takeFound found with
    | inl mine =>
      have sound : Sound c.key [c] (lookups l) := by
        intro b found
        exact ⟨dated.held found,fun d mem => List.mem_singleton.mp mem ▸ dated.early next found⟩
      have nonneg := levelNonneg (refillSteady room positive) sound
      rw [← dated.sameBurst,← dated.sameEvery] at nonneg
      rw [mine.2,← mine.1]
      exact (leftWithin nonneg).1
    | inr other => exact dated.held other.2

omit room in
theorem unfilled (fits : burst * every.nanos ≤ 9223372036854775807) {now : Time} {b : bucket}
    (held : 0 ≤ b.tokens) (live : idle burst every now b = false) :
    now.nanos - burst * every.nanos < b.since.nanos := by
  have rate : (0 : ℚ) < every.nanos := by exact_mod_cast positive
  have short : b.tokens + regained every b.since now < burst := not_le.mp (of_decide_eq_false live)
  have some : regained every b.since now < burst := (le_add_of_nonneg_left held).trans_lt short
  have below : ((sub now b.since).nanos : ℚ) < burst * every.nanos := (div_lt_iff₀ rate).mp some
  have exact : (sub now b.since).nanos < burst * every.nanos := by exact_mod_cast below
  simp only [sub] at exact
  omega

omit room in
theorem Cleared.swept (fits : burst * every.nanos ≤ 9223372036854775807)
    (dated : Dated burst every calls l) (cleared : Cleared burst every calls l) :
    Cleared burst every (calls ++ [c]) (sweep c.now l) := by
  by_cases due : minute < (sub c.now l.swept).nanos
  · have now : (sweep c.now l).swept = c.now := by
      unfold sweep
      rw [if_pos due]
    refine .inr ⟨⟨c,by simp,now.symm⟩,fun key b found => ?_⟩
    obtain ⟨before,live⟩ := sweptBucket found
    have live := live due
    rw [dated.sameBurst,dated.sameEvery] at live
    rw [now]
    exact unfilled positive fits (dated.held before) live
  · have same : sweep c.now l = l := if_neg due
    rw [same]
    cases cleared with
    | inl never => exact .inl never
    | inr once =>
      obtain ⟨⟨d,mem,same⟩,kept⟩ := once
      exact .inr ⟨⟨d,by simp [mem],same⟩,kept⟩

theorem Cleared.taken (cleared : Cleared burst every calls l) (now : ∀ d ∈ calls, d.now ≤ c.now) :
    Cleared burst every calls (take c.key c.now l).2 := by
  have keeps : (take c.key c.now l).2.swept = l.swept := takeSwept ..
  cases cleared with
  | inl never => exact .inl (keeps.trans never)
  | inr once =>
    obtain ⟨⟨d,mem,same⟩,kept⟩ := once
    refine .inr ⟨⟨d,mem,same.trans keeps.symm⟩,fun key b found => ?_⟩
    rw [keeps]
    cases takeFound found with
    | inl mine =>
      have early : l.swept.nanos ≤ c.now.nanos := same ▸ now d mem
      have fills : 0 < burst * every.nanos := mul_pos (zero_lt_one.trans_le room) positive
      rw [mine.2]
      exact (sub_lt_self _ fills).trans_le early
    | inr other => exact kept key b other.2

theorem remembered (fits : burst * every.nanos ≤ 9223372036854775807) (ordered : Ordered calls) :
    Dated burst every calls (reached serve (newLimiter burst every) calls) ∧
      Cleared burst every calls (reached serve (newLimiter burst every) calls) := by
  induction calls using List.reverseRecOn with
  | nil =>
    have none {key : String} {b : bucket} (found : lookups (newLimiter burst every) key = some b) : False :=
      absurd ((AList.lookup_empty key).symm.trans found) (by simp)
    exact ⟨⟨rfl,rfl,fun found => (none found).elim,fun found => (none found).elim⟩,.inl rfl⟩
  | append_singleton calls c ih =>
    obtain ⟨before,-,next⟩ := List.pairwise_append.mp ordered
    have next : ∀ d ∈ calls, d.now ≤ c.now := fun d mem => next d mem c (by simp)
    have now : ∀ d ∈ calls ++ [c], d.now ≤ c.now := by
      intro d mem
      cases List.mem_append.mp mem with
      | inl before => exact next d before
      | inr last => exact List.mem_singleton.mp last ▸ le_rfl
    obtain ⟨dated,cleared⟩ := ih before
    rw [reachedJoin]
    exact ⟨(dated.swept c.now).taken room positive next,
      (cleared.swept positive fits dated).taken room positive now⟩

end Memory

theorem memoryBounded (burst : ℤ) (every : Duration) (room : 1 ≤ burst) (positive : 0 < every.nanos)
    (fits : burst * every.nanos ≤ 9223372036854775807) (calls : List (Call String Time))
    (c : Call String Time) (ordered : Ordered (calls ++ [c]))
    (known : zeroTime.nanos + minute < c.now.nanos ∨ ∀ d ∈ calls, zeroTime ≤ d.now) :
    Recent (spanStart burst every c.now) (calls ++ [c]) (reached serve (newLimiter burst every) (calls ++ [c])) := by
  obtain ⟨dated,cleared⟩ := remembered room positive fits ordered
  have lately : (sub c.now (reached serve (newLimiter burst every) (calls ++ [c])).swept).nanos ≤ minute := by
    rw [reachedJoin]
    change (sub c.now (take c.key c.now _).2.swept).nanos ≤ minute
    rw [takeSwept]
    exact sweptLately ..
  have fills : 0 < burst * every.nanos := mul_pos (zero_lt_one.trans_le room) positive
  refine recentOf fun key mem => ?_
  obtain ⟨b,found⟩ := Option.isSome_iff_exists.mp (AList.lookup_isSome.mpr mem)
  have last := dated.since found
  refine ⟨b.since,last,?_⟩
  unfold spanStart
  cases cleared with
  | inr once =>
    have kept := once.2 key b found
    simp only [sub,minute] at lately ⊢
    omega
  | inl never =>
    rw [never] at lately
    cases known with
    | inl late =>
      simp only [sub,minute] at lately late
      omega
    | inr dates =>
      obtain ⟨d,call,-,same⟩ := lastUseCall last
      cases List.mem_append.mp call with
      | inl before =>
        have date : zeroTime.nanos ≤ d.now.nanos := dates d before
        rw [← same]
        simp only [sub,minute] at lately ⊢
        omega
      | inr here =>
        rw [← same,List.mem_singleton.mp here]
        simp only [minute]
        omega

theorem memoryBoundedOnce :
    Recent (spanStart 5 deployed.every ⟨1700000120000000000⟩) revisited (reached serve deployed revisited) :=
  memoryBounded 5 deployed.every (by decide) (by decide) (by decide) (revisited.take 4)
    ⟨"a",⟨1700000120000000000⟩⟩ (by decide) (.inl (by decide))

/- A bucket of two tokens that fills in five hundred and eighty-four years, of which
Sub sees half; and a bucket from before year one, when no sweep is due. -/
theorem memoryKept :
    ¬ Recent (spanStart 2 ⟨9223372036854775807,by decide,by decide⟩ ⟨18446744133709551615⟩)
      [⟨"a",⟨0⟩⟩,⟨"a",⟨0⟩⟩,⟨"b",⟨18446744133709551615⟩⟩]
      (reached serve (newLimiter 2 ⟨9223372036854775807,by decide,by decide⟩)
        [⟨"a",⟨0⟩⟩,⟨"a",⟨0⟩⟩,⟨"b",⟨18446744133709551615⟩⟩]) ∧
    ¬ Recent (spanStart 1 ⟨1,by decide,by decide⟩ ⟨-62135600400000000000⟩)
      [⟨"a",⟨-62135604000000000000⟩⟩,⟨"b",⟨-62135600400000000000⟩⟩]
      (reached serve (newLimiter 1 ⟨1,by decide,by decide⟩)
        [⟨"a",⟨-62135604000000000000⟩⟩,⟨"b",⟨-62135600400000000000⟩⟩]) :=
  ⟨fun recent => absurd recent.few (by decide +kernel),fun recent => absurd recent.few (by decide +kernel)⟩

end MoltenPour.LimiterMemory
