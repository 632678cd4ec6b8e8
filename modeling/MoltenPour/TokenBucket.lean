import MoltenPour.Runs

/-! Token buckets, one to a key. A bucket keeps what it held and when; what it has
regained since is read off when it is asked for a token, up to the burst. No
window grants more than the burst and what the window itself regains. -/
namespace MoltenPour.TokenBucket
open Runs
variable {K T Key : Type} [Field K] [LinearOrder K] [LinearOrder T]

structure Bucket (K T : Type) where
  tokens : K
  since : T
  deriving DecidableEq, Repr

structure Refill (K T : Type) where
  burst : K
  gain : T → T → K

/- What a key has at a moment. One that was never asked for has a full bucket. -/
def Refill.level (refill : Refill K T) (bucket : Option (Bucket K T)) (now : T) : K :=
  match bucket with
  | none => refill.burst
  | some b => min refill.burst (b.tokens + refill.gain b.since now)

def left (level : K) : K := if level < 1 then level else level - 1

structure Call (Key T : Type) where
  key : Key
  now : T
  deriving DecidableEq, Repr

def Refill.ask [DecidableEq Key] (refill : Refill K T) (call : Call Key T)
    (buckets : Key → Option (Bucket K T)) : K × (Key → Option (Bucket K T)) :=
  let level := refill.level (buckets call.key) call.now
  (level,Function.update buckets call.key (some ⟨left level,call.now⟩))

structure Steady (refill : Refill K T) (clock : T → K) : Prop where
  room : 0 ≤ refill.burst
  still : ∀ t, refill.gain t t = 0
  rises : ∀ s {t u}, t ≤ u → refill.gain s t ≤ refill.gain s u
  bounded : ∀ {s t}, s ≤ t → refill.gain s t ≤ clock t - clock s

variable {refill : Refill K T} {clock : T → K}

theorem Steady.nonneg (steady : Steady refill clock) {s t : T} (later : s ≤ t) : 0 ≤ refill.gain s t :=
  steady.still s ▸ steady.rises s later

omit [LinearOrder T] in
theorem levelMost (bucket : Option (Bucket K T)) (now : T) : refill.level bucket now ≤ refill.burst := by
  cases bucket with
  | none => exact le_rfl
  | some b => exact min_le_left ..

theorem Steady.forward (steady : Steady refill clock) {s t : T} (later : s ≤ t) :
    0 ≤ clock t - clock s := (steady.nonneg later).trans (steady.bounded later)

variable [IsStrictOrderedRing K]

theorem levelFull (steady : Steady refill clock) {b : Bucket K T} {t u : T} (later : t ≤ u)
    (full : refill.burst ≤ b.tokens + refill.gain b.since t) : refill.level (some b) u = refill.burst :=
  min_eq_left (full.trans (add_le_add_right (steady.rises b.since later) b.tokens))

theorem levelSome (steady : Steady refill clock) {b : Bucket K T} {t : T} (held : 0 ≤ b.tokens)
    (later : b.since ≤ t) : 0 ≤ refill.level (some b) t ∧
      refill.level (some b) t ≤ b.tokens + (clock t - clock b.since) := by
  have regained := steady.nonneg later
  refine ⟨le_min steady.room (add_nonneg held regained),(min_le_right ..).trans ?_⟩
  exact add_le_add_right (steady.bounded later) b.tokens

omit [IsStrictOrderedRing K] in
theorem leftEnough {level : K} (enough : 1 ≤ level) : left level = level - 1 := if_neg enough.not_gt

omit [IsStrictOrderedRing K] in
theorem leftFew {level : K} (few : level < 1) : left level = level := if_pos few

theorem leftWithin {level : K} (nonneg : 0 ≤ level) : 0 ≤ left level ∧ left level ≤ level := by
  unfold left
  split
  · exact ⟨nonneg,le_rfl⟩
  · next enough => exact ⟨sub_nonneg.mpr (not_lt.mp enough),sub_le_self _ zero_le_one⟩

section Windows
variable [DecidableEq Key]

def granted (key : Key) (s e : T) (calls : List (Call Key T)) (levels : List K) : ℕ :=
  (calls.zip levels).countP fun p => p.1.key = key ∧ s ≤ p.1.now ∧ p.1.now ≤ e ∧ 1 ≤ p.2

def Ordered (calls : List (Call Key T)) : Prop := calls.Pairwise fun c d => c.now ≤ d.now
instance (calls : List (Call Key T)) : Decidable (Ordered calls) :=
  inferInstanceAs (Decidable (calls.Pairwise _))

variable {key : Key} {s e : T} {c : Call Key T} {calls : List (Call Key T)} {x : K} {levels : List K}

omit [IsStrictOrderedRing K] in
theorem grantedOut (out : ¬ (c.key = key ∧ s ≤ c.now ∧ c.now ≤ e ∧ 1 ≤ x)) :
    granted key s e (c::calls) (x::levels) = granted key s e calls levels := by
  unfold granted
  rw [List.zip_cons_cons,List.countP_cons_of_neg (by simpa using out)]

theorem grantedCost (nonneg : 0 ≤ x) : (granted key s e (c::calls) (x::levels) : K) ≤
    granted key s e calls levels + (x - left x) := by
  by_cases inside : c.key = key ∧ s ≤ c.now ∧ c.now ≤ e ∧ 1 ≤ x
  · have one : granted key s e (c::calls) (x::levels) = granted key s e calls levels + 1 := by
      unfold granted
      rw [List.zip_cons_cons,List.countP_cons_of_pos (by simpa using inside)]
    rw [one,leftEnough inside.2.2.2,sub_sub_cancel]
    push_cast
    exact le_rfl
  · rw [grantedOut inside]
    exact le_add_of_nonneg_right (sub_nonneg.mpr (leftWithin nonneg).2)

omit [IsStrictOrderedRing K] in
theorem grantedAfter (late : ∀ d ∈ calls, e < d.now) : granted key s e calls levels = 0 := by
  refine List.countP_eq_zero.mpr fun p mem => ?_
  have after := late p.1 (List.of_mem_zip mem).1
  simp [after.not_ge]

omit [LinearOrder T] [IsStrictOrderedRing K] in
theorem afterAsked (buckets : Key → Option (Bucket K T)) (mine : c.key = key) :
    (refill.ask c buckets).2 key = some ⟨left (refill.level (buckets key) c.now),c.now⟩ := by
  subst mine
  exact Function.update_self ..

omit [LinearOrder T] [IsStrictOrderedRing K] in
theorem afterOther (buckets : Key → Option (Bucket K T)) (other : c.key ≠ key) :
    (refill.ask c buckets).2 key = buckets key := Function.update_of_ne (Ne.symm other) ..

theorem spent (steady : Steady refill clock) (ordered : Ordered calls)
    {buckets : Key → Option (Bucket K T)} {b : Bucket K T} (kept : buckets key = some b)
    (held : 0 ≤ b.tokens) (early : ∀ d ∈ calls, b.since ≤ d.now) (inside : b.since ≤ e) :
    (granted key s e calls (answers refill.ask buckets calls) : K) ≤
      b.tokens + (clock e - clock b.since) := by
  have room := steady.forward inside
  induction calls generalizing buckets b with
  | nil =>
    change ((0 : ℕ) : K) ≤ _
    push_cast
    exact add_nonneg held room
  | cons c rest ih =>
    obtain ⟨next,ordered⟩ := List.pairwise_cons.mp ordered
    change ((granted key s e (c::rest) (refill.level (buckets c.key) c.now::
      answers refill.ask (refill.ask c buckets).2 rest) : ℕ) : K) ≤ _
    by_cases mine : c.key = key
    · have asked : (refill.ask c buckets).2 key = _ := afterAsked buckets mine
      rw [kept] at asked
      rw [mine,kept]
      obtain ⟨some,most⟩ := levelSome steady held (early c (by simp))
      obtain ⟨less,-⟩ := leftWithin some
      by_cases late : c.now ≤ e
      · have later := ih ordered asked less next late (steady.forward late)
        refine (grantedCost some).trans ?_
        change _ ≤ left (refill.level (.some b) c.now) + (clock e - clock c.now) at later
        linarith
      · rw [grantedOut fun both => late both.2.2.1,
          grantedAfter fun d mem => (not_le.mp late).trans_le (next d mem)]
        push_cast
        exact add_nonneg held room
    · rw [grantedOut fun both => mine both.1]
      exact ih ordered ((afterOther buckets mine).trans kept) held (fun d mem => early d (by simp [mem]))
        inside room

def Sound (key : Key) (calls : List (Call Key T)) (buckets : Key → Option (Bucket K T)) : Prop :=
  ∀ b, buckets key = some b → 0 ≤ b.tokens ∧ ∀ d ∈ calls, b.since ≤ d.now

omit [DecidableEq Key] in
theorem levelNonneg (steady : Steady refill clock) {buckets : Key → Option (Bucket K T)}
    (sound : Sound key (c::calls) buckets) : 0 ≤ refill.level (buckets key) c.now := by
  cases kept : buckets key with
  | none => exact steady.room
  | some b =>
    obtain ⟨held,early⟩ := sound b kept
    exact (levelSome steady held (early c (by simp))).1

theorem soundAsked (steady : Steady refill clock) (ordered : Ordered (c::calls))
    {buckets : Key → Option (Bucket K T)} (sound : Sound key (c::calls) buckets) :
    Sound key calls (refill.ask c buckets).2 := by
  intro b kept
  by_cases mine : c.key = key
  · rw [afterAsked buckets mine] at kept
    cases kept
    exact ⟨(leftWithin (levelNonneg steady sound)).1,(List.pairwise_cons.mp ordered).1⟩
  · rw [afterOther buckets mine] at kept
    obtain ⟨held,early⟩ := sound b kept
    exact ⟨held,fun d mem => early d (by simp [mem])⟩

theorem soundReached (steady : Steady refill clock) {more : List (Call Key T)}
    (ordered : Ordered (calls ++ more)) {buckets : Key → Option (Bucket K T)}
    (sound : Sound key (calls ++ more) buckets) : Sound key more (reached refill.ask buckets calls) := by
  induction calls generalizing buckets with
  | nil => exact sound
  | cons c rest ih => exact ih (List.pairwise_cons.mp ordered).2 (soundAsked steady ordered sound)

theorem grantedWindow (steady : Steady refill clock) (ordered : Ordered calls)
    {buckets : Key → Option (Bucket K T)} (sound : Sound key calls buckets) (window : s ≤ e) :
    (granted key s e calls (answers refill.ask buckets calls) : K) ≤
      refill.burst + (clock e - clock s) := by
  induction calls generalizing buckets with
  | nil =>
    change ((0 : ℕ) : K) ≤ _
    push_cast
    exact add_nonneg steady.room (steady.forward window)
  | cons c rest ih =>
    have later := ih (List.pairwise_cons.mp ordered).2 (soundAsked steady ordered sound)
    obtain ⟨next,after⟩ := List.pairwise_cons.mp ordered
    change ((granted key s e (c::rest) (refill.level (buckets c.key) c.now::
      answers refill.ask (refill.ask c buckets).2 rest) : ℕ) : K) ≤ _
    by_cases inside : c.key = key ∧ s ≤ c.now ∧ c.now ≤ e
    · obtain ⟨mine,began,ends⟩ := inside
      have found := levelNonneg steady sound
      have most : refill.level (buckets key) c.now ≤ refill.burst := levelMost ..
      have rest := spent (s := s) steady after (afterAsked buckets mine) (leftWithin found).1 next ends
      have since := steady.forward began
      rw [mine]
      refine (grantedCost found).trans ?_
      change _ ≤ left (refill.level (buckets key) c.now) + (clock e - clock c.now) at rest
      linarith
    · rw [grantedOut fun both => inside ⟨both.1,both.2.1,both.2.2.1⟩]
      exact later

end Windows

section OneKey
variable [DecidableEq Key] {A : Type}

def heard (key : Key) (calls : List (Call Key T)) (answers : List A) : List A :=
  ((calls.zip answers).filter fun p => p.1.key = key).map Prod.snd

omit [LinearOrder T] in
theorem heardMap {O : Type} (key : Key) (calls : List (Call Key T)) (f : A → O) (levels : List A) :
    heard key calls (levels.map f) = (heard key calls levels).map f := by
  unfold heard
  rw [List.zip_map_right,List.filter_map,List.map_map,List.map_map]
  rfl

omit [LinearOrder T] in
theorem heardMine {key : Key} {c : Call Key T} (mine : c.key = key) (calls : List (Call Key T)) (x : A)
    (answers : List A) : heard key (c::calls) (x::answers) = x::heard key calls answers := by
  unfold heard
  rw [List.zip_cons_cons,List.filter_cons_of_pos (by simpa using mine),List.map_cons]

omit [LinearOrder T] in
theorem heardOther {key : Key} {c : Call Key T} (other : c.key ≠ key) (calls : List (Call Key T)) (x : A)
    (answers : List A) : heard key (c::calls) (x::answers) = heard key calls answers := by
  unfold heard
  rw [List.zip_cons_cons,List.filter_cons_of_neg (by simpa using other)]

omit [LinearOrder T] [IsStrictOrderedRing K] in
theorem heardAlone {key : Key} (calls : List (Call Key T)) {a b : Key → Option (Bucket K T)}
    (same : a key = b key) : heard key calls (answers refill.ask a calls) =
      answers refill.ask b (calls.filter fun c => c.key = key) := by
  induction calls generalizing a b with
  | nil => rfl
  | cons c rest ih =>
    rw [answers]
    by_cases mine : c.key = key
    · have found : (refill.ask c a).1 = (refill.ask c b).1 := by
        subst mine
        exact congrArg (fun bucket => refill.level bucket c.now) same
      have after : (refill.ask c a).2 key = (refill.ask c b).2 key := by
        rw [afterAsked a mine,afterAsked b mine,same]
      rw [heardMine mine,List.filter_cons_of_pos (by simpa using mine),answers,found,ih after]
    · rw [heardOther mine,List.filter_cons_of_neg (by simpa using mine)]
      exact ih ((afterOther a mine).trans same)

theorem waited (enough : 1 ≤ refill.burst)
    (apart : ∀ {s t u}, s ≤ t → t ≤ u → refill.gain s u ≤ refill.gain s t + refill.gain t u) {key : Key}
    {calls : List (Call Key T)} (ordered : Ordered calls) {buckets : Key → Option (Bucket K T)}
    {b : Bucket K T} (kept : buckets key = some b) (early : ∀ d ∈ calls, b.since ≤ d.now)
    (refused : ∀ x ∈ heard key calls (answers refill.ask buckets calls), x < 1) {u : T}
    (last : ∀ d ∈ calls, d.now ≤ u) (worth : 1 ≤ b.tokens + refill.gain b.since u) :
    1 ≤ refill.level (reached refill.ask buckets calls key) u := by
  -- a refusal takes nothing, so the level is what it would be had nobody asked
  induction calls generalizing buckets b with
  | nil =>
    change 1 ≤ refill.level (buckets key) u
    rw [kept]
    exact le_min enough worth
  | cons c rest ih =>
    obtain ⟨next,ordered⟩ := List.pairwise_cons.mp ordered
    have last : c.now ≤ u ∧ ∀ d ∈ rest, d.now ≤ u := List.forall_mem_cons.mp last
    rw [answers] at refused
    by_cases mine : c.key = key
    · rw [heardMine mine] at refused
      obtain ⟨few,refused⟩ := List.forall_mem_cons.mp refused
      have found : (refill.ask c buckets).1 = min refill.burst (b.tokens + refill.gain b.since c.now) := by
        subst mine
        exact congrArg (fun bucket => refill.level bucket c.now) kept
      have all : (refill.ask c buckets).1 = b.tokens + refill.gain b.since c.now := by
        rw [found] at few ⊢
        have short := (min_lt_iff.mp few).resolve_left enough.not_gt
        exact min_eq_right (short.le.trans enough)
      have asked : (refill.ask c buckets).2 key = some ⟨(refill.ask c buckets).1,c.now⟩ := by
        have same := leftFew few
        subst mine
        exact (afterAsked buckets rfl).trans (congrArg (fun x => some (Bucket.mk x c.now)) same)
      refine ih ordered asked next refused last.2 ?_
      have more := apart (early c (by simp)) last.1
      change 1 ≤ (refill.ask c buckets).1 + refill.gain c.now u
      rw [all]
      linarith
    · rw [heardOther mine] at refused
      exact ih ordered ((afterOther buckets mine).trans kept) (fun d mem => early d (by simp [mem])) refused
        last.2 worth

end OneKey

section Stretches

def Refill.asks (refill : Refill K T) : Option (Bucket K T) → List T → List K
  | _,[] => []
  | bucket,t::rest =>
      refill.level bucket t::refill.asks (some ⟨left (refill.level bucket t),t⟩) rest

def Refill.drift (refill : Refill K T) : List T → K
  | t::u::rest => refill.gain t u + refill.drift (u::rest)
  | _ => 0

def Funded (refill : Refill K T) (y : K) (t : T) (times : List T) : Prop :=
  ∀ run, run <+: times → (run.length : K) ≤ y + refill.drift (t::run)

def Covered (refill : Refill K T) (times : List T) : Prop :=
  ∀ run, run ≠ [] → run <:+: times → (run.length : K) ≤ refill.burst + refill.drift run

omit [LinearOrder T] [IsStrictOrderedRing K]

theorem fundedCons {y : K} {t u : T} {rest : List T} : Funded refill y t (u::rest) ↔
    0 ≤ y ∧ ∀ run, run <+: rest → ((u::run).length : K) ≤ y + refill.drift (t::u::run) := by
  constructor
  · intro funded
    have none : ((0 : ℕ) : K) ≤ y + 0 := funded [] List.nil_prefix
    rw [Nat.cast_zero,add_zero] at none
    exact ⟨none,fun run start => funded (u::run) ((List.prefix_cons_inj u).mpr start)⟩
  · intro both run start
    cases run with
    | nil =>
      change ((0 : ℕ) : K) ≤ y + 0
      rw [Nat.cast_zero,add_zero]
      exact both.1
    | cons v run =>
      obtain ⟨same,start⟩ := List.cons_prefix_cons.mp start
      exact same ▸ both.2 run start

theorem coveredNil : Covered refill ([] : List T) := by
  intro run some inside
  exact absurd (List.infix_nil.mp inside) some

theorem coveredCons {t : T} {rest : List T} : Covered refill (t::rest) ↔
    (∀ run, run <+: rest → ((t::run).length : K) ≤ refill.burst + refill.drift (t::run)) ∧
      Covered refill rest := by
  constructor
  · intro covered
    refine ⟨fun run start => ?_,fun run some inside => covered run some (List.infix_cons inside)⟩
    exact covered (t::run) (by simp) ((List.prefix_cons_inj t).mpr start).isInfix
  · intro both run some inside
    cases List.infix_cons_iff.mp inside with
    | inr later => exact both.2 run some later
    | inl start =>
      cases run with
      | nil => contradiction
      | cons u run =>
        obtain ⟨same,start⟩ := List.cons_prefix_cons.mp start
        exact same ▸ both.1 run start

theorem asksTaken {x : K} {t : T} {rest : List T} [IsStrictOrderedRing K] :
    (1 ≤ x ∧ ∀ level ∈ refill.asks (some ⟨left x,t⟩) rest, 1 ≤ level) ↔
      0 ≤ x - 1 ∧ ∀ level ∈ refill.asks (some ⟨x - 1,t⟩) rest, 1 ≤ level := by
  rw [sub_nonneg]
  refine and_congr_right fun enough => ?_
  rw [leftEnough enough]

theorem fundedTaken {x : K} {t : T} {rest : List T} [IsStrictOrderedRing K] : Funded refill (x - 1) t rest ↔
    ∀ run, run <+: rest → ((t::run).length : K) ≤ x + refill.drift (t::run) := by
  refine forall₂_congr fun run _ => ?_
  rw [List.length_cons,Nat.cast_add,Nat.cast_one,sub_add_eq_add_sub,le_sub_iff_add_le]

variable [IsStrictOrderedRing K]

theorem asksFunded (y : K) (t : T) (times : List T) :
    (0 ≤ y ∧ ∀ x ∈ refill.asks (some ⟨y,t⟩) times, 1 ≤ x) ↔
      Funded refill y t times ∧ Covered refill times := by
  induction times generalizing y t with
  | nil =>
    have funded : Funded refill y t [] ↔ 0 ≤ y := by simp [Funded,Refill.drift]
    simp [funded,coveredNil,Refill.asks]
  | cons u rest ih =>
    have capped : Funded refill (min refill.burst (y + refill.gain t u) - 1) u rest ↔
        (∀ run, run <+: rest → ((u::run).length : K) ≤ refill.burst + refill.drift (u::run)) ∧
        ∀ run, run <+: rest → ((u::run).length : K) ≤ y + refill.drift (t::u::run) := by
      rw [fundedTaken,← forall₂_and]
      refine forall₂_congr fun run _ => ?_
      rw [← min_add_add_right,le_min_iff,Refill.drift,add_assoc]
    rw [Refill.asks,List.forall_mem_cons,asksTaken,ih,fundedCons,coveredCons]
    change 0 ≤ y ∧ Funded refill (min refill.burst (y + refill.gain t u) - 1) u rest ∧ _ ↔ _
    rw [capped]
    tauto

theorem asksCovered (times : List T) : (∀ x ∈ refill.asks none times, 1 ≤ x) ↔ Covered refill times := by
  cases times with
  | nil => exact iff_of_true (by simp [Refill.asks]) coveredNil
  | cons t rest =>
    rw [Refill.asks,List.forall_mem_cons,asksTaken,asksFunded,fundedTaken,coveredCons]
    rfl

theorem levelAsked {a b : Option (Bucket K T)} (less : ∀ t, refill.level a t ≤ refill.level b t) {t : T}
    (enough : 1 ≤ refill.level a t) (u : T) : refill.level (some ⟨left (refill.level a t),t⟩) u ≤
      refill.level (some ⟨left (refill.level b t),t⟩) u := by
  rw [leftEnough enough,leftEnough (enough.trans (less t))]
  exact min_le_min_left _ (add_le_add_left (sub_le_sub_right (less t) 1) _)

theorem driftForward [LinearOrder T] (steady : Steady refill clock) {run : List T}
    (ordered : run.Pairwise (· ≤ ·)) : 0 ≤ refill.drift run := by
  induction run with
  | nil => exact le_rfl
  | cons t rest ih =>
    obtain ⟨next,ordered⟩ := List.pairwise_cons.mp ordered
    cases rest with
    | nil => exact le_rfl
    | cons u rest => exact add_nonneg (steady.nonneg (next u (by simp))) (ih ordered)

theorem coveredForward [LinearOrder T] (steady : Steady refill clock) {times : List T}
    (few : (times.length : K) ≤ refill.burst) (ordered : times.Pairwise (· ≤ ·)) : Covered refill times := by
  intro run _ inside
  have short : (run.length : K) ≤ times.length := by exact_mod_cast inside.length_le
  have forward := driftForward steady (ordered.sublist inside.sublist)
  exact (short.trans few).trans (le_add_of_nonneg_right forward)

end Stretches

section Alike

/- Two records of the same keys: whenever one is asked from now on, the other has
as much for it. -/
def Alike (refill : Refill K T) (now : T) (a b : Key → Option (Bucket K T)) : Prop :=
  ∀ key t, now ≤ t → refill.level (a key) t = refill.level (b key) t

omit [IsStrictOrderedRing K] in
theorem alikeAsk [DecidableEq Key] {now : T} {a b : Key → Option (Bucket K T)} (alike : Alike refill now a b)
    {c : Call Key T} (later : now ≤ c.now) : (refill.ask c a).1 = (refill.ask c b).1 ∧
      Alike refill c.now (refill.ask c a).2 (refill.ask c b).2 := by
  have found : refill.level (a c.key) c.now = refill.level (b c.key) c.now := alike c.key c.now later
  refine ⟨found,fun key t after => ?_⟩
  by_cases mine : c.key = key
  · rw [afterAsked a mine,afterAsked b mine,← mine,found]
  · rw [afterOther a mine,afterOther b mine]
    exact alike key t (later.trans after)

theorem alikeForget (steady : Steady refill clock) {now : T} {a b : Key → Option (Bucket K T)}
    (alike : Alike refill now a b) {kept : Bucket K T → Bool}
    (full : ∀ b, kept b = false → refill.burst ≤ b.tokens + refill.gain b.since now) :
    Alike refill now (fun key => (a key).filter kept) b := by
  intro key t later
  refine Eq.trans ?_ (alike key t later)
  change refill.level ((a key).filter kept) t = _
  cases a key with
  | none => rfl
  | some b =>
    cases keep : kept b with
    | true => rw [Option.filter_some_pos keep]
    | false =>
      rw [Option.filter_some_neg keep,levelFull steady later (full b keep)]
      rfl

end Alike
end MoltenPour.TokenBucket
