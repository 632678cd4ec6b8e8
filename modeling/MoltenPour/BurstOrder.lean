import MoltenPour.MintLimit

/-! A full burst, in whatever order the calls took the lock. The clock was read before
it, and a reading older than the last takes tokens away. -/
namespace MoltenPour.BurstOrder
open Pour Runs TokenBucket MintLimit

def advance : List Time → ℤ
  | t::u::rest => (sub u t).nanos + advance (u::rest)
  | _ => 0

/- Over no stretch of the calls do their readings fall back by more than the tokens
it leaves of a full bucket are worth. -/
def InOrder (burst : ℤ) (every : Duration) (times : List Time) : Prop :=
  ∀ run, run ≠ [] → run <:+: times → 0 ≤ (burst - run.length) * every.nanos + advance run

theorem driftAdvance (burst : ℤ) (every : Duration) (run : List Time) :
    (refill burst every).drift run = advance run / every.nanos := by
  induction run with
  | nil => simp [Refill.drift,advance]
  | cons t rest ih =>
    cases rest with
    | nil => simp [Refill.drift,advance]
    | cons u rest =>
      rw [Refill.drift,advance,ih,Int.cast_add,add_div]
      rfl

theorem coveredInOrder {burst : ℤ} {every : Duration} (positive : 0 < every.nanos) (times : List Time) :
    Covered (refill burst every) times ↔ InOrder burst every times := by
  have rate : (0 : ℚ) < every.nanos := by exact_mod_cast positive
  refine forall₃_congr fun run _ _ => ?_
  have worth : (burst : ℚ) + advance run / every.nanos - run.length =
      ((burst - run.length) * every.nanos + advance run) / every.nanos := by
    field_simp
    ring
  rw [driftAdvance,← sub_nonneg]
  change 0 ≤ (burst : ℚ) + advance run / every.nanos - run.length ↔ _
  rw [worth,le_div_iff₀ rate,zero_mul]
  exact_mod_cast Iff.rfl

section Own
variable {l : Limiter} {key : String}

theorem levelSwept (l : Limiter) (key : String) (now : Time) :
    (refill l.burst l.every).level (lookups (sweep now l) key) now =
      (refill l.burst l.every).level (lookups l key) now := by
  unfold sweep
  split
  · change (refill l.burst l.every).level ((delete (idle l.burst l.every now) l.buckets).lookup key) now =
      (refill l.burst l.every).level (l.buckets.lookup key) now
    rw [lookupDelete]
    cases l.buckets.lookup key with
    | none => rfl
    | some b =>
      cases full : idle l.burst l.every now b with
      | false => rw [Option.filter_some_pos (by simp [full])]
      | true =>
        rw [Option.filter_some_neg (by simp [full])]
        exact (min_eq_left (of_decide_eq_true full)).symm
  · rfl

theorem serveOwn (l : Limiter) (key : String) (now : Time) :
    let x := (refill l.burst l.every).level (lookups l key) now
    (serve ⟨key,now⟩ l).1 = answer l.every x ∧ lookups (serve ⟨key,now⟩ l).2 key = some ⟨left x,now⟩ ∧
      (serve ⟨key,now⟩ l).2.burst = l.burst ∧ (serve ⟨key,now⟩ l).2.every = l.every := by
  intro x
  obtain ⟨sameBurst,sameEvery⟩ := sweepKeeps now l
  obtain ⟨answered,kept,burst,every⟩ := takeAsks key now (sweep now l)
  rw [sameBurst,sameEvery] at answered kept
  rw [Refill.ask,levelSwept] at answered
  refine ⟨answered,?_,burst.trans sameBurst,every.trans sameEvery⟩
  change lookups (take key now (sweep now l)).2 key = _
  rw [kept,afterAsked _ rfl,levelSwept]

theorem serveOther {c : Call String Time} (other : c.key ≠ key) :
    (lookups (serve c l).2 key = lookups l key ∨ lookups (serve c l).2 key = none) ∧
      (serve c l).2.burst = l.burst ∧ (serve c l).2.every = l.every := by
  obtain ⟨sameBurst,sameEvery⟩ := sweepKeeps c.now l
  obtain ⟨-,kept,burst,every⟩ := takeAsks c.key c.now (sweep c.now l)
  refine ⟨?_,burst.trans sameBurst,every.trans sameEvery⟩
  change lookups (take c.key c.now (sweep c.now l)).2 key = _ ∨ lookups (take c.key c.now (sweep c.now l)).2 key = _
  rw [kept,afterOther _ other]
  cases found : lookups (sweep c.now l) key with
  | none => exact .inr rfl
  | some b => exact .inl (sweptBucket found).1.symm

theorem ownAnswers (l : Limiter) (times : List Time) : answers serve l (times.map (Call.mk key)) =
    ((refill l.burst l.every).asks (lookups l key) times).map (answer l.every) := by
  induction times generalizing l with
  | nil => rfl
  | cons t rest ih =>
    obtain ⟨answered,kept,burst,every⟩ := serveOwn l key t
    rw [List.map_cons,answers,ih,answered,kept,burst,every]
    rfl

theorem betweenOthers (l : Limiter) {alone : Option bucket}
    (less : ∀ t, (refill l.burst l.every).level alone t ≤ (refill l.burst l.every).level (lookups l key) t)
    (calls : List (Call String Time))
    (enough : ∀ x ∈ (refill l.burst l.every).asks alone ((calls.filter fun c => c.key = key).map Call.now),
      1 ≤ x) : ∀ a ∈ heard key calls (answers serve l calls), a.ok = true := by
  induction calls generalizing l alone with
  | nil => simp [heard]
  | cons c rest ih =>
    rw [answers]
    by_cases mine : c.key = key
    · subst mine
      rw [List.filter_cons_of_pos (by simp),List.map_cons,Refill.asks,List.forall_mem_cons] at enough
      obtain ⟨answered,kept,burst,every⟩ := serveOwn l c.key c.now
      have now : (serve c l).1.ok = true := by
        rw [answered,answerOk]
        exact enough.1.trans (less c.now)
      have after := levelAsked less enough.1
      rw [← kept,← burst,← every] at after
      have later := enough.2
      rw [← burst,← every] at later
      rw [heardMine rfl,List.forall_mem_cons]
      exact ⟨now,ih (serve c l).2 after later⟩
    · rw [List.filter_cons_of_neg (by simpa using mine)] at enough
      obtain ⟨kept,burst,every⟩ := serveOther (l := l) mine
      rw [heardOther mine]
      have after : ∀ t, (refill l.burst l.every).level alone t ≤
          (refill l.burst l.every).level (lookups (serve c l).2 key) t := by
        intro t
        cases kept with
        | inl same => exact same ▸ less t
        | inr swept => exact swept ▸ levelMost ..
      rw [← burst,← every] at after enough
      exact ih (serve c l).2 after enough

end Own

theorem burstHonoured (l : Limiter) (positive : 0 < l.every.nanos) (key : String)
    (fresh : l.buckets.lookup key = none) (times : List Time) :
    ((∀ a ∈ answers serve l (times.map (Call.mk key)), a.ok = true) ↔ InOrder l.burst l.every times) ∧
    (InOrder l.burst l.every times → ∀ calls : List (Call String Time),
      (calls.filter fun c => c.key = key).map Call.now = times →
      ∀ a ∈ heard key calls (answers serve l calls), a.ok = true) := by
  have exact : (∀ x ∈ (refill l.burst l.every).asks none times, 1 ≤ x) ↔ InOrder l.burst l.every times :=
    (asksCovered times).trans (coveredInOrder positive times)
  have unseen : lookups l key = none := fresh
  refine ⟨?alone,fun ordered calls own => ?among⟩
  case alone =>
    rw [ownAnswers,unseen,← exact]
    simp only [List.forall_mem_map,answerOk]
  case among =>
    have covered := exact.mpr ordered
    rw [← own] at covered
    exact betweenOthers l (fun t => unseen ▸ le_rfl) calls covered

theorem inOrderForward {burst : ℤ} {every : Duration} (room : 1 ≤ burst) (positive : 0 < every.nanos)
    {times : List Time} (few : times.length ≤ burst) (ordered : times.Pairwise (· ≤ ·)) :
    InOrder burst every times := by
  have short : (times.length : ℚ) ≤ (refill burst every).burst := by
    change (times.length : ℚ) ≤ burst
    exact_mod_cast few
  exact (coveredInOrder positive times).mp (coveredForward (refillSteady room positive) short ordered)

section Deployed

instance (burst : ℤ) (every : Duration) (times : List Time) : Decidable (InOrder burst every times) :=
  decidable_of_iff (∀ run ∈ times.tails.flatMap List.inits, run ≠ [] →
      0 ≤ (burst - run.length) * every.nanos + advance run) <| by
    have stretches : ∀ run : List Time, run ∈ times.tails.flatMap List.inits ↔ run <:+: times := by
      intro run
      simp only [List.mem_flatMap,List.mem_tails,List.mem_inits]
      constructor
      · rintro ⟨last,closes,opens⟩
        exact opens.isInfix.trans closes.isInfix
      · rintro ⟨before,after,rfl⟩
        exact ⟨run ++ after,⟨before,(List.append_assoc ..).symm⟩,⟨after,rfl⟩⟩
    simp only [stretches]
    exact forall_congr' fun run => forall_comm

def volley : List (Call String Time) :=
  [⟨"a",⟨8⟩⟩,⟨"b",⟨0⟩⟩,⟨"a",⟨9⟩⟩,⟨"a",⟨8⟩⟩,⟨"b",⟨2⟩⟩,⟨"a",⟨9⟩⟩,⟨"b",⟨2⟩⟩,⟨"a",⟨9⟩⟩]

theorem volleyHonoured : (heard "a" volley (answers serve deployed volley)).all Answer.ok = true ∧
    (heard "b" volley (answers serve deployed volley)).all Answer.ok = true :=
  ⟨List.all_eq_true.mpr ((burstHonoured deployed (by decide) "a" rfl [⟨8⟩,⟨9⟩,⟨8⟩,⟨9⟩,⟨9⟩]).2
      (by decide) volley (by decide)),
    List.all_eq_true.mpr ((burstHonoured deployed (by decide) "b" rfl [⟨0⟩,⟨2⟩,⟨2⟩]).2
      (inOrderForward (by decide) (by decide) (by decide) (by decide)) volley (by decide))⟩

/- Five calls of one burst, of which the first to take the lock had read its clock a
nanosecond after the others: the fifth is refused. -/
theorem burstRefused : ¬ ∀ a ∈ answers serve deployed (([⟨1700000000000000001⟩,⟨1700000000000000000⟩,
    ⟨1700000000000000000⟩,⟨1700000000000000000⟩,⟨1700000000000000000⟩] : List Time).map (Call.mk "a")),
    a.ok = true := by
  decide +kernel

end Deployed
end MoltenPour.BurstOrder
