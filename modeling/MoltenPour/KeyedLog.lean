import MoltenPour.Runs
import Mathlib.Data.List.Range

/-! An append-only log in which every key owns at most one place. A call under
a key that is taken gets the entry back, or a conflict when the tags differ;
only a call under a free key makes an entry, and a failed one leaves no trace. -/
namespace MoltenPour.KeyedLog
open Runs

structure Keys (Key Tag Entry : Type) where
  key : Entry → Key
  tag : Entry → Tag
  place : Entry → ℕ

variable {Key Tag Entry Error : Type} {keys : Keys Key Tag Entry}

structure Call (keys : Keys Key Tag Entry) (Error : Type) where
  key : Key
  tag : Tag
  make : ℕ → Except Error Entry
  honest : ∀ {n e}, make n = .ok e → keys.key e = key ∧ keys.tag e = tag ∧ keys.place e = n

inductive Outcome (Entry Error : Type) where
  | fresh (entry : Entry)
  | replay (entry : Entry)
  | conflict
  | refused (error : Error)

section Append
variable [DecidableEq Key] [DecidableEq Tag]

def holder (keys : Keys Key Tag Entry) (log : List Entry) (k : Key) : Option Entry :=
  log.find? fun e => keys.key e = k

def append (log : List Entry) (call : Call keys Error) : Outcome Entry Error × List Entry :=
  match holder keys log call.key with
  | some e => (if keys.tag e = call.tag then .replay e else .conflict,log)
  | none =>
      match call.make (log.length + 1) with
      | .error x => (.refused x,log)
      | .ok e => (.fresh e,log ++ [e])

structure Kept (keys : Keys Key Tag Entry) (log : List Entry) : Prop where
  places : log.map keys.place = List.range' 1 log.length
  distinct : (log.map keys.key).Nodup

omit [DecidableEq Key] [DecidableEq Tag] in
theorem keptEmpty : Kept keys [] := ⟨rfl,List.nodup_nil⟩

omit [DecidableEq Key] [DecidableEq Tag] in
theorem keptUnique {log : List Entry} (kept : Kept keys log) {a b : Entry} (left : a ∈ log)
    (right : b ∈ log) (same : keys.key a = keys.key b) : a = b :=
  List.inj_on_of_nodup_map kept.distinct left right same

omit [DecidableEq Key] [DecidableEq Tag] in
theorem placesDistinct {log : List Entry} (kept : Kept keys log) : (log.map keys.place).Nodup := by
  rw [kept.places]
  exact List.nodup_range'

omit [DecidableEq Key] [DecidableEq Tag] in
theorem placesIncrease {log : List Entry} (kept : Kept keys log) :
    log.Pairwise (fun a b => keys.place a < keys.place b) := by
  have sorted : (log.map keys.place).Pairwise (· < ·) := by
    rw [kept.places]
    exact List.pairwise_lt_range'
  exact List.pairwise_map.mp sorted

omit [DecidableEq Tag] in
theorem holderFree {log : List Entry} {k : Key} :
    holder keys log k = none ↔ ∀ e ∈ log, keys.key e ≠ k := by
  simp [holder]

omit [DecidableEq Tag] in
theorem holderSound {log : List Entry} {k : Key} {e : Entry} (found : holder keys log k = some e) :
    e ∈ log ∧ keys.key e = k :=
  ⟨List.mem_of_find?_eq_some found,by simpa using List.find?_some found⟩

omit [DecidableEq Tag] in
theorem holderStored {log : List Entry} (kept : Kept keys log) {e : Entry} (mem : e ∈ log) :
    holder keys log (keys.key e) = some e := by
  cases found : holder keys log (keys.key e) with
  | none => exact absurd rfl (holderFree.mp found e mem)
  | some f =>
    obtain ⟨stored,same⟩ := holderSound found
    rw [keptUnique kept stored mem same]

omit [DecidableEq Key] [DecidableEq Tag] in
theorem keptAppend {log : List Entry} (kept : Kept keys log) {e : Entry}
    (place : keys.place e = log.length + 1) (free : ∀ f ∈ log, keys.key f ≠ keys.key e) :
    Kept keys (log ++ [e]) := by
  refine ⟨?places,?distinct⟩
  case places =>
    rw [List.map_append,kept.places,List.length_append,List.length_singleton,List.range'_concat]
    simp [place,add_comm]
  case distinct =>
    rw [List.map_append,List.nodup_append]
    refine ⟨kept.distinct,List.nodup_singleton _,?_⟩
    intro k mem l last
    obtain ⟨f,stored,rfl⟩ := List.mem_map.mp mem
    rw [List.map_singleton,List.mem_singleton] at last
    exact last ▸ free f stored

omit [DecidableEq Tag] in
theorem holderAppend {log : List Entry} {e : Entry} (free : ∀ f ∈ log, keys.key f ≠ keys.key e) :
    holder keys (log ++ [e]) = Function.update (holder keys log) (keys.key e) (some e) := by
  funext k
  unfold holder
  rw [List.find?_append]
  by_cases here : k = keys.key e
  · subst here
    have absent := holderFree.mpr free
    unfold holder at absent
    simp [absent]
  · simp [Function.update_of_ne here,Ne.symm here]

omit [DecidableEq Tag] in
theorem holderFilter {log : List Entry} (kept : Kept keys log) (k : Key) (p : Entry → Prop)
    [DecidablePred p] :
    (log.find? fun e => keys.key e = k ∧ p e) = (holder keys log k).filter p := by
  cases found : holder keys log k with
  | none =>
    have free := holderFree.mp found
    simpa using fun e mem same => absurd same (free e mem)
  | some e =>
    obtain ⟨stored,rfl⟩ := holderSound found
    have only : ∀ f ∈ log, keys.key f = keys.key e → f = e :=
      fun f mem same => keptUnique kept mem stored same
    by_cases good : p e
    · rw [Option.filter_some_pos (by simpa using good)]
      obtain ⟨f,first⟩ : ∃ f, (log.find? fun f => keys.key f = keys.key e ∧ p f) = some f :=
        Option.isSome_iff_exists.mp (List.find?_isSome.mpr ⟨e,stored,by simpa using good⟩)
      have same : keys.key f = keys.key e ∧ p f := by simpa using List.find?_some first
      rw [first,only f (List.mem_of_find?_eq_some first) same.1]
    · rw [Option.filter_some_neg (by simpa using good)]
      refine List.find?_eq_none.mpr fun f mem => ?_
      simpa using fun same => only f mem same ▸ good

omit [DecidableEq Key] [DecidableEq Tag] in
theorem nodupThrough {A : Type} {log : List Entry} (kept : Kept keys log) (f : Entry → A)
    (fixed : ∀ a ∈ log, ∀ b ∈ log, f a = f b → keys.place a = keys.place b) : (log.map f).Nodup := by
  refine List.Nodup.map_on ?_ (List.Nodup.of_map _ (placesDistinct kept))
  intro a ha b hb same
  exact List.inj_on_of_nodup_map (placesDistinct kept) ha hb (fixed a ha b hb same)

inductive Appended (log : List Entry) (call : Call keys Error) :
    Outcome Entry Error → List Entry → Prop where
  | fresh {e} (free : ∀ f ∈ log, keys.key f ≠ call.key) (made : call.make (log.length + 1) = .ok e) :
      Appended log call (.fresh e) (log ++ [e])
  | replay {e} (stored : e ∈ log) (key : keys.key e = call.key) (tag : keys.tag e = call.tag) :
      Appended log call (.replay e) log
  | conflict {e} (stored : e ∈ log) (key : keys.key e = call.key) (tag : keys.tag e ≠ call.tag) :
      Appended log call .conflict log
  | refused {x} (free : ∀ f ∈ log, keys.key f ≠ call.key) (failed : call.make (log.length + 1) = .error x) :
      Appended log call (.refused x) log

theorem appendCases {log log' : List Entry} {call : Call keys Error} {outcome : Outcome Entry Error}
    (done : append log call = (outcome,log')) : Appended log call outcome log' := by
  unfold append at done
  cases found : holder keys log call.key with
  | some e =>
    obtain ⟨stored,key⟩ := holderSound found
    simp only [found] at done
    by_cases tag : keys.tag e = call.tag
    · rw [if_pos tag] at done
      cases done
      exact .replay stored key tag
    · rw [if_neg tag] at done
      cases done
      exact .conflict stored key tag
  | none =>
    have free := holderFree.mp found
    simp only [found] at done
    cases made : call.make (log.length + 1) with
    | error x =>
      simp only [made] at done
      cases done
      exact .refused free made
    | ok e =>
      simp only [made] at done
      cases done
      exact .fresh free made

theorem appendFree {log : List Entry} {call : Call keys Error} (free : ∀ f ∈ log, keys.key f ≠ call.key)
    {e : Entry} (made : call.make (log.length + 1) = .ok e) :
    append log call = (.fresh e,log ++ [e]) := by
  unfold append
  rw [holderFree.mpr free,made]

theorem appendRefused {log : List Entry} {call : Call keys Error}
    (free : ∀ f ∈ log, keys.key f ≠ call.key) {x : Error} (failed : call.make (log.length + 1) = .error x) :
    append log call = (.refused x,log) := by
  unfold append
  rw [holderFree.mpr free,failed]

theorem appendKept {log log' : List Entry} (kept : Kept keys log) {call : Call keys Error}
    {outcome : Outcome Entry Error} (done : append log call = (outcome,log')) : Kept keys log' := by
  cases appendCases done with
  | fresh free made =>
    obtain ⟨key,-,place⟩ := call.honest made
    exact keptAppend kept place (fun f mem => key ▸ free f mem)
  | replay => exact kept
  | conflict => exact kept
  | refused => exact kept

/- A call is served, or fails outside the log's control and changes nothing. -/
inductive Served : List Entry → Call keys Error × Outcome Entry Error → List Entry → Prop where
  | served {log log' call outcome} (done : append log call = (outcome,log')) :
      Served log (call,outcome) log'
  | failed (log call x) : Served log (call,.refused x) log

theorem servedKept {log log' : List Entry} {event : Call keys Error × Outcome Entry Error}
    (kept : Kept keys log) (now : Served log event log') : Kept keys log' := by
  cases now with
  | served done => exact appendKept kept done
  | failed => exact kept

theorem servedGrows {log log' : List Entry} {event : Call keys Error × Outcome Entry Error}
    (now : Served log event log') : log <+: log' := by
  cases now with
  | served done =>
    cases appendCases done with
    | fresh => exact List.prefix_append ..
    | replay => exact List.prefix_rfl
    | conflict => exact List.prefix_rfl
    | refused => exact List.prefix_rfl
  | failed => exact List.prefix_rfl

abbrev History (keys : Keys Key Tag Entry) (Error : Type) :=
  List (Call keys Error × Outcome Entry Error)

theorem runKept {log log' : List Entry} {history : History keys Error} (kept : Kept keys log)
    (run : Run Served log history log') : Kept keys log' :=
  run.invariant (Kept keys) (fun kept now => servedKept kept now) kept

def freshAt (k : Key) : Call keys Error × Outcome Entry Error → Bool
  | (call,.fresh _) => call.key = k
  | _ => false

theorem servedCount {log log' : List Entry} {event : Call keys Error × Outcome Entry Error}
    (now : Served log event log') (k : Key) :
    (log'.map keys.key).count k = (log.map keys.key).count k + [event].countP (freshAt k) := by
  cases now with
  | served done =>
    cases appendCases done with
    | fresh free made =>
      rename_i call e
      obtain ⟨key,-,-⟩ := call.honest made
      simp [freshAt,key,List.count_singleton,List.countP_cons]
    | replay => rfl
    | conflict => rfl
    | refused => rfl
  | failed => rfl

theorem runCount {log log' : List Entry} {history : History keys Error}
    (run : Run Served log history log') (k : Key) :
    (log'.map keys.key).count k = (log.map keys.key).count k + history.countP (freshAt k) := by
  induction run with
  | rest => rfl
  | next before now ih =>
    rw [List.countP_append,servedCount now,ih]
    omega

theorem runFreshStored {log log' : List Entry} {history : History keys Error}
    (run : Run Served log history log') {call : Call keys Error} {e : Entry}
    (mem : (call,Outcome.fresh e) ∈ history) : e ∈ log' ∧ keys.key e = call.key := by
  induction run with
  | rest => contradiction
  | @next events log event log' before now ih =>
    cases List.mem_append.mp mem with
    | inl earlier =>
      obtain ⟨stored,key⟩ := ih earlier
      exact ⟨(servedGrows now).subset stored,key⟩
    | inr last =>
      rw [List.mem_singleton] at last
      subst last
      cases now with
      | served done =>
        cases appendCases done with
        | fresh free made => exact ⟨by simp,(call.honest made).1⟩

theorem freshOnce {log : List Entry} {history : History keys Error} (run : Run Served [] history log)
    {call : Call keys Error} {e : Entry} (mem : (call,Outcome.fresh e) ∈ history) :
    history.countP (freshAt call.key) = 1 := by
  obtain ⟨stored,key⟩ := runFreshStored run mem
  have kept := runKept keptEmpty run
  have counted := runCount run call.key
  have once := List.count_eq_one_of_mem kept.distinct
    (key ▸ List.mem_map_of_mem stored : call.key ∈ log.map keys.key)
  simp only [List.map_nil,List.count_nil] at counted
  omega

theorem stillFree {log log' : List Entry} {history : History keys Error}
    (run : Run Served log history log') {k : Key} (free : ∀ e ∈ log, keys.key e ≠ k)
    (none : history.countP (freshAt k) = 0) : ∀ e ∈ log', keys.key e ≠ k := by
  intro e stored same
  have counted := runCount run k
  have before : (log.map keys.key).count k = 0 :=
    List.count_eq_zero.mpr (fun mem => by
      obtain ⟨f,old,key⟩ := List.mem_map.mp mem
      exact free f old key)
  have after := List.count_pos_iff.mpr (same ▸ List.mem_map_of_mem stored : k ∈ log'.map keys.key)
  omega

end Append
end MoltenPour.KeyedLog
