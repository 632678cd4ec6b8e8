import Mathlib.Tactic

/-! Finite runs of a labelled transition system, read from the last step back. -/
namespace MoltenPour.Runs
variable {S T E F : Type}

inductive Run (step : S → E → S → Prop) (start : S) : List E → S → Prop where
  | rest : Run step start [] start
  | next {events s event t} (before : Run step start events s) (now : step s event t) :
      Run step start (events ++ [event]) t

theorem Run.join {step : S → E → S → Prop} {s t u events more}
    (first : Run step s events t) (second : Run step t more u) : Run step s (events ++ more) u := by
  induction second with
  | rest => simpa using first
  | next before now ih =>
    rw [← List.append_assoc]
    exact .next ih now

theorem Run.split {step : S → E → S → Prop} {s u events more}
    (run : Run step s (events ++ more) u) : ∃ t, Run step s events t ∧ Run step t more u := by
  generalize whole : events ++ more = all at run
  induction run generalizing more with
  | rest =>
    obtain ⟨rfl,rfl⟩ := List.append_eq_nil_iff.mp whole
    exact ⟨s,.rest,.rest⟩
  | @next before t event u prior now ih =>
    cases more.eq_nil_or_concat with
    | inl none =>
      subst none
      rw [List.append_nil] at whole
      subst whole
      exact ⟨u,.next prior now,.rest⟩
    | inr last =>
      obtain ⟨rest,last,rfl⟩ := last
      rw [List.concat_eq_append,← List.append_assoc] at whole
      obtain ⟨same,single⟩ := List.append_inj' whole rfl
      cases single
      obtain ⟨mid,left,right⟩ := ih same
      rw [List.concat_eq_append]
      exact ⟨mid,left,.next right now⟩

theorem Run.single {step : S → E → S → Prop} {s t event} (now : step s event t) :
    Run step s [event] t := .next .rest now

theorem Run.ofSingle {step : S → E → S → Prop} {s t event} (run : Run step s [event] t) :
    step s event t := by
  generalize whole : [event] = all at run
  cases run with
  | rest => contradiction
  | @next events mid _ _ before now =>
    have short : events = [] := by
      have := congrArg List.length whole
      simpa using this
    subst short
    cases whole
    generalize none : ([] : List E) = empty at before
    cases before with
    | rest => exact now
    | next => exact absurd none (by simp)

theorem Run.invariant {step : S → E → S → Prop} {s t events} (holds : S → Prop)
    (kept : ∀ {s event t}, holds s → step s event t → holds t)
    (start : holds s) (run : Run step s events t) : holds t := by
  induction run with
  | rest => exact start
  | next before now ih => exact kept ih now

theorem Run.simulate {step : S → E → S → Prop} {spec : T → F → T → Prop} {agrees : S → T → Prop}
    {label : E → List F} {s t a events}
    (forward : ∀ {s event t a}, agrees s a → step s event t →
      ∃ b, Run spec a (label event) b ∧ agrees t b)
    (start : agrees s a) (run : Run step s events t) :
    ∃ b, Run spec a (events.flatMap label) b ∧ agrees t b := by
  induction run with
  | rest => exact ⟨a,.rest,start⟩
  | next before now ih =>
    obtain ⟨mid,prior,agreed⟩ := ih
    obtain ⟨last,more,agreed⟩ := forward agreed now
    exact ⟨last,by simpa using prior.join more,agreed⟩

def answers {I O : Type} (serve : I → S → O × S) : S → List I → List O
  | _,[] => []
  | s,input::rest => (serve input s).1::answers serve (serve input s).2 rest

def reached {I O : Type} (serve : I → S → O × S) (s : S) (inputs : List I) : S :=
  inputs.foldl (fun s input => (serve input s).2) s

theorem reachedJoin {I O : Type} (serve : I → S → O × S) (s : S) (inputs more : List I) :
    reached serve s (inputs ++ more) = reached serve (reached serve s inputs) more := List.foldl_append ..

theorem answersNext {I O : Type} (serve : I → S → O × S) (s : S) (inputs : List I) (input : I) :
    answers serve s (inputs ++ [input]) =
      answers serve s inputs ++ [(serve input (reached serve s inputs)).1] := by
  induction inputs generalizing s with
  | nil => rfl
  | cons first rest ih => exact congrArg ((serve first s).1::·) (ih (serve first s).2)

theorem answersLength {I O : Type} (serve : I → S → O × S) (s : S) (inputs : List I) :
    (answers serve s inputs).length = inputs.length := by
  induction inputs generalizing s with
  | nil => rfl
  | cons first rest ih => exact congrArg Nat.succ (ih (serve first s).2)

theorem answersEqual {I O : Type} {serve : I → S → O × S} {spec : I → T → O × T}
    {agrees : S → T → Prop}
    (forward : ∀ {i s a}, agrees s a → (serve i s).1 = (spec i a).1 ∧
      agrees (serve i s).2 (spec i a).2)
    (inputs : List I) {s : S} {a : T} (start : agrees s a) :
    answers serve s inputs = answers spec a inputs := by
  induction inputs generalizing s a with
  | nil => rfl
  | cons input rest ih =>
    obtain ⟨same,next⟩ := forward (i := input) start
    rw [answers,answers,same,ih next]

theorem answersAll {I O : Type} {serve : I → S → O × S} {holds : S → Prop} {good : O → Prop}
    (kept : ∀ {i s}, holds s → good (serve i s).1 ∧ holds (serve i s).2)
    (inputs : List I) {s : S} (start : holds s) : ∀ o ∈ answers serve s inputs, good o := by
  induction inputs generalizing s with
  | nil => simp [answers]
  | cons input rest ih =>
    obtain ⟨now,next⟩ := kept (i := input) start
    intro o mem
    cases List.mem_cons.mp mem with
    | inl here => exact here ▸ now
    | inr later => exact ih next o later

/- What holds in every state of a run, when a condition on the steps is exact for it. -/
theorem alwaysIff {step : S → E → S} {start : S} (kept holds : S → Prop) (meets : S → E → Prop)
    (next : ∀ {s e}, kept s → kept (step s e))
    (exact : ∀ {s e}, kept s → holds s → (holds (step s e) ↔ meets s e))
    (first : kept start) (good : holds start) (events : List E) :
    (∀ seen rest, events = seen ++ rest → holds (seen.foldl step start)) ↔
    ∀ seen event rest, events = seen ++ event::rest → meets (seen.foldl step start) event := by
  have always : ∀ seen : List E, kept (seen.foldl step start) := by
    intro seen
    induction seen using List.reverseRecOn with
    | nil => exact first
    | append_singleton seen event ih =>
      rw [List.foldl_append]
      exact next ih
  constructor
  · intro all seen event rest whole
    have here := all seen (event::rest) whole
    have after := all (seen ++ [event]) rest (by simp [whole])
    rw [List.foldl_append] at after
    exact (exact (always seen) here).mp after
  · intro all seen
    induction seen using List.reverseRecOn with
    | nil => exact fun _ _ => good
    | append_singleton seen event ih =>
      intro rest whole
      have split : events = seen ++ event::rest := by simp [whole]
      rw [List.foldl_append]
      exact (exact (always seen) (ih _ split)).mpr (all seen event rest split)

theorem arisen {step : S → E → S} (holds : S → Prop) {start : S} {events : List E}
    (last : holds (events.foldl step start)) : holds start ∨
    ∃ seen event rest, events = seen ++ event::rest ∧ ¬ holds (seen.foldl step start) ∧
      holds (step (seen.foldl step start) event) := by
  induction events using List.reverseRecOn with
  | nil => exact .inl last
  | append_singleton before event ih =>
    by_cases earlier : holds (before.foldl step start)
    · obtain first | ⟨seen,at',rest,whole,fresh,now⟩ := ih earlier
      · exact .inl first
      · exact .inr ⟨seen,at',rest ++ [event],by simp [whole],fresh,now⟩
    · rw [List.foldl_append] at last
      exact .inr ⟨before,event,[],rfl,earlier,last⟩

end MoltenPour.Runs
