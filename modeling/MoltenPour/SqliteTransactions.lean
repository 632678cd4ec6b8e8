import MoltenPour.SqliteLedger

/-! sqliteStore.Append in its sub-steps, many at a time. A transaction reads and
writes its own view; BEGIN IMMEDIATE waits for the one write lock, a commit
publishes the view, and a rollback drops it. Any sub-step may be the last. -/
namespace MoltenPour.SqliteTransactions
open NumberFormat Pour KeyedLog Store Runs SqlTable SqliteLedger

abbrev Result (K : Type) := Except PourError (Record K × Bool)

inductive Phase (K : Type) where
  | idle
  | begun (view : Pours K)
  | missed (view : Pours K)
  | placed (view : Pours K) (position : ℕ)
  | minted (view : Pours K) (rec : Record K)
  | inserted (view : Pours K) (rec : Record K)
  | ended (result : Result K)

def Phase.open {K : Type} : Phase K → Bool
  | .idle | .ended _ => false
  | _ => true

structure Database (K : Type) where
  committed : Pours K
  writer : Option ℕ
  phase : ℕ → Phase K

namespace Database
variable {K : Type}

def empty : Database K := ⟨[],none,fun _ => .idle⟩

def advance (s : Database K) (i : ℕ) (phase : Phase K) : Database K :=
  { s with phase := Function.update s.phase i phase }

def finish (s : Database K) (i : ℕ) (result : Result K) : Database K :=
  { s.advance i (.ended result) with writer := if s.writer = some i then none else s.writer }

def publish (s : Database K) (view : Pours K) : Database K := { s with committed := view }

end Database

section Machine
variable {K : Type} [LinearOrder K] [Zero K] [Format K] (json : Codec) (calls : ℕ → Posted K)

inductive Step (s : Database K) (i : ℕ) : Database K → Prop where
  | begin (idle : s.phase i = .idle) (unlocked : s.writer = none) :
      Step s i { s.advance i (.begun s.committed) with writer := some i }
  | refusedBegin (idle : s.phase i = .idle) (context : String) :
      Step s i (s.finish i (.error (.failure context)))
  | replay {view existing} (begun : s.phase i = .begun view)
      (found : lookup json noFaults (calls i).key view = .ok (some existing)) :
      Step s i (s.finish i (if existing.tierIndex ≠ (calls i).key.tierIndex then .error .conflict
        else .ok (existing,true)))
  | miss {view} (begun : s.phase i = .begun view)
      (absent : lookup json noFaults (calls i).key view = .ok none) : Step s i (s.advance i (.missed view))
  | place {view position} (missed : s.phase i = .missed view)
      (next : nextPosition noFaults view = .ok position) : Step s i (s.advance i (.placed view position))
  | mint {view position rec} (placed : s.phase i = .placed view position)
      (made : (calls i).mint position = .ok rec) : Step s i (s.advance i (.minted view rec))
  | refuse {view position err} (placed : s.phase i = .placed view position)
      (failed : (calls i).mint position = .error err) : Step s i (s.finish i (.error err))
  | insert {view rec written} (minted : s.phase i = .minted view rec)
      (stored : insertPour json noFaults rec view = .ok written) :
      Step s i (s.advance i (.inserted written rec))
  | commit {view rec} (inserted : s.phase i = .inserted view rec) :
      Step s i ((s.publish view).finish i (.ok (rec,false)))
  | abort (running : (s.phase i).open = true) (context : String) :
      Step s i (s.finish i (.error (.failure context)))

def Knows (posted : Posted K) (log : List (Record K)) : Phase K → Prop
  | .idle | .ended _ => True
  | .begun view => view = rowsOf json log
  | .missed view => view = rowsOf json log ∧ ∀ r ∈ log, (startKeys K).key r ≠ posted.start
  | .placed view position => view = rowsOf json log ∧ (∀ r ∈ log, (startKeys K).key r ≠ posted.start) ∧
      position = log.length + 1
  | .minted view rec => view = rowsOf json log ∧ (∀ r ∈ log, (startKeys K).key r ≠ posted.start) ∧
      posted.mint (log.length + 1) = .ok rec
  | .inserted view rec => view = rowsOf json (log ++ [rec]) ∧
      (∀ r ∈ log, (startKeys K).key r ≠ posted.start) ∧ posted.mint (log.length + 1) = .ok rec

structure Serial (s : Database K) (log : List (Record K)) : Prop where
  holds : Holds json s.committed log
  locked : ∀ i, (s.phase i).open = true → s.writer = some i
  knows : ∀ i, Knows json (calls i) log (s.phase i)

end Machine

section Invariant
variable {K : Type} [LinearOrder K] [Zero K] [Format K] {json : Codec} {calls : ℕ → Posted K}

theorem serialEmpty : Serial json calls Database.empty [] :=
  ⟨⟨soundEmpty,rfl⟩,fun i running => absurd running (by simp [Database.empty,Phase.open]),fun _ => trivial⟩

theorem knowsClosed {posted : Posted K} {log : List (Record K)} {phase : Phase K}
    (closed : phase.open = false) : Knows json posted log phase := by
  cases phase with
  | idle => trivial
  | ended result => trivial
  | _ => simp [Phase.open] at closed

theorem serialAdvance {s : Database K} {log : List (Record K)} (serial : Serial json calls s log) {i : ℕ}
    {phase : Phase K} (locked : s.writer = some i) (knows : Knows json (calls i) log phase) :
    Serial json calls (s.advance i phase) log := by
  refine ⟨serial.holds,fun j running => ?_,fun j => ?_⟩
  · by_cases same : j = i
    · exact same ▸ locked
    · simp only [Database.advance,Function.update_of_ne same] at running
      exact serial.locked j running
  · by_cases same : j = i
    · subst same
      simpa [Database.advance] using knows
    · simpa [Database.advance,Function.update_of_ne same] using serial.knows j

theorem othersClosed {s : Database K} {log : List (Record K)} (serial : Serial json calls s log)
    {i : ℕ} (running : (s.phase i).open = true) {j : ℕ} (other : j ≠ i) :
    (s.phase j).open = false := by
  cases closed : (s.phase j).open with
  | false => rfl
  | true =>
    have both := (serial.locked j closed).symm.trans (serial.locked i running)
    exact absurd (Option.some.inj both) other

theorem serialFinish {s : Database K} {log : List (Record K)} (serial : Serial json calls s log)
    (i : ℕ) (result : Result K) : Serial json calls (s.finish i result) log := by
  refine ⟨serial.holds,fun j running => ?_,fun j => ?_⟩
  · by_cases same : j = i
    · subst same
      simp [Database.finish,Database.advance,Phase.open] at running
    · simp only [Database.finish,Database.advance,Function.update_of_ne same] at running ⊢
      have locked := serial.locked j running
      rw [locked,if_neg (fun mine => same (Option.some.inj mine))]
  · by_cases same : j = i
    · subst same
      simp [Database.finish,Database.advance,Knows]
    · simpa [Database.finish,Database.advance,Function.update_of_ne same] using serial.knows j

theorem serialCommit {s : Database K} {log log' : List (Record K)} (serial : Serial json calls s log)
    {i : ℕ} (running : (s.phase i).open = true) {view : Pours K} (holds : Holds json view log')
    (result : Result K) : Serial json calls ((s.publish view).finish i result) log' := by
  -- Everyone but the writer is outside a transaction, so what it publishes changes a table
  -- nobody else has read.
  have closed : ∀ j, (((s.publish view).finish i result).phase j).open = false := by
    intro j
    by_cases same : j = i
    · subst same
      simp [Database.finish,Database.advance,Phase.open]
    · simpa [Database.finish,Database.advance,Function.update_of_ne same,Database.publish] using
        othersClosed serial running same
  refine ⟨holds,fun j open_ => ?_,fun j => knowsClosed (closed j)⟩
  rw [closed j] at open_
  contradiction

theorem serialBegin {s : Database K} {log : List (Record K)} (serial : Serial json calls s log) {i : ℕ}
    (unlocked : s.writer = none) :
    Serial json calls { s.advance i (.begun s.committed) with writer := some i } log := by
  have closed : ∀ j, (s.phase j).open = false := by
    intro j
    cases running : (s.phase j).open with
    | false => rfl
    | true =>
      have locked := serial.locked j running
      rw [unlocked] at locked
      contradiction
  refine ⟨serial.holds,fun j running => ?_,fun j => ?_⟩
  · by_cases same : j = i
    · rw [same]
    · simp [Database.advance,Function.update_of_ne same,closed j] at running
  · by_cases same : j = i
    · subst same
      simpa [Database.advance,Knows] using serial.holds.2
    · simpa [Database.advance,Function.update_of_ne same] using knowsClosed (closed j)

inductive Progress (posted : Posted K) (log : List (Record K)) : List (Record K) → Prop where
  | same : Progress posted log log
  | fresh {rec} (done : append log posted.call = (.fresh rec,log ++ [rec])) :
      Progress posted log (log ++ [rec])

theorem serialStep {s t : Database K} {log : List (Record K)} (serial : Serial json calls s log) {i : ℕ}
    (now : Step json calls s i t) : ∃ log', Serial json calls t log' ∧ Progress (calls i) log log' := by
  have sound := serial.holds.1
  have knows := serial.knows i
  have running := serial.locked i
  cases now with
  | begin idle unlocked => exact ⟨log,serialBegin serial unlocked,.same⟩
  | refusedBegin idle context => exact ⟨log,serialFinish serial i _,.same⟩
  | replay begun found => exact ⟨log,serialFinish serial i _,.same⟩
  | miss begun absent =>
    rw [begun] at knows running
    obtain rfl : _ = rowsOf json log := knows
    rw [lookupStored json sound] at absent
    have free := holderFree.mp (Except.ok.inj absent)
    exact ⟨log,serialAdvance serial (running rfl) ⟨rfl,free⟩,.same⟩
  | place missed next =>
    rw [missed] at knows running
    obtain ⟨rfl,free⟩ := knows
    rw [positionNext json sound] at next
    cases next
    exact ⟨log,serialAdvance serial (running rfl) ⟨rfl,free,rfl⟩,.same⟩
  | mint placed made =>
    rw [placed] at knows running
    obtain ⟨rfl,free,rfl⟩ := knows
    exact ⟨log,serialAdvance serial (running rfl) ⟨rfl,free,made⟩,.same⟩
  | refuse placed failed => exact ⟨log,serialFinish serial i _,.same⟩
  | insert minted stored =>
    rw [minted] at knows running
    obtain ⟨rfl,free,made⟩ := knows
    rw [insertNext json sound free made] at stored
    cases stored
    exact ⟨log,serialAdvance serial (running rfl) ⟨rfl,free,made⟩,.same⟩
  | commit inserted =>
    rename_i view rec
    rw [inserted] at knows
    obtain ⟨rfl,free,made⟩ := knows
    have done : append log (calls i).call = (.fresh rec,log ++ [rec]) := appendFree free made
    have holds : Holds json (rowsOf json (log ++ [rec])) (log ++ [rec]) := ⟨soundAppend sound done,rfl⟩
    exact ⟨log ++ [rec],serialCommit serial (by rw [inserted]; rfl) holds _,.fresh done⟩
  | abort => exact ⟨log,serialFinish serial i _,.same⟩

theorem runSerial {s t : Database K} {events : List ℕ} {log : List (Record K)}
    (serial : Serial json calls s log) (run : Run (Step json calls) s events t) :
    ∃ log', Serial json calls t log' := by
  induction run with
  | rest => exact ⟨log,serial⟩
  | next before now ih =>
    obtain ⟨mid,serial⟩ := ih
    obtain ⟨log',serial,-⟩ := serialStep serial now
    exact ⟨log',serial⟩

omit [LinearOrder K] [Zero K] [Format K] in
theorem finishPhase (s : Database K) (i : ℕ) (result : Result K) :
    (s.finish i result).phase i = .ended result := by
  simp [Database.finish,Database.advance]

theorem endedStays {s t : Database K} {i j : ℕ} {result : Result K} (ended : s.phase i = .ended result)
    (now : Step json calls s j t) : t.phase i = .ended result := by
  by_cases same : j = i
  · subst same
    cases now with
    | abort running =>
      rw [ended] at running
      contradiction
    | begin earlier => cases earlier.symm.trans ended
    | refusedBegin earlier => cases earlier.symm.trans ended
    | replay earlier => cases earlier.symm.trans ended
    | miss earlier => cases earlier.symm.trans ended
    | place earlier => cases earlier.symm.trans ended
    | mint earlier => cases earlier.symm.trans ended
    | refuse earlier => cases earlier.symm.trans ended
    | insert earlier => cases earlier.symm.trans ended
    | commit earlier => cases earlier.symm.trans ended
  · have other : i ≠ j := Ne.symm same
    cases now <;> simpa [Database.finish,Database.advance,Database.publish,Function.update_of_ne other]

theorem endedForever {s t : Database K} {events : List ℕ} {i : ℕ} {result : Result K}
    (ended : s.phase i = .ended result) (run : Run (Step json calls) s events t) :
    t.phase i = .ended result :=
  run.invariant (fun s => s.phase i = .ended result) (fun ended now => endedStays ended now) ended

theorem onlyFreshWrites {s t : Database K} {i : ℕ} (now : Step json calls s i t) :
    t.committed = s.committed ∨ ∃ rec, t.phase i = .ended (.ok (rec,false)) := by
  cases now with
  | commit => exact .inr ⟨_,finishPhase ..⟩
  | _ => exact .inl rfl

omit [LinearOrder K] [Zero K] [Format K] in
theorem advancePhase (s : Database K) (i : ℕ) (phase : Phase K) : (s.advance i phase).phase i = phase := by
  simp [Database.advance]

structure Frees {K : Type} (s t : Database K) (i : ℕ) : Prop where
  writer : t.writer = none
  others : ∀ j, j ≠ i → t.phase j = s.phase j

omit [LinearOrder K] [Zero K] [Format K] in
theorem finishFrees {s t : Database K} {i : ℕ} (locked : t.writer = some i)
    (others : ∀ j, j ≠ i → t.phase j = s.phase j) (result : Result K) : Frees s (t.finish i result) i := by
  refine ⟨if_pos locked,fun j other => ?_⟩
  rw [← others j other]
  exact Function.update_of_ne other ..

theorem aloneAppends {s : Database K} {log : List (Record K)} (serial : Serial json calls s log) {i : ℕ}
    (idle : s.phase i = .idle) (unlocked : s.writer = none) :
    ∃ events t, Run (Step json calls) s events t ∧
      t.phase i = .ended (append json noFaults (calls i).key (calls i).mint s.committed).1 ∧
      t.committed = (append json noFaults (calls i).key (calls i).mint s.committed).2 ∧ Frees s t i := by
  obtain ⟨sound,committed⟩ := serial.holds
  have looked := lookupStored json sound (calls i).key
  have begun : Run (Step json calls) s [i] { s.advance i (.begun s.committed) with writer := some i } :=
    .single (.begin idle unlocked)
  have at_begin := advancePhase s i (.begun s.committed)
  rw [committed] at begun at_begin ⊢
  cases found : holder (startKeys K) log ((calls i).key.ownerId,(calls i).key.timestampMs) with
  | some existing =>
    rw [found] at looked
    refine ⟨_,_,begun.next (.replay at_begin looked),?_,?_,finishFrees rfl (fun j other => ?_) _⟩
    · rw [finishPhase,takenReplayed json _ _ sound found]
    · rw [takenReplayed json _ _ sound found]
      exact committed
    · simp [Database.advance,Function.update_of_ne other]
  | none =>
    rw [found] at looked
    have free := holderFree.mp found
    have missed := begun.next (.miss at_begin looked)
    have placed := missed.next (.place (advancePhase ..) (positionNext json sound))
    cases made : (calls i).mint (log.length + 1) with
    | error err =>
      have whole : append json noFaults (calls i).key (calls i).mint (rowsOf json log) =
          (.error err,rowsOf json log) := by
        simp [SqliteLedger.append,noFaults,looked,positionNext json sound,made]
      refine ⟨_,_,placed.next (.refuse (advancePhase ..) made),?_,?_,finishFrees rfl (fun j other => ?_) _⟩
      · rw [finishPhase,whole]
      · rw [whole]
        exact committed
      · simp [Database.advance,Function.update_of_ne other]
    | ok rec =>
      have stored := insertNext json sound free made
      have whole : append json noFaults (calls i).key (calls i).mint (rowsOf json log) =
          (.ok (rec,false),rowsOf json (log ++ [rec])) := by
        simp [SqliteLedger.append,noFaults,looked,positionNext json sound,made,stored]
      have minted := placed.next (.mint (advancePhase ..) made)
      have inserted := minted.next (.insert (advancePhase ..) stored)
      refine ⟨_,_,inserted.next (.commit (advancePhase ..)),?_,?_,finishFrees rfl (fun j other => ?_) _⟩
      · rw [finishPhase,whole]
      · rw [whole]
        rfl
      · simp [Database.advance,Database.publish,Function.update_of_ne other]

end Invariant
end MoltenPour.SqliteTransactions
