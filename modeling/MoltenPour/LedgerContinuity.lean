import MoltenPour.MemoryLedger
import MoltenPour.SqliteTransactions
import MoltenPour.BinaryFormat

/-! No gap, no repeat: what holds of the register in every reachable state of
either store, and what a call that minted nothing leaves behind. -/
namespace MoltenPour.LedgerContinuity
open NumberFormat BinaryFormat Pour KeyedLog Store Runs SqlTable MemoryLedger SqliteLedger SqliteTransactions
variable {K : Type} [LinearOrder K] [Zero K] [Format K]

structure Continuous (records : List (Record K)) : Prop where
  positions : records.map Record.ledgerPosition = List.range' 1 records.length
  ids : (records.map Record.id).Nodup
  serials : (records.map Record.serial).Nodup
  starts : (records.map fun r => (r.ownerId,r.timestampMs)).Nodup

omit [Format K] in
theorem soundContinuous {records : List (Record K)} (sound : Sound records) : Continuous records :=
  ⟨sound.kept.places,idsDistinct sound,serialsDistinct sound,sound.kept.distinct⟩

def minted : Result K → Bool
  | .ok (_,replayed) => !replayed
  | .error _ => false

/- The mutex is held for the whole of an Append, so a call is one step. -/
def appendStep (s : MemoryStore K) (event : Posted K × Result K) (t : MemoryStore K) : Prop :=
  MemoryLedger.append event.1.key event.1.mint s = (event.2,t)

theorem appendIndexes {s t : MemoryStore K} {event : Posted K × Result K}
    (indexed : ∃ log, Indexes s log) (now : appendStep s event t) : ∃ log, Indexes t log := by
  obtain ⟨log,indexes⟩ := indexed
  have next := (appendLedger indexes event.1).2
  have done : (memory.serve noFaults (.append event.1) s).2 = t := congrArg Prod.snd now
  exact ⟨_,done ▸ next⟩

theorem appendUntouched {s t : MemoryStore K} {event : Posted K × Result K} (now : appendStep s event t)
    (nothing : minted event.2 = false) : t = s := by
  obtain ⟨posted,result⟩ := event
  unfold appendStep MemoryLedger.append at now
  dsimp only at now nothing
  split at now
  · split at now <;> exact (congrArg Prod.snd now).symm
  · split at now
    · exact (congrArg Prod.snd now).symm
    · cases now
      simp [minted] at nothing

theorem sqliteContinuous {json : Codec} {calls : ℕ → Posted K} {s : Database K} {log : List (Record K)}
    (serial : Serial json calls s log) :
    ∃ records, s.committed.mapM (scanRow json) = some records ∧ Continuous records := by
  obtain ⟨sound,committed⟩ := serial.holds
  refine ⟨log,?_,soundContinuous sound⟩
  rw [committed]
  exact scanAll json sound.certified

theorem sqliteUntouched {json : Codec} {calls : ℕ → Posted K} {s t u : Database K} {i : ℕ}
    {after : List ℕ} {result : Result K} (now : Step json calls s i t)
    (later : Run (Step json calls) t after u) (ended : u.phase i = .ended result)
    (nothing : minted result = false) : t.committed = s.committed := by
  cases onlyFreshWrites now with
  | inl same => exact same
  | inr fresh =>
    obtain ⟨rec,fresh⟩ := fresh
    cases ended.symm.trans (endedForever fresh later)
    contradiction

theorem ledgerContinuity :
    (∀ (events : List (Posted K × Result K)) (s : MemoryStore K),
      Run appendStep newMemoryStore events s →
        Continuous s.records ∧
        ∀ event t, appendStep s event t → minted event.2 = false → t = s) ∧
    ∀ (json : Codec) (calls : ℕ → Posted K) (events : List ℕ) (s : Database K),
      Run (Step json calls) Database.empty events s →
        (∃ records, s.committed.mapM (scanRow json) = some records ∧ Continuous records) ∧
        ∀ i result, s.phase i = .ended result → minted result = false →
          ∀ before after s₁ s₂, events = before ++ i :: after →
            Run (Step json calls) Database.empty before s₁ → Step json calls s₁ i s₂ →
            Run (Step json calls) s₂ after s → s₂.committed = s₁.committed := by
  constructor
  · intro events s run
    obtain ⟨log,indexes⟩ := run.invariant (fun s => ∃ log, Indexes s log)
      (fun indexed now => appendIndexes indexed now) ⟨[],indexesEmpty⟩
    refine ⟨?_,fun event t now nothing => appendUntouched now nothing⟩
    rw [indexes.records]
    exact soundContinuous indexes.sound
  · intro json calls events s run
    obtain ⟨log,serial⟩ := runSerial serialEmpty run
    refine ⟨sqliteContinuous serial,?_⟩
    intro i result ended nothing before after s₁ s₂ _ _ now later
    exact sqliteUntouched now later ended nothing

def onePour : Posted (Rounded 53) := ⟨"visitor",⟨0,1000,⟨0,0,0,0⟩⟩,⟨1000000000⟩⟩

def callers (i : ℕ) : Posted (Rounded 53) := if i = 1 then { onePour with ownerId := "stranger" } else onePour

def servedTo (i : ℕ) (s : MemoryStore (Rounded 53)) : Result (Rounded 53) × MemoryStore (Rounded 53) :=
  MemoryLedger.append (callers i).key (callers i).mint s

theorem servedStep (i : ℕ) (s : MemoryStore (Rounded 53)) :
    appendStep s (callers i,(servedTo i s).1) (servedTo i s).2 := Prod.ext rfl rfl

def twoServed : MemoryStore (Rounded 53) := (servedTo 1 (servedTo 0 newMemoryStore).2).2

theorem ledgerContinuityOnce :
    (Continuous twoServed.records ∧ twoServed.records.length = 2 ∧ (servedTo 2 twoServed).2 = twoServed) ∧
    ∃ events s result, Run (Step encodingJson callers) Database.empty events s ∧
      s.phase 2 = .ended result ∧ minted result = false ∧
      (∃ records, s.committed.mapM (scanRow encodingJson) = some records ∧ Continuous records) ∧
      ∀ before after s₁ s₂, events = before ++ 2 :: after →
        Run (Step encodingJson callers) Database.empty before s₁ → Step encodingJson callers s₁ 2 s₂ →
        Run (Step encodingJson callers) s₂ after s → s₂.committed = s₁.committed := by
  constructor
  · have run : Run appendStep newMemoryStore _ twoServed :=
      (Run.single (servedStep 0 newMemoryStore)).next (servedStep 1 _)
    obtain ⟨continuous,kept⟩ := ledgerContinuity.1 _ _ run
    exact ⟨continuous,by decide +kernel,kept _ _ (servedStep 2 _) (by decide +kernel)⟩
  · have empty : Serial encodingJson callers Database.empty [] := serialEmpty
    obtain ⟨first,s₁,run,-,committed,frees⟩ := @aloneAppends _ _ _ _ _ _ _ _ empty 0 rfl rfl
    obtain ⟨log,serial⟩ := runSerial empty run
    obtain ⟨second,s₂,run',-,committed',frees'⟩ := aloneAppends serial (frees.others 1 (by decide)) frees.writer
    obtain ⟨log',serial'⟩ := runSerial serial run'
    have idle : s₂.phase 2 = .idle := (frees'.others 2 (by decide)).trans (frees.others 2 (by decide))
    obtain ⟨third,s₃,run'',ended,-⟩ := aloneAppends serial' idle frees'.writer
    have whole := (run.join run').join run''
    rw [committed',committed] at ended
    have nothing : minted (SqliteLedger.append encodingJson noFaults (callers 2).key (callers 2).mint
        (SqliteLedger.append encodingJson noFaults (callers 1).key (callers 1).mint
          (SqliteLedger.append encodingJson noFaults (callers 0).key (callers 0).mint []).2).2).1 = false := by
      decide +kernel
    obtain ⟨records,untouched⟩ := ledgerContinuity.2 encodingJson callers _ s₃ whole
    exact ⟨_,s₃,_,whole,ended,nothing,records,untouched 2 _ ended nothing⟩

end MoltenPour.LedgerContinuity
