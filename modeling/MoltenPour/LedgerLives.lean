import MoltenPour.LedgerFile
import MoltenPour.LedgerContinuity
import MoltenPour.LedgerDurability

/-! One ledger file and the servers that open it in turn. A server can die between
any two sub-steps of its calls, or after a commit and before the call returns; what
it had not committed is not in the file the next one opens. -/
namespace MoltenPour.LedgerLives
open NumberFormat BinaryFormat Pour KeyedLog Store Runs SqlTable SqliteLedger SqliteTransactions LedgerFile
open LedgerContinuity (Continuous soundContinuous onePour)

structure Server (K : Type) where
  calls : ℕ → Posted K
  database : Database K

structure World (K : Type) where
  file : File K
  server : Option (Server K)
  told : List (Posted K × Result K)

inductive Event (K : Type) where
  | boot (faults : Statement → Bool) (calls : ℕ → Posted K)
  | work (call : ℕ) (heard : Bool)
  | die

section Definitions
variable {K : Type} [LinearOrder K] [Zero K] [Format K] (json : Codec)

def World.new : World K := ⟨.blank,none,[]⟩

def File.write (file : File K) (rows : Pours K) : File K := { file with pours := some rows }

def returned (posted : Posted K) : Phase K → List (Posted K × Result K)
  | .ended result => [(posted,result)]
  | _ => []

inductive Step (w : World K) : Event K → World K → Prop where
  | boot {faults calls file} (down : w.server = none) (opened : newSQLiteStore faults w.file = (.ok (),file)) :
      Step w (.boot faults calls)
        { w with file := file, server := some ⟨calls,{ Database.empty with committed := file.rows }⟩ }
  | refused {faults calls err file} (down : w.server = none)
      (failed : newSQLiteStore faults w.file = (.error err,file)) :
      Step w (.boot faults calls) { w with file := file }
  | work {server database i heard} (up : w.server = some server)
      (now : SqliteTransactions.Step json server.calls server.database i database) :
      Step w (.work i heard) {
        file := File.write w.file database.committed
        server := some ⟨server.calls,database⟩
        told := if heard then w.told ++ returned (server.calls i) (database.phase i) else w.told }
  | die (up : w.server.isSome) : Step w .die { w with server := none }

def freshOf : Posted K × Result K → Option (Record K)
  | (_,.ok (rec,false)) => some rec
  | _ => none

/- What a returned record is to the call it was returned to. -/
structure Owed (log : List (Record K)) (posted : Posted K) (rec : Record K) : Prop where
  stored : rec ∈ log
  start : (startKeys K).key rec = posted.start
  tier : rec.tierIndex = posted.req.tierIndex

structure Alive (w : World K) (log : List (Record K)) : Prop where
  holds : Holds json w.file.rows log
  serves : ∀ server, w.server = some server → w.file.started = true ∧
    server.database.committed = w.file.rows ∧ Serial json server.calls server.database log
  fresh : (w.told.filterMap freshOf).Sublist log
  owed : ∀ posted rec replayed, (posted,.ok (rec,replayed)) ∈ w.told → Owed log posted rec

end Definitions

variable {K : Type} [LinearOrder K] [Zero K] [Format K] {json : Codec}

omit [Zero K] [Format K] [LinearOrder K] in
theorem startRow (r : Record K) : startOf (rowOf json r) = [.text r.ownerId,.integer r.timestampMs] := rfl

omit [Format K] in
theorem holdsOnly {rows : Pours K} {log log' : List (Record K)} (left : Holds json rows log)
    (right : Holds json rows log') : log' = log := by
  have first := scanAll json left.1.certified
  have second := scanAll json right.1.certified
  rw [← left.2] at first
  rw [← right.2,first] at second
  exact (Option.some.inj second).symm

omit [Format K] in
theorem startsApart {rows : Pours K} {log : List (Record K)} (holds : Holds json rows log) :
    (rows.map startOf).Nodup := by
  obtain ⟨sound,rfl⟩ := holds
  have distinct := List.pairwise_map.mp sound.kept.distinct
  refine List.pairwise_map.mpr (List.pairwise_map.mpr (distinct.imp fun {a b} differ same => differ ?_))
  rw [startRow,startRow] at same
  simp only [List.cons.injEq,Value.text.injEq,Value.integer.injEq,and_true] at same
  exact Prod.ext same.1 same.2

omit [Format K] in
theorem holdsConsistent {file : File K} {log : List (Record K)} (holds : Holds json file.rows log) :
    Consistent file := by
  have values : ∀ row ∈ file.rows, ∀ c ∈ schema.notNull, row c ≠ .null := by
    intro row mem
    rw [holds.2] at mem
    obtain ⟨r,listed,rfl⟩ := List.mem_map.mp mem
    exact rowFilled json (holds.1.certified r listed)
  have consistent : Consistent { file with started := false } := ⟨values,nofun⟩
  exact ⟨values,fun _ => (consistentStarts consistent).mpr (startsApart holds)⟩

inductive Told (posted : Posted K) (log : List (Record K)) : Phase K → List (Record K) → Prop where
  | running {phase} (open_ : returned posted phase = []) : Told posted log phase log
  | failed {err} : Told posted log (.ended (.error err)) log
  | replayed {rec} (owed : Owed log posted rec) : Told posted log (.ended (.ok (rec,true))) log
  | fresh {rec} (made : posted.mint (log.length + 1) = .ok rec) :
      Told posted log (.ended (.ok (rec,false))) (log ++ [rec])

theorem stepTells {calls : ℕ → Posted K} {s t : Database K} {log : List (Record K)} {i : ℕ}
    (serial : Serial json calls s log) (now : SqliteTransactions.Step json calls s i t) :
    ∃ log', Serial json calls t log' ∧ Told (calls i) log (t.phase i) log' := by
  obtain ⟨log',next,-⟩ := serialStep serial now
  have unchanged : t.committed = s.committed → log' = log :=
    fun same => holdsOnly serial.holds (same ▸ next.holds)
  refine ⟨log',next,?_⟩
  have knows := serial.knows i
  cases now with
  | begin idle unlocked =>
    obtain rfl := unchanged rfl
    exact .running (by simp [Database.advance,returned])
  | refusedBegin idle context =>
    obtain rfl := unchanged rfl
    rw [finishPhase]
    exact .failed
  | @replay view existing begun found =>
    obtain rfl := unchanged rfl
    rw [begun] at knows
    obtain rfl : view = rowsOf json log' := knows
    rw [lookupStored json serial.holds.1] at found
    obtain ⟨stored,start⟩ := holderSound (Except.ok.inj found)
    rw [finishPhase]
    by_cases tier : existing.tierIndex = (calls i).key.tierIndex
    · rw [if_neg (not_not.mpr tier)]
      exact .replayed ⟨stored,start,tier⟩
    · rw [if_pos tier]
      exact .failed
  | miss begun absent =>
    obtain rfl := unchanged rfl
    rw [advancePhase]
    exact .running rfl
  | place missed next =>
    obtain rfl := unchanged rfl
    rw [advancePhase]
    exact .running rfl
  | mint placed made =>
    obtain rfl := unchanged rfl
    rw [advancePhase]
    exact .running rfl
  | refuse placed failed =>
    obtain rfl := unchanged rfl
    rw [finishPhase]
    exact .failed
  | insert minted stored =>
    obtain rfl := unchanged rfl
    rw [advancePhase]
    exact .running rfl
  | @commit view rec inserted =>
    rw [inserted] at knows
    obtain ⟨rfl,free,made⟩ := knows
    have appended : Holds json (rowsOf json (log ++ [rec])) (log ++ [rec]) :=
      ⟨soundAppend serial.holds.1 (appendFree free made),rfl⟩
    obtain rfl := holdsOnly appended next.holds
    rw [finishPhase]
    exact .fresh made
  | abort running context =>
    obtain rfl := unchanged rfl
    rw [finishPhase]
    exact .failed

theorem aliveNew : Alive json (World.new : World K) [] :=
  ⟨⟨soundEmpty,rfl⟩,by simp [World.new],by simp [World.new],by simp [World.new]⟩

omit [LinearOrder K] [Zero K] [Format K] in
theorem owedKept {log log' : List (Record K)} {posted : Posted K} {rec : Record K} (owed : Owed log posted rec)
    (longer : log <+: log') : Owed log' posted rec :=
  ⟨longer.subset owed.stored,owed.start,owed.tier⟩

theorem aliveBoot {w : World K} {log : List (Record K)} (alive : Alive json w log)
    {faults : Statement → Bool} {result : Except OpenError Unit} {file : File K}
    (opened : newSQLiteStore faults w.file = (result,file)) : Holds json file.rows log := by
  rw [(openedConsistent (holdsConsistent alive.holds) opened).2]
  exact alive.holds

theorem toldOwed {posted : Posted K} {phase : Phase K} {log log' : List (Record K)}
    (told : Told posted log phase log') : ∃ more, log' = log ++ more ∧
      ((returned posted phase).filterMap freshOf).Sublist more ∧
      ∀ rec replayed, (posted,.ok (rec,replayed)) ∈ returned posted phase → Owed log' posted rec := by
  cases told with
  | running open_ => exact ⟨[],by simp,by simp [open_],by simp [open_]⟩
  | failed => exact ⟨[],by simp,by simp [returned,freshOf],by simp [returned]⟩
  | replayed owed => exact ⟨[],by simp,by simp [returned,freshOf],by simpa [returned] using owed⟩
  | @fresh rec made =>
    obtain ⟨start,tier,-⟩ := posted.call.honest made
    refine ⟨[rec],rfl,by simp [returned,freshOf],?_⟩
    simpa [returned] using (⟨by simp,start,tier⟩ : Owed (log ++ [rec]) posted rec)

omit [LinearOrder K] [Zero K] [Format K] in
theorem returnedOf {posted other : Posted K} {phase : Phase K} {result : Result K}
    (mem : (other,result) ∈ returned posted phase) : other = posted := by
  cases phase with
  | ended result => exact congrArg Prod.fst (List.mem_singleton.mp mem)
  | _ => contradiction

theorem serialOpened {calls : ℕ → Posted K} {rows : Pours K} {log : List (Record K)}
    (holds : Holds json rows log) : Serial json calls { Database.empty with committed := rows } log :=
  ⟨holds,fun i running => by simp [Database.empty,Phase.open] at running,fun _ => trivial⟩

theorem aliveWork {w : World K} {log : List (Record K)} (alive : Alive json w log) {server : Server K}
    {database : Database K} {i : ℕ} {heard : Bool} (up : w.server = some server)
    (now : SqliteTransactions.Step json server.calls server.database i database) :
    ∃ log', log <+: log' ∧ Alive json {
      file := File.write w.file database.committed
      server := some ⟨server.calls,database⟩
      told := if heard then w.told ++ returned (server.calls i) (database.phase i) else w.told } log' := by
  obtain ⟨started,-,serial⟩ := alive.serves server up
  obtain ⟨log',next,told⟩ := stepTells serial now
  obtain ⟨more,rfl,news,owed⟩ := toldOwed told
  refine ⟨log ++ more,List.prefix_append ..,next.holds,?_,?_,?_⟩
  · rintro _ ⟨⟩
    exact ⟨started,rfl,next⟩
  · cases heard with
    | true =>
      rw [if_pos rfl,List.filterMap_append]
      exact alive.fresh.append news
    | false => exact alive.fresh.trans (List.sublist_append_left ..)
  · intro posted rec replayed mem
    cases heard with
    | true =>
      cases List.mem_append.mp mem with
      | inl earlier => exact owedKept (alive.owed posted rec replayed earlier) (List.prefix_append ..)
      | inr here =>
        obtain rfl : posted = server.calls i := returnedOf here
        exact owed rec replayed here
    | false => exact owedKept (alive.owed posted rec replayed mem) (List.prefix_append ..)

theorem aliveStep {w w' : World K} {event : Event K} {log : List (Record K)} (alive : Alive json w log)
    (now : Step json w event w') : ∃ log', log <+: log' ∧ Alive json w' log' := by
  cases now with
  | boot down opened =>
    have holds := aliveBoot alive opened
    refine ⟨log,List.prefix_rfl,holds,?_,alive.fresh,alive.owed⟩
    rintro _ ⟨⟩
    exact ⟨(openedAgain (holdsConsistent alive.holds) opened).1,rfl,serialOpened holds⟩
  | refused down failed =>
    refine ⟨log,List.prefix_rfl,aliveBoot alive failed,?_,alive.fresh,alive.owed⟩
    intro server up
    exact absurd (down.symm.trans up) (by simp)
  | work up now => exact aliveWork alive up now
  | die up => exact ⟨log,List.prefix_rfl,alive.holds,by simp,alive.fresh,alive.owed⟩

theorem aliveRun {w w' : World K} {events : List (Event K)} {log : List (Record K)}
    (alive : Alive json w log) (run : Run (Step json) w events w') :
    ∃ log', log <+: log' ∧ Alive json w' log' := by
  induction run with
  | rest => exact ⟨log,List.prefix_rfl,alive⟩
  | next before now ih =>
    obtain ⟨mid,longer,alive⟩ := ih
    obtain ⟨log',further,alive⟩ := aliveStep alive now
    exact ⟨log',longer.trans further,alive⟩

theorem bootServes {w : World K} {log : List (Record K)} (alive : Alive json w log)
    (down : w.server = none) (calls : ℕ → Posted K) :
    ∃ w', Step json w (.boot quiet calls) w' ∧ w'.server.isSome = true ∧ w'.file.rows = w.file.rows ∧
      w'.told = w.told := by
  have consistent := holdsConsistent alive.holds
  have served : (newSQLiteStore quiet w.file).1 = .ok () :=
    (openedIff consistent).mpr (startsApart alive.holds)
  have opened : newSQLiteStore quiet w.file = (.ok (),(newSQLiteStore quiet w.file).2) := Prod.ext served rfl
  exact ⟨_,.boot down opened,rfl,(openedConsistent consistent opened).2,rfl⟩

theorem owedReplayed {rows : Pours K} {log : List (Record K)} (holds : Holds json rows log)
    {posted later : Posted K} {rec : Record K} (owed : Owed log posted rec) (same : later.start = posted.start) :
    append json noFaults later.key later.mint rows =
      (if later.req.tierIndex = rec.tierIndex then .ok (rec,true) else .error .conflict,rows) := by
  obtain ⟨sound,rfl⟩ := holds
  have found : holder (startKeys K) log (later.key.ownerId,later.key.timestampMs) = some rec := by
    have key : (later.key.ownerId,later.key.timestampMs) = (startKeys K).key rec := same.trans owed.start.symm
    rw [key]
    exact holderStored sound.kept owed.stored
  rw [takenReplayed json _ _ sound found]
  by_cases tier : later.req.tierIndex = rec.tierIndex
  · simp [Posted.key,tier]
  · simp [Posted.key,tier,Ne.symm tier]

theorem issuedForGood (json : Codec) {events : List (Event K)} {w : World K}
    (run : Run (Step json) World.new events w) :
    ∃ records, w.file.rows.mapM (scanRow json) = some records ∧ Continuous records ∧
      (w.told.filterMap freshOf).Sublist records ∧
      (∀ posted rec replayed, (posted,.ok (rec,replayed)) ∈ w.told → Owed records posted rec) ∧
      (∀ later w', Run (Step json) w later w' →
        (∃ more, w'.file.rows = w.file.rows ++ more) ∧
        ∀ posted rec replayed, (posted,.ok (rec,replayed)) ∈ w.told →
          ∀ again : Posted K, again.start = posted.start →
            append json noFaults again.key again.mint w'.file.rows =
              (if again.req.tierIndex = rec.tierIndex then .ok (rec,true) else .error .conflict,w'.file.rows)) ∧
      (w.server = none → ∀ calls, ∃ w', Step json w (.boot quiet calls) w' ∧ w'.server.isSome = true ∧
        w'.file.rows = w.file.rows ∧ w'.told = w.told) := by
  obtain ⟨log,-,alive⟩ := aliveRun aliveNew run
  refine ⟨log,?_,soundContinuous alive.holds.1,alive.fresh,alive.owed,?_,bootServes alive⟩
  · rw [alive.holds.2]
    exact scanAll json alive.holds.1.certified
  · intro later w' more
    obtain ⟨log',⟨rest,rfl⟩,alive'⟩ := aliveRun alive more
    refine ⟨⟨rowsOf json rest,?_⟩,fun posted rec replayed mem again same => ?_⟩
    · rw [alive'.holds.2,alive.holds.2]
      exact List.map_append
    · exact owedReplayed alive'.holds (owedKept (alive.owed posted rec replayed mem) ⟨rest,rfl⟩) same

theorem phaseElse {calls : ℕ → Posted K} {s t : Database K} {i j : ℕ}
    (now : SqliteTransactions.Step json calls s j t) (other : i ≠ j) : t.phase i = s.phase i := by
  cases now <;> simp [Database.finish,Database.advance,Database.publish,Function.update_of_ne other]

theorem workRun {w : World K} {server : Server K} {database : Database K} {sub : List ℕ}
    (up : w.server = some server)
    (run : Run (SqliteTransactions.Step json server.calls) server.database sub database) :
    ∃ w', Run (Step json) w (sub.map fun i => .work i true) w' ∧
      w'.server = some ⟨server.calls,database⟩ ∧
      ∀ i result, database.phase i = .ended result →
        server.database.phase i = .ended result ∨ (server.calls i,result) ∈ w'.told := by
  induction run with
  | rest => exact ⟨w,.rest,up,fun i result ended => .inl ended⟩
  | @next events database j next before now ih =>
    obtain ⟨mid,first,serving,told⟩ := ih
    rw [List.map_append]
    refine ⟨_,first.next (.work serving now),rfl,fun i result ended => ?_⟩
    rw [if_pos rfl]
    by_cases same : i = j
    · subst same
      exact .inr (List.mem_append_right _ (by simp [returned,ended]))
    · rw [phaseElse now same] at ended
      cases told i result ended with
      | inl earlier => exact .inl earlier
      | inr heard => exact .inr (List.mem_append_left _ heard)

def served : World (Rounded 53) := ⟨⟨some [],true⟩,some ⟨fun _ => onePour,Database.empty⟩,[]⟩

theorem retriedAfterDeath : ∃ (events : List (Event (Rounded 53))) (w : World (Rounded 53)) (rec : Record (Rounded 53)),
    Run (Step encodingJson) World.new events w ∧ w.server = none ∧ (onePour,.ok (rec,false)) ∈ w.told ∧
    append encodingJson noFaults onePour.key onePour.mint w.file.rows = (.ok (rec,true),w.file.rows) := by
  have opened : newSQLiteStore quiet (File.blank : File (Rounded 53)) = (.ok (),⟨some [],true⟩) := by
    simp [newSQLiteStore,quiet,File.createStartIndex,File.createTable,File.blank,File.rows,indexable]
  have boot : Run (Step encodingJson) World.new [.boot quiet fun _ => onePour] served :=
    .single (.boot rfl opened)
  have empty : Serial encodingJson (fun _ => onePour) Database.empty [] := serialEmpty
  obtain ⟨sub,database,calls,ended,-⟩ := aloneAppends empty (i := 0) rfl rfl
  obtain ⟨w,worked,up,told⟩ := @workRun _ _ _ _ _ served ⟨fun _ => onePour,Database.empty⟩ _ _ rfl calls
  have died : Step encodingJson w .die { w with server := none } := .die (by rw [up]; rfl)
  have run := (boot.join worked).next died
  obtain ⟨rec,minted⟩ : ∃ rec, (append encodingJson noFaults onePour.key onePour.mint []).1 = .ok (rec,false) := by
    have accepted : Accepted onePour.req onePour.now := ⟨by decide,by decide⟩
    have refines := sqliteRefines (K := Rounded 53) encodingJson
    have free : ∀ r ∈ ([] : List (Record (Rounded 53))), (startKeys _).key r ≠ onePour.start := by simp
    obtain ⟨rec,fresh⟩ := LedgerDurability.freeMints refines refines.start free accepted
    exact ⟨rec,answerAppended fresh⟩
  have heard : (onePour,.ok (rec,false)) ∈ w.told := by
    cases told 0 _ ended with
    | inl earlier => cases earlier
    | inr heard => exact minted ▸ heard
  refine ⟨_,_,rec,run,rfl,heard,?_⟩
  obtain ⟨records,-,-,-,owed,kept,-⟩ := issuedForGood encodingJson run
  have replayed := (kept [] _ .rest).2 onePour rec false heard onePour rfl
  rw [if_pos (owed onePour rec false heard).tier.symm] at replayed
  exact replayed

end MoltenPour.LedgerLives
