import MoltenPour.SqliteLedger
import MoltenPour.BinaryFormat

/-! NewSQLiteStore (api/pour/sqlite.go): opening the file a ledger is kept in. The
table may be missing, or older than the index on pour-start; a file SQLite wrote
keeps the constraints it has. `faults` says which statements the driver refuses. -/
namespace MoltenPour.LedgerFile
open Store SqlTable SqliteLedger

structure File (K : Type) where
  pours : Option (Pours K)
  started : Bool

def startIndex : List Column := [.ownerId,.timestampMs]

inductive Statement where
  | connect | table | ownerIndex | startIndex | count
  deriving DecidableEq

inductive OpenError where
  | connect
  | schema
  | duplicates (dupes : ℕ)
  | startIndex
  deriving DecidableEq, Repr

def OpenError.text (cause : String) : OpenError → String
  | .connect => s!"open ledger: {cause}"
  | .schema => s!"create ledger schema: {cause}"
  | .duplicates dupes =>
      s!"create pours_owner_start index: the ledger holds {dupes} (owner_id, timestamp_ms) pairs minted more than once, " ++
        s!"left by retries before minting was idempotent; resolve them before starting: {cause}"
  | .startIndex => s!"create pours_owner_start index: {cause}"

section Opening
variable {K : Type}

namespace File

def blank : File K := ⟨none,false⟩

def rows (file : File K) : Pours K := file.pours.getD []

def createTable (file : File K) : File K := { file with pours := some file.rows }

def createStartIndex [DecidableEq K] (file : File K) : Option (File K) :=
  if file.started then some file
  else if indexable LedgerFile.startIndex file.rows then some { file with started := true } else none

end File

variable [DecidableEq K] (faults : Statement → Bool)

def explainStartIndexFailure (rows : Pours K) : OpenError :=
  let dupes := (repeated startIndex rows).length
  if faults .count = false ∧ 0 < dupes then .duplicates dupes else .startIndex

def newSQLiteStore (file : File K) : Except OpenError Unit × File K :=
  if faults .connect then (.error .connect,file)
  else if faults .table then (.error .schema,file)
  else
    let file := file.createTable
    if faults .ownerIndex then (.error .schema,file)
    else if faults .startIndex then (.error (explainStartIndexFailure faults file.rows),file)
    else match file.createStartIndex with
      | none => (.error (explainStartIndexFailure faults file.rows),file)
      | some file => (.ok (),file)

/- What SQLite keeps of the schema's table and its unique index, whoever wrote the rows. IF NOT
   EXISTS looks at names: a table or an index of another shape under them is left out here. -/
structure Consistent (file : File K) : Prop where
  values : ∀ row ∈ file.rows, ∀ c ∈ schema.notNull, row c ≠ .null
  index : file.started = true → indexable startIndex file.rows = true

def startOf (row : Row Column (NumberFormat.Num K)) : List (Cell K) := startIndex.map row

end Opening

variable {K : Type} [DecidableEq K] {file : File K}

omit [DecidableEq K] in
@[simp] theorem rowsCreated : file.createTable.rows = file.rows := rfl

def quiet : Statement → Bool := fun _ => false

theorem consistentStarts (consistent : Consistent file) :
    indexable startIndex file.rows = true ↔ (file.rows.map startOf).Nodup := by
  refine indexableIff fun row mem c column => consistent.values row mem c ?_
  have named : ∀ c ∈ startIndex, c ∈ schema.notNull := by decide
  exact named c column

theorem indexCreated (consistent : Consistent file) :
    file.createStartIndex = if (file.rows.map startOf).Nodup then some { file with started := true }
      else none := by
  have starts := consistentStarts consistent
  cases started : file.started with
  | true =>
    have kept : { file with started := true } = file := by rw [← started]
    rw [if_pos (starts.mp (consistent.index started)),kept,File.createStartIndex,if_pos started]
  | false => simp [File.createStartIndex,started,starts]

theorem createdConsistent (consistent : Consistent file) : Consistent file.createTable :=
  ⟨consistent.values,consistent.index⟩

inductive Opened (faults : Statement → Bool) (file : File K) : Except OpenError Unit × File K → Prop where
  | served (apart : (file.rows.map startOf).Nodup) :
      Opened faults file (.ok (),{ file.createTable with started := true })
  | refused {err left} (rows : left.rows = file.rows) (started : left.started = file.started)
      (met : ∃ statement, statement ≠ .count ∧ faults statement = true) : Opened faults file (.error err,left)
  | repeats (twice : ¬ (file.rows.map startOf).Nodup) (calm : ∀ statement ≠ .count, faults statement = false) :
      Opened faults file (.error (explainStartIndexFailure faults file.rows),file.createTable)

theorem openedCases (faults : Statement → Bool) (consistent : Consistent file) :
    Opened faults file (newSQLiteStore faults file) := by
  unfold newSQLiteStore
  cases connect : faults .connect with
  | true => exact .refused rfl rfl ⟨.connect,by decide,connect⟩
  | false =>
    cases table : faults .table with
    | true => exact .refused rfl rfl ⟨.table,by decide,table⟩
    | false =>
      cases owner : faults .ownerIndex with
      | true => exact .refused rfl rfl ⟨.ownerIndex,by decide,owner⟩
      | false =>
        cases start : faults .startIndex with
        | true => exact .refused rfl rfl ⟨.startIndex,by decide,start⟩
        | false =>
          have calm : ∀ statement ≠ Statement.count, faults statement = false := by
            intro statement other
            cases statement with
            | connect => exact connect
            | table => exact table
            | ownerIndex => exact owner
            | startIndex => exact start
            | count => contradiction
          simp only [Bool.false_eq_true,if_false,indexCreated (createdConsistent consistent),rowsCreated]
          by_cases apart : (file.rows.map startOf).Nodup
          · simp only [apart,if_true]
            exact .served apart
          · simp only [apart,if_false]
            exact .repeats apart calm

theorem explained (twice : ¬ (file.rows.map startOf).Nodup) :
    0 < (repeated startIndex file.rows).length ∧ explainStartIndexFailure quiet file.rows =
      .duplicates (repeated startIndex file.rows).length := by
  have some : 0 < (repeated startIndex file.rows).length :=
    List.length_pos_iff.mpr fun none => twice (repeatedNone.mp none)
  exact ⟨some,if_pos ⟨rfl,some⟩⟩

theorem openedConsistent {faults : Statement → Bool} {left : File K} {result : Except OpenError Unit}
    (consistent : Consistent file) (opened : newSQLiteStore faults file = (result,left)) :
    Consistent left ∧ left.rows = file.rows := by
  have outcome := openedCases faults consistent
  rw [opened] at outcome
  cases outcome with
  | served apart => exact ⟨⟨consistent.values,fun _ => (consistentStarts consistent).mpr apart⟩,rfl⟩
  | refused rows started =>
    refine ⟨⟨?_,?_⟩,rows⟩
    · rw [rows]
      exact consistent.values
    · rw [rows,started]
      exact consistent.index
  | repeats => exact ⟨createdConsistent consistent,rfl⟩

theorem openedAgain {faults : Statement → Bool} {left : File K} (consistent : Consistent file)
    (opened : newSQLiteStore faults file = (.ok (),left)) :
    left.started = true ∧ (file.rows.map startOf).Nodup ∧ newSQLiteStore quiet left = (.ok (),left) := by
  have outcome := openedCases faults consistent
  rw [opened] at outcome
  cases outcome with
  | served apart => exact ⟨rfl,apart,by simp [newSQLiteStore,quiet,File.createTable,File.createStartIndex,File.rows]⟩

theorem repeatedCard (rows : Pours K) : (repeated startIndex rows).length =
    ((rows.map startOf).toFinset.filter fun start => 1 < (rows.map startOf).count start).card := by
  have same : (repeated startIndex rows).toFinset =
      (rows.map startOf).toFinset.filter fun start => 1 < (rows.map startOf).count start := by
    ext start
    simp only [repeated,List.mem_toFinset,List.mem_filter,List.mem_dedup,Finset.mem_filter,decide_eq_true_eq]
    exact Iff.rfl
  have distinct : (repeated startIndex rows).Nodup := (List.nodup_dedup _).filter _
  rw [← same,List.toFinset_card_of_nodup distinct]

theorem openedIff (consistent : Consistent file) :
    (newSQLiteStore quiet file).1 = .ok () ↔ (file.rows.map startOf).Nodup := by
  have outcome := openedCases quiet consistent
  generalize newSQLiteStore quiet file = result at outcome
  cases outcome with
  | served apart => simp [apart]
  | refused rows started met => exact absurd met (by simp [quiet])
  | repeats twice => simp [twice]

theorem openingTells (file : File K) (consistent : Consistent file) :
    ((newSQLiteStore quiet file).1 = .ok () ↔ (file.rows.map startOf).Nodup) ∧
    (∀ err, (newSQLiteStore quiet file).1 = .error err → ∃ dupes, err = .duplicates dupes ∧ 0 < dupes ∧
      dupes = ((file.rows.map startOf).toFinset.filter fun start =>
        1 < (file.rows.map startOf).count start).card) ∧
    ∀ faults result left, newSQLiteStore faults file = (result,left) →
      left.rows = file.rows ∧ Consistent left ∧
      (result = .ok () → left.started = true ∧ (file.rows.map startOf).Nodup ∧
        newSQLiteStore quiet left = (.ok (),left)) := by
  refine ⟨openedIff consistent,?_,?_⟩
  · intro err failed
    have outcome := openedCases quiet consistent
    generalize newSQLiteStore quiet file = result at failed outcome
    cases outcome with
    | served apart => cases failed
    | refused rows started met => exact absurd met (by simp [quiet])
    | repeats twice =>
      obtain ⟨some,named⟩ := explained twice
      cases failed
      exact ⟨_,named,some,repeatedCard file.rows⟩
  · intro faults result left opened
    obtain ⟨kept,rows⟩ := openedConsistent consistent opened
    refine ⟨rows,kept,?_⟩
    rintro rfl
    exact openedAgain consistent opened

def legacy : File (BinaryFormat.Rounded 53) where
  pours := some [fun _ => .integer 1,Function.update (fun _ => .integer 1) .ledgerPosition (.integer 2)]
  started := false

theorem legacyRefused : (newSQLiteStore quiet legacy).1 ≠ .ok () := by
  have consistent : Consistent legacy := ⟨by decide,by decide⟩
  exact fun served => absurd ((openingTells legacy consistent).1.mp served) (by decide)

end MoltenPour.LedgerFile
