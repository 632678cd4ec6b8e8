import MoltenPour.Store

/-! memoryStore: a slice and two maps behind one lock. Holding the lock makes
each operation one step. -/
namespace MoltenPour.MemoryLedger
open NumberFormat Pour KeyedLog Store
variable {K : Type}

structure MemoryStore (K : Type) where
  records : List (Record K)
  byID : String → Option (Record K)
  byStart : String × ℤ → Option (Record K)

def newMemoryStore : MemoryStore K := ⟨[],fun _ => none,fun _ => none⟩

def append (key : MintKey) (mint : ℕ → Except PourError (Record K)) (s : MemoryStore K) :
    Except PourError (Record K × Bool) × MemoryStore K :=
  let sk := (key.ownerId,key.timestampMs)
  match s.byStart sk with
  | some existing =>
      if existing.tierIndex ≠ key.tierIndex then (.error .conflict,s) else (.ok (existing,true),s)
  | none =>
      match mint (s.records.length + 1) with
      | .error err => (.error err,s)
      | .ok rec =>
          (.ok (rec,false),{
            records := s.records ++ [rec]
            byID := Function.update s.byID rec.id (some rec)
            byStart := Function.update s.byStart sk (some rec) })

def get (id ownerId : String) (s : MemoryStore K) : Except PourError (Record K) :=
  match s.byID id with
  | some rec => if rec.ownerId ≠ ownerId then .error .notFound else .ok rec
  | none => .error .notFound

/- Newest first: the loop runs from the end of the slice. -/
def list (ownerId : String) (s : MemoryStore K) : List (Record K) :=
  s.records.reverse.filter fun r => r.ownerId = ownerId

def memory : Backend K :=
  ⟨MemoryStore K,newMemoryStore,fun _ => append,fun _ => get,fun _ id s => .ok (list id s)⟩

variable [LinearOrder K] [Zero K] [Format K]

structure Indexes (s : MemoryStore K) (log : List (Record K)) : Prop where
  sound : Sound log
  records : s.records = log
  byID : s.byID = holder (idKeys K) log
  byStart : s.byStart = holder (startKeys K) log

omit [Format K] in
theorem indexesEmpty : Indexes (newMemoryStore : MemoryStore K) [] := ⟨soundEmpty,rfl,rfl,rfl⟩

omit [Format K] in
theorem indexesOnly {s t : MemoryStore K} {log : List (Record K)} (left : Indexes s log)
    (right : Indexes t log) : s = t := by
  obtain ⟨records,byID,byStart⟩ := s
  obtain ⟨others,ids,starts⟩ := t
  rw [MemoryStore.mk.injEq]
  exact ⟨left.records.trans right.records.symm,left.byID.trans right.byID.symm,
    left.byStart.trans right.byStart.symm⟩

theorem indexesFresh {s : MemoryStore K} {log : List (Record K)} (indexes : Indexes s log)
    {posted : Posted K} {rec : Record K} (free : ∀ f ∈ log, (startKeys K).key f ≠ posted.start)
    (made : posted.mint (log.length + 1) = .ok rec) :
    Indexes {
      records := s.records ++ [rec]
      byID := Function.update s.byID rec.id (some rec)
      byStart := Function.update s.byStart posted.start (some rec) } (log ++ [rec]) := by
  obtain ⟨key,-,place⟩ := posted.call.honest made
  refine ⟨soundAppend indexes.sound (appendFree free made),?records,?byID,?byStart⟩
  case records => rw [indexes.records]
  case byID =>
    have free := idFree indexes.sound (mintCertified made) place
    rw [indexes.byID]
    exact (@holderAppend _ _ _ (idKeys K) _ _ _ free).symm
  case byStart =>
    have same : (startKeys K).key rec = posted.start := key
    rw [indexes.byStart,← same]
    exact (holderAppend (fun f mem => same ▸ free f mem)).symm

theorem appendLedger {s : MemoryStore K} {log : List (Record K)} (indexes : Indexes s log)
    (posted : Posted K) :
    (memory.serve noFaults (.append posted) s).1 = (ledger (.append posted) log).1 ∧
      Indexes (memory.serve noFaults (.append posted) s).2 (ledger (.append posted) log).2 := by
  have lookup : s.byStart (posted.key.ownerId,posted.key.timestampMs) =
      holder (startKeys K) log posted.call.key := congrFun indexes.byStart posted.start
  simp only [Backend.serve,memory,append,ledger,KeyedLog.append,lookup,indexes.records]
  cases found : holder (startKeys K) log posted.call.key with
  | some existing =>
    by_cases tier : existing.tierIndex = posted.key.tierIndex
    · have tag : (startKeys K).tag existing = posted.call.tag := tier
      simp only [tier,tag,ne_eq,not_true_eq_false,if_false,if_true]
      exact ⟨rfl,indexes⟩
    · have tag : (startKeys K).tag existing ≠ posted.call.tag := tier
      simp only [tier,tag,ne_eq,not_false_eq_true,if_false,if_true]
      exact ⟨rfl,indexes⟩
  | none =>
    have made : posted.call.make (log.length + 1) = posted.mint (log.length + 1) := rfl
    rw [made]
    cases minted : posted.mint (log.length + 1) with
    | error err => exact ⟨rfl,indexes⟩
    | ok rec =>
      have fresh := indexesFresh indexes (holderFree.mp found) minted
      exact ⟨rfl,indexes.records ▸ fresh⟩

theorem serveLedger {s : MemoryStore K} {log : List (Record K)} (op : Op K) (indexes : Indexes s log) :
    (memory.serve noFaults op s).1 = (ledger op log).1 ∧
      Indexes (memory.serve noFaults op s).2 (ledger op log).2 := by
  cases op with
  | append posted => exact appendLedger indexes posted
  | get id ownerId =>
    simp only [Backend.serve,memory,get,ledger,indexes.byID,getById indexes.sound]
    cases holder (idKeys K) log id with
    | none => exact ⟨rfl,indexes⟩
    | some rec =>
      by_cases own : rec.ownerId = ownerId
      · simpa [own,Option.filter,foundOf] using indexes
      · simpa [own,Option.filter,foundOf] using indexes
  | list ownerId =>
    simpa [Backend.serve,memory,list,ledger,listedOf,indexes.records,List.filter_reverse] using indexes

omit [Format K] in
theorem takenReplayed {s : MemoryStore K} {log : List (Record K)} {existing : Record K} (key : MintKey)
    (mint : ℕ → Except PourError (Record K)) (indexes : Indexes s log)
    (found : holder (startKeys K) log (key.ownerId,key.timestampMs) = some existing) :
    append key mint s =
      (if existing.tierIndex ≠ key.tierIndex then .error .conflict else .ok (existing,true),s) := by
  have lookup := (congrFun indexes.byStart (key.ownerId,key.timestampMs)).trans found
  by_cases tier : existing.tierIndex = key.tierIndex
  · simp [append,lookup,tier]
  · simp [append,lookup,tier]

theorem memoryRefines : Refines (memory (K := K)) Indexes where
  start := indexesEmpty
  sound indexes := indexes.sound
  serve := serveLedger
  taken := takenReplayed
  faults faults op s := by
    cases op with
    | append => exact .inl rfl
    | get => exact .inl rfl
    | list => exact .inl rfl

end MoltenPour.MemoryLedger
