import MoltenPour.Store
import MoltenPour.SqlTable
import MoltenPour.JsonStrings

/-! sqliteStore (api/pour/sqlite.go): the pours table, its constraints, and the
operations as the statements they run. `faults` says at which stages the driver
gives up; encoding/json is a codec of string lists that reads back what it wrote. -/
namespace MoltenPour.SqliteLedger
open NumberFormat Artifact Pour KeyedLog Store SqlTable

structure Codec where
  marshal : Option (List String) → String
  unmarshal : String → Option (Option (List String))
  roundTrip : ∀ strings, unmarshal (marshal strings) = some strings

def encodingJson : Codec where
  marshal strings := String.ofList (JsonStrings.write (strings.map (List.map String.toList)))
  unmarshal text := (JsonStrings.read text.toList).map (Option.map (List.map String.ofList))
  roundTrip strings := by
    have back : String.ofList ∘ String.toList = id := funext fun _ => String.ofList_toList
    rw [String.toList_ofList,JsonStrings.readWrite]
    cases strings with
    | none => rfl
    | some strings => simp [back]

inductive Column where
  | id | ownerId | ledgerPosition | tierIndex | amountCents | timestampMs
  | dropletsLanded | peakVelocity | tiltEnergy | holdMs
  | violations | seed | rarity | rarityScore | serial | batch | massGrams | issued
  deriving DecidableEq, Repr

def schema : Schema Column where
  notNull := [.ownerId,.ledgerPosition,.tierIndex,.amountCents,.timestampMs,
    .dropletsLanded,.peakVelocity,.tiltEnergy,.holdMs,
    .violations,.seed,.rarity,.rarityScore,.serial,.batch,.massGrams,.issued]
  unique := [[.id],[.ledgerPosition],[.serial],[.ownerId,.timestampMs]]

def insertColumns : List Column := [
  .id,.ownerId,.ledgerPosition,.tierIndex,.amountCents,.timestampMs,
  .dropletsLanded,.peakVelocity,.tiltEnergy,.holdMs,
  .violations,.seed,.rarity,.rarityScore,.serial,.batch,.massGrams,.issued]

def selectColumns : List Column := [
  .id,.ownerId,.ledgerPosition,.tierIndex,.amountCents,.timestampMs,
  .dropletsLanded,.peakVelocity,.tiltEnergy,.holdMs,
  .violations,.seed,.rarity,.rarityScore,.serial,.batch,.massGrams,.issued]

variable {K : Type}

abbrev Cell (K : Type) := Value (Num K)
abbrev Pours (K : Type) := List (Row Column (Num K))

/- SQLite stores a NaN as NULL. -/
def real : Num K → Cell K
  | .nan => .null
  | x => .real x

def bindings (json : Codec) (rec : Record K) : List (Cell K) := [
  .text rec.id,.text rec.ownerId,.integer rec.ledgerPosition,
  .integer rec.tierIndex,.integer rec.amountCents,.integer rec.timestampMs,
  real rec.telemetry.dropletsLanded,real rec.telemetry.peakVelocity,
  real rec.telemetry.tiltEnergy,real rec.telemetry.holdMs,
  .text (json.marshal rec.violations),.integer rec.seed.toNat,.text rec.rarity.text,
  real rec.rarityScore,.text rec.serial,.text rec.batch,real rec.massGrams,.text rec.issued]

def rowOf (json : Codec) (rec : Record K) : Row Column (Num K) :=
  place insertColumns (bindings json rec)

def rarityOf (text : String) : Option Rarity :=
  [Rarity.common,.uncommon,.rare,.singular].find? fun r => r.text = text

def scanRecord (json : Codec) : List (Cell K) → Option (Record K)
  | [.text id,.text ownerId,.integer ledgerPosition,
      .integer tierIndex,.integer amountCents,.integer timestampMs,
      .real dropletsLanded,.real peakVelocity,.real tiltEnergy,.real holdMs,
      .text violations,.integer seed,.text rarity,
      .real rarityScore,.text serial,.text batch,.real massGrams,.text issued] => do
    let rarity ← rarityOf rarity
    let violations ← json.unmarshal violations
    some {
      id,ownerId,tierIndex,amountCents,timestampMs,rarity,rarityScore,serial,batch,massGrams,issued
      ledgerPosition := ledgerPosition.toNat
      telemetry := ⟨dropletsLanded,peakVelocity,tiltEnergy,holdMs⟩
      violations := if violations = none then some [] else violations
      seed := UInt32.ofInt seed }
  | _ => none

def scanRow (json : Codec) (row : Row Column (Num K)) : Option (Record K) :=
  scanRecord json (selectColumns.map row)

section Statements
variable [DecidableEq K] (json : Codec) (faults : Faults)

def lookup (key : MintKey) (rows : Pours K) : Except PourError (Option (Record K)) :=
  if faults .lookup then .error (.failure "look up pour by start")
  else match rows.find? fun row =>
      row .ownerId = .text key.ownerId ∧ row .timestampMs = .integer key.timestampMs with
    | none => .ok none
    | some row =>
        match scanRow json row with
        | some existing => .ok (some existing)
        | none => .error (.failure "look up pour by start")

def nextPosition (rows : Pours K) : Except PourError ℕ :=
  if faults .position then .error (.failure "read ledger position")
  else .ok ((maximum .ledgerPosition rows).getD 0 + 1).toNat

def insertPour (rec : Record K) (rows : Pours K) : Except PourError (Pours K) :=
  if faults .insert then .error (.failure "insert pour")
  else match insert schema rows (rowOf json rec) with
    | some rows => .ok rows
    | none => .error (.failure "insert pour")

/- An error on any path returns before the commit, and the deferred rollback
leaves the table as it was. -/
def append (key : MintKey) (mint : ℕ → Except PourError (Record K)) (rows : Pours K) :
    Except PourError (Record K × Bool) × Pours K :=
  if faults .begin then (.error (.failure "begin pour transaction"),rows)
  else match lookup json faults key rows with
    | .error err => (.error err,rows)
    | .ok (some existing) =>
        if existing.tierIndex ≠ key.tierIndex then (.error .conflict,rows) else (.ok (existing,true),rows)
    | .ok none =>
        match nextPosition faults rows with
        | .error err => (.error err,rows)
        | .ok position =>
            match mint position with
            | .error err => (.error err,rows)
            | .ok rec =>
                match insertPour json faults rec rows with
                | .error err => (.error err,rows)
                | .ok inserted =>
                    if faults .commit then (.error (.failure "commit pour"),rows)
                    else (.ok (rec,false),inserted)

def get (id ownerId : String) (rows : Pours K) : Except PourError (Record K) :=
  if faults .query then .error (.failure "get")
  else match rows.find? fun row => row .id = .text id ∧ row .ownerId = .text ownerId with
    | none => .error .notFound
    | some row =>
        match scanRow json row with
        | some rec => .ok rec
        | none => .error (.failure "get")

def list (ownerId : String) (rows : Pours K) : Except PourError (List (Record K)) :=
  if faults .query then .error (.failure "list")
  else
    let mine := rows.filter fun row => row .ownerId = .text ownerId
    match (descending .ledgerPosition mine).mapM (scanRow json) with
    | some recs => .ok recs
    | none => .error (.failure "list")

end Statements

section Refinement
variable [LinearOrder K] [Zero K] [Format K] (json : Codec)

def sqlite : Backend K := ⟨Pours K,[],append json,get json,list json⟩

omit [LinearOrder K] [Zero K] [Format K] in
theorem realFinite {x : Num K} (finite : x.isFinite = true) : real x = .real x := by
  obtain ⟨v,rfl⟩ := Num.finiteExists finite
  rfl

theorem rarityOfText (r : Rarity) : rarityOf r.text = some r := by
  cases r <;> decide

omit [Format K] in
theorem scanRowOf {r : Record K} (certified : Certified r) : scanRow json (rowOf json r) = some r := by
  have columns : selectColumns.map (rowOf json r) = bindings json r :=
    mapPlace (by decide : insertColumns.Nodup) rfl
  have seed : UInt32.ofInt (r.seed.toNat : ℤ) = r.seed := by
    have small : (r.seed.toNat : ℤ) < 4294967296 := by exact_mod_cast r.seed.toNat_lt
    simp [UInt32.ofInt,Int.emod_eq_of_lt (Int.natCast_nonneg _) small]
  have kept : (if r.violations = none then some [] else r.violations) = r.violations :=
    if_neg certified.violations
  unfold scanRow
  rw [columns]
  simp only [bindings,realFinite certified.telemetry.droplets,realFinite certified.telemetry.velocity,
    realFinite certified.telemetry.tilt,realFinite certified.telemetry.holdFinite,
    realFinite certified.score,realFinite certified.mass,
    scanRecord,rarityOfText,json.roundTrip,kept,seed,Int.toNat_natCast,bind,Option.bind]

def rowsOf (log : List (Record K)) : Pours K := log.map (rowOf json)

omit [LinearOrder K] [Zero K] [Format K] in
theorem findRow {log : List (Record K)} {p : Row Column (Num K) → Bool}
    {q : Record K → Bool} (same : ∀ r, p (rowOf json r) = q r) :
    (rowsOf json log).find? p = (log.find? q).map (rowOf json) := by
  rw [rowsOf,List.find?_map]
  exact congrArg _ (congrArg (fun q => log.find? q) (funext same))

omit [Format K] in
theorem lookupStored {log : List (Record K)} (sound : Sound log) (key : MintKey) :
    lookup json noFaults key (rowsOf json log) =
      .ok (holder (startKeys K) log (key.ownerId,key.timestampMs)) := by
  have start : ∀ r : Record K, decide (rowOf json r .ownerId = .text key.ownerId ∧
      rowOf json r .timestampMs = .integer key.timestampMs) =
      decide ((startKeys K).key r = (key.ownerId,key.timestampMs)) := by
    intro r
    have left : rowOf json r .ownerId = .text r.ownerId := rfl
    have right : rowOf json r .timestampMs = .integer r.timestampMs := rfl
    simp [left,right,startKeys]
  unfold lookup holder
  rw [findRow json start]
  cases found : log.find? fun r => (startKeys K).key r = (key.ownerId,key.timestampMs) with
  | none => rfl
  | some r =>
    have certified := sound.certified r (List.mem_of_find?_eq_some found)
    simp [noFaults,scanRowOf json certified]

omit [Format K] in
theorem positionNext {log : List (Record K)} (sound : Sound log) :
    nextPosition noFaults (rowsOf json log) = .ok (log.length + 1) := by
  have places : (rowsOf json log).map (fun row => row .ledgerPosition) =
      (List.range' 1 (rowsOf json log).length).map fun i : ℕ => .integer i := by
    have cell : ∀ r : Record K, rowOf json r .ledgerPosition = .integer r.ledgerPosition := fun r => rfl
    have numbered : log.map Record.ledgerPosition = List.range' 1 log.length := sound.kept.places
    rw [rowsOf,List.length_map,← numbered,List.map_map,List.map_map]
    rfl
  have top := maximumCounts places
  rw [rowsOf,List.length_map] at top
  simp [nextPosition,noFaults,rowsOf,top]

omit [Format K] in
theorem rowFilled {r : Record K} (certified : Certified r) :
    ∀ c ∈ schema.notNull, rowOf json r c ≠ .null := by
  have filled : ∀ {x : Num K}, x.isFinite = true → real x ≠ .null := by
    intro x finite
    rw [realFinite finite]
    simp
  intro c column
  cases c with
  | id => simp [schema] at column
  | dropletsLanded => exact filled certified.telemetry.droplets
  | peakVelocity => exact filled certified.telemetry.velocity
  | tiltEnergy => exact filled certified.telemetry.tilt
  | holdMs => exact filled certified.telemetry.holdFinite
  | rarityScore => exact filled certified.score
  | massGrams => exact filled certified.mass
  | _ => nofun

omit [Format K] in
theorem rowsApart {log : List (Record K)} (sound : Sound log) {r : Record K} (certified : Certified r)
    (place : r.ledgerPosition = log.length + 1)
    (free : ∀ f ∈ log, (startKeys K).key f ≠ (startKeys K).key r) :
    ∀ columns ∈ schema.unique, ∀ other ∈ rowsOf json log, ∃ c ∈ columns, other c ≠ rowOf json r c := by
  intro columns key other stored
  obtain ⟨f,mem,rfl⟩ := List.mem_map.mp stored
  have text : ∀ {a b : String}, a ≠ b → (.text a : Cell K) ≠ .text b := fun differ same =>
    differ (Value.text.inj same)
  simp only [schema,List.mem_cons,List.not_mem_nil,or_false] at key
  obtain rfl | rfl | rfl | rfl := key
  · exact ⟨.id,by simp,text (idFree sound certified place f mem)⟩
  · refine ⟨.ledgerPosition,by simp,fun same => placeFree sound place f mem ?_⟩
    exact Int.natCast_inj.mp (Value.integer.inj same)
  · exact ⟨.serial,by simp,text (serialFree sound certified place f mem)⟩
  · by_cases owner : f.ownerId = r.ownerId
    · refine ⟨.timestampMs,by simp,fun same => free f mem ?_⟩
      exact Prod.ext owner (Value.integer.inj same)
    · exact ⟨.ownerId,by simp,text owner⟩

theorem insertNext {log : List (Record K)} (sound : Sound log) {posted : Posted K} {rec : Record K}
    (free : ∀ f ∈ log, (startKeys K).key f ≠ posted.start)
    (made : posted.mint (log.length + 1) = .ok rec) :
    insertPour json noFaults rec (rowsOf json log) = .ok (rowsOf json (log ++ [rec])) := by
  obtain ⟨key,-,place⟩ := posted.call.honest made
  have same : (startKeys K).key rec = posted.start := key
  have certified := mintCertified made
  have admitted := insertAdmitted (rowFilled json certified)
    (rowsApart json sound certified place (fun f mem => same ▸ free f mem))
  unfold rowsOf at admitted
  simp [insertPour,noFaults,admitted,rowsOf]

theorem appendLedger {log : List (Record K)} (sound : Sound log) (posted : Posted K) :
    (sqlite json).serve noFaults (.append posted) (rowsOf json log) =
      ((ledger (.append posted) log).1,rowsOf json (ledger (.append posted) log).2) := by
  have looked : lookup json noFaults posted.key (rowsOf json log) =
      .ok (holder (startKeys K) log posted.call.key) := lookupStored json sound posted.key
  simp only [Backend.serve,sqlite,append,ledger,KeyedLog.append,looked]
  cases found : holder (startKeys K) log posted.call.key with
  | some existing =>
    by_cases tier : existing.tierIndex = posted.key.tierIndex
    · have tag : (startKeys K).tag existing = posted.call.tag := tier
      simp [noFaults,tier,tag,outcome,answerOf]
    · have tag : (startKeys K).tag existing ≠ posted.call.tag := tier
      simp [noFaults,tier,tag,outcome,answerOf]
  | none =>
    have made : posted.call.make (log.length + 1) = posted.mint (log.length + 1) := rfl
    rw [made]
    cases minted : posted.mint (log.length + 1) with
    | error err => simp [noFaults,positionNext json sound,minted,outcome,answerOf]
    | ok rec =>
      have inserted := insertNext json sound (holderFree.mp found) minted
      simp [noFaults,positionNext json sound,minted,inserted,outcome,answerOf]

omit [Format K] in
theorem getLedger {log : List (Record K)} (sound : Sound log) (id ownerId : String) :
    get json noFaults id ownerId (rowsOf json log) =
      match log.find? fun r => r.id = id ∧ r.ownerId = ownerId with
      | some rec => .ok rec
      | none => .error .notFound := by
  have own : ∀ r : Record K, decide (rowOf json r .id = .text id ∧
      rowOf json r .ownerId = .text ownerId) = decide (r.id = id ∧ r.ownerId = ownerId) := by
    intro r
    have left : rowOf json r .id = .text r.id := rfl
    have right : rowOf json r .ownerId = .text r.ownerId := rfl
    simp [left,right]
  unfold get
  rw [findRow json own]
  cases found : log.find? fun r => r.id = id ∧ r.ownerId = ownerId with
  | none => simp [noFaults]
  | some r =>
    have certified := sound.certified r (List.mem_of_find?_eq_some found)
    simp [noFaults,scanRowOf json certified]

omit [Format K] in
theorem scanAll {log : List (Record K)} (certified : ∀ r ∈ log, Certified r) :
    (rowsOf json log).mapM (scanRow json) = some log := by
  induction log with
  | nil => rfl
  | cons r rest ih =>
    have head := scanRowOf json (certified r List.mem_cons_self)
    have tail := ih fun f mem => certified f (List.mem_cons_of_mem r mem)
    simp only [rowsOf,List.map_cons,List.mapM_cons] at tail ⊢
    simp [head,tail]

omit [Format K] in
theorem listLedger {log : List (Record K)} (sound : Sound log) (ownerId : String) :
    list json noFaults ownerId (rowsOf json log) =
      .ok (log.filter fun r => r.ownerId = ownerId).reverse := by
  have mine : (rowsOf json log).filter (fun row => row .ownerId = .text ownerId) =
      rowsOf json (log.filter fun r => r.ownerId = ownerId) := by
    have own : ∀ r : Record K, decide (rowOf json r .ownerId = .text ownerId) =
        decide (r.ownerId = ownerId) := by
      intro r
      have cell : rowOf json r .ownerId = .text r.ownerId := rfl
      simp [cell]
    rw [rowsOf,List.filter_map]
    exact congrArg _ (congrArg (fun q => log.filter q) (funext own))
  have increasing : (rowsOf json (log.filter fun r => r.ownerId = ownerId)).Pairwise fun a b =>
      (integerOf (a .ledgerPosition)).getD 0 < (integerOf (b .ledgerPosition)).getD 0 := by
    have cell : ∀ r : Record K, rowOf json r .ledgerPosition = .integer r.ledgerPosition := fun r => rfl
    refine List.pairwise_map.mpr ((placesIncrease sound.kept).filter _ |>.imp fun {a b} less => ?_)
    have places : a.ledgerPosition < b.ledgerPosition := less
    simpa [cell,integerOf] using places
  have backward : (rowsOf json (log.filter fun r => r.ownerId = ownerId)).reverse =
      rowsOf json (log.filter fun r => r.ownerId = ownerId).reverse := List.map_reverse.symm
  have scanned : (rowsOf json (log.filter fun r => r.ownerId = ownerId).reverse).mapM (scanRow json) =
      some (log.filter fun r => r.ownerId = ownerId).reverse :=
    scanAll json fun r mem => sound.certified r (List.mem_of_mem_filter (List.mem_reverse.mp mem))
  simp [list,noFaults,mine,descendingReverse increasing,backward,scanned]

theorem serveLedger {log : List (Record K)} (op : Op K) (sound : Sound log) :
    (sqlite json).serve noFaults op (rowsOf json log) =
      ((ledger op log).1,rowsOf json (ledger op log).2) := by
  cases op with
  | append posted => exact appendLedger json sound posted
  | get id ownerId =>
    simp only [Backend.serve,sqlite,getLedger json sound,ledger]
    cases log.find? fun r => r.id = id ∧ r.ownerId = ownerId with
    | none => rfl
    | some rec => rfl
  | list ownerId =>
    simp only [Backend.serve,sqlite,listLedger json sound,ledger,listedOf]

omit [Zero K] [Format K] in
theorem lookupFaults (faults : Faults) (key : MintKey) (rows : Pours K) :
    lookup json faults key rows = lookup json noFaults key rows ∨
      lookup json faults key rows = .error (.failure "look up pour by start") := by
  cases fault : faults .lookup with
  | true => exact .inr (by simp [lookup,fault])
  | false => exact .inl (by simp [lookup,fault,noFaults])

omit [LinearOrder K] [Zero K] [Format K] in
theorem positionFaults (faults : Faults) (rows : Pours K) :
    nextPosition faults rows = nextPosition noFaults rows ∨
      nextPosition faults rows = .error (.failure "read ledger position") := by
  cases fault : faults .position with
  | true => exact .inr (by simp [nextPosition,fault])
  | false => exact .inl (by simp [nextPosition,fault,noFaults])

omit [Zero K] [Format K] in
theorem insertFaults (faults : Faults) (rec : Record K) (rows : Pours K) :
    insertPour json faults rec rows = insertPour json noFaults rec rows ∨
      insertPour json faults rec rows = .error (.failure "insert pour") := by
  cases fault : faults .insert with
  | true => exact .inr (by simp [insertPour,fault])
  | false => exact .inl (by simp [insertPour,fault,noFaults])

omit [Zero K] [Format K] in
theorem appendFaults (faults : Faults) (key : MintKey) (mint : ℕ → Except PourError (Record K))
    (rows : Pours K) :
    append json faults key mint rows = append json noFaults key mint rows ∨
      ∃ context, append json faults key mint rows = (.error (.failure context),rows) := by
  cases begin : faults .begin with
  | true => exact .inr ⟨"begin pour transaction",by simp [append,begin]⟩
  | false =>
    cases lookupFaults json faults key rows with
    | inr failed => exact .inr ⟨"look up pour by start",by simp [append,begin,failed]⟩
    | inl looked =>
      cases found : lookup json noFaults key rows with
      | error err => exact .inl (by simp [append,begin,noFaults,looked,found])
      | ok existing =>
        cases existing with
        | some existing => exact .inl (by simp [append,begin,noFaults,looked,found])
        | none =>
          cases positionFaults faults rows with
          | inr failed => exact .inr ⟨"read ledger position",by simp [append,begin,looked,found,failed]⟩
          | inl placed =>
            cases position : nextPosition noFaults rows with
            | error err => exact .inl (by simp [append,begin,noFaults,looked,found,placed,position])
            | ok n =>
              cases minted : mint n with
              | error err =>
                exact .inl (by simp [append,begin,noFaults,looked,found,placed,position,minted])
              | ok rec =>
                cases insertFaults json faults rec rows with
                | inr failed =>
                  refine .inr ⟨"insert pour",?_⟩
                  simp [append,begin,looked,found,placed,position,minted,failed]
                | inl stored =>
                  cases commit : faults .commit with
                  | true =>
                    cases inserted : insertPour json noFaults rec rows with
                    | error err =>
                      refine .inl ?_
                      simp [append,begin,noFaults,looked,found,placed,position,minted,stored,inserted]
                    | ok rows' =>
                      refine .inr ⟨"commit pour",?_⟩
                      simp [append,begin,looked,found,placed,position,minted,stored,inserted,commit]
                  | false =>
                    refine .inl ?_
                    simp [append,begin,noFaults,looked,found,placed,position,minted,stored,commit]

theorem serveFaults (faults : Faults) (op : Op K) (rows : Pours K) :
    (sqlite json).serve faults op rows = (sqlite json).serve noFaults op rows ∨
      ∃ context, (sqlite json).serve faults op rows = (.failed (.failure context),rows) := by
  cases op with
  | append posted =>
    cases appendFaults json faults posted.key posted.mint rows with
    | inl same => exact .inl (by simp only [Backend.serve,sqlite,same])
    | inr failed =>
      obtain ⟨context,failed⟩ := failed
      exact .inr ⟨context,by simp only [Backend.serve,sqlite,failed,answerOf]⟩
  | get id ownerId =>
    cases query : faults .query with
    | true => exact .inr ⟨"get",by simp [Backend.serve,sqlite,get,query,foundOf]⟩
    | false => exact .inl (by simp [Backend.serve,sqlite,get,query,noFaults])
  | list ownerId =>
    cases query : faults .query with
    | true => exact .inr ⟨"list",by simp [Backend.serve,sqlite,list,query,listedOf]⟩
    | false => exact .inl (by simp [Backend.serve,sqlite,list,query,noFaults])

omit [Format K] in
theorem takenReplayed {log : List (Record K)} {existing : Record K} (key : MintKey)
    (mint : ℕ → Except PourError (Record K)) (sound : Sound log)
    (found : holder (startKeys K) log (key.ownerId,key.timestampMs) = some existing) :
    append json noFaults key mint (rowsOf json log) =
      (if existing.tierIndex ≠ key.tierIndex then .error .conflict else .ok (existing,true),rowsOf json log) := by
  have looked := lookupStored json sound key
  rw [found] at looked
  by_cases tier : existing.tierIndex = key.tierIndex
  · simp [append,noFaults,looked,tier]
  · simp [append,noFaults,looked,tier]

def Holds (rows : Pours K) (log : List (Record K)) : Prop := Sound log ∧ rows = rowsOf json log

theorem sqliteRefines : Refines (sqlite json) (Holds (K := K) json) where
  start := ⟨soundEmpty,rfl⟩
  sound holds := holds.1
  serve op holds := by
    obtain ⟨sound,rfl⟩ := holds
    rw [serveLedger json op sound]
    exact ⟨rfl,soundServe sound op,rfl⟩
  taken key mint holds found := by
    obtain ⟨sound,rfl⟩ := holds
    exact takenReplayed json key mint sound found
  faults := serveFaults json

end Refinement
end MoltenPour.SqliteLedger
