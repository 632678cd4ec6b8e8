import MoltenPour.LedgerDurability

/-! Two ledgers that agree on one owner's records and on nothing else answer that
owner alike. What an answer depends on is the owner's own part of the ledger. -/
namespace MoltenPour.OwnerIsolation
open NumberFormat Pour KeyedLog Store Runs SqliteLedger LedgerDurability
variable {K : Type}

def held (ownerId : String) (log : List (Record K)) : List (Record K) :=
  log.filter fun r => r.ownerId = ownerId

/- One pour minted at two places of two ledgers. -/
structure SamePour (a b : Record K) : Prop where
  owner : a.ownerId = b.ownerId
  tier : a.tierIndex = b.tierIndex
  price : a.amountCents = b.amountCents
  timestamp : a.timestampMs = b.timestampMs
  telemetry : a.telemetry = b.telemetry
  violations : a.violations = b.violations
  seed : a.seed = b.seed
  rarity : a.rarity = b.rarity
  score : a.rarityScore = b.rarityScore
  mass : a.massGrams = b.massGrams
  issued : a.issued = b.issued

inductive SameBranch : Answer K → Answer K → Prop where
  | replay (rec) : SameBranch (.appended rec true) (.appended rec true)
  | conflict : SameBranch (.failed .conflict) (.failed .conflict)
  | invalid (detail) : SameBranch (.failed (.validation detail)) (.failed (.validation detail))
  | fresh {a b} (same : SamePour a b) : SameBranch (.appended a false) (.appended b false)

variable [LinearOrder K] [Zero K] [Format K]

theorem mintRefusedAlike {req : Request K} {position other : ℕ} {ownerId : String} {now : Time}
    {err : PourError} (failed : mint req position ownerId now = .error err) :
    mint req other ownerId now = .error err := by
  unfold mint at failed ⊢
  split
  · next tier =>
    rw [dif_pos tier] at failed
    exact failed
  · next tier =>
    rw [dif_neg tier] at failed
    dsimp only at failed ⊢
    split
    · next window =>
      rw [if_pos window] at failed
      exact failed
    · next window =>
      rw [if_neg window] at failed
      contradiction

theorem mintedAlike {req : Request K} {position other : ℕ} {ownerId : String} {now : Time}
    {a b : Record K} (left : Minted req position ownerId now a) (right : Minted req other ownerId now b) :
    SamePour a b := by
  have tier := left.tier.trans right.tier.symm
  have price := left.price.trans right.price.symm
  have timestamp := left.timestamp.trans right.timestamp.symm
  have telemetry := left.telemetry.trans right.telemetry.symm
  refine ⟨left.owner.trans right.owner.symm,tier,price,timestamp,telemetry,
    left.violations.trans right.violations.symm,?seed,?rarity,?score,?mass,
    left.issued.trans right.issued.symm⟩
  case seed => rw [left.seed,right.seed,tier,price,timestamp,telemetry]
  case rarity => rw [left.rarity,right.rarity,tier,telemetry]
  case score => rw [left.score,right.score,tier,telemetry]
  case mass => rw [left.mass,right.mass,telemetry]

section Ledger
variable {left right : List (Record K)} {ownerId : String} (same : held ownerId left = held ownerId right)
include same

omit [LinearOrder K] [Zero K] [Format K] in
theorem findAlike (p : Record K → Bool) :
    (left.find? fun r => p r ∧ r.ownerId = ownerId) = right.find? fun r => p r ∧ r.ownerId = ownerId := by
  have own : ∀ log : List (Record K),
      (log.find? fun r => p r ∧ r.ownerId = ownerId) = (held ownerId log).find? p := by
    intro log
    rw [held,List.find?_filter]
    exact congrArg (fun q => log.find? q) (funext fun r => by simp [Bool.and_comm])
  rw [own,own,same]

omit [LinearOrder K] [Zero K] [Format K] in
theorem holderAlike (timestampMs : ℤ) : holder (startKeys K) left (ownerId,timestampMs) =
    holder (startKeys K) right (ownerId,timestampMs) := by
  have start : ∀ log : List (Record K), holder (startKeys K) log (ownerId,timestampMs) =
      log.find? fun r => decide (r.timestampMs = timestampMs) ∧ r.ownerId = ownerId := by
    intro log
    exact congrArg (fun q => log.find? q) (funext fun r => by simp [startKeys,and_comm])
  rw [start,start,findAlike same]

theorem appendAlike {posted : Posted K} (own : posted.ownerId = ownerId) :
    SameBranch (ledger (.append posted) left).1 (ledger (.append posted) right).1 := by
  have looked : holder (startKeys K) left posted.call.key = holder (startKeys K) right posted.call.key := by
    have key : posted.call.key = (ownerId,posted.req.timestampMs) := Prod.ext own rfl
    rw [key]
    exact holderAlike same _
  simp only [ledger,KeyedLog.append,looked]
  cases found : holder (startKeys K) right posted.call.key with
  | some existing =>
    dsimp only
    split
    · exact .replay existing
    · exact .conflict
  | none =>
    cases first : posted.call.make (left.length + 1) with
    | error err =>
      have second : posted.call.make (right.length + 1) = .error err := mintRefusedAlike first
      obtain ⟨detail,rfl⟩ := mintError first
      rw [second]
      exact .invalid detail
    | ok a =>
      cases second : posted.call.make (right.length + 1) with
      | error err =>
        have refused : posted.call.make (left.length + 1) = .error err := mintRefusedAlike second
        rw [refused] at first
        contradiction
      | ok b => exact .fresh (mintedAlike (mintMinted first) (mintMinted second))

theorem getAlike (id : String) :
    (ledger (.get id ownerId) left).1 = (ledger (.get id ownerId) right).1 := by
  have found := findAlike same fun r => decide (r.id = id)
  simp only [decide_eq_true_eq] at found
  simp only [ledger,found]
  cases right.find? fun r => r.id = id ∧ r.ownerId = ownerId <;> rfl

theorem listAlike : (ledger (.list ownerId) left).1 = (ledger (.list ownerId) right).1 := by
  have own : ∀ log : List (Record K),
      (ledger (.list ownerId) log).1 = .listed (held ownerId log).reverse := fun log => rfl
  rw [own,own,same]

end Ledger

theorem heldElse {op : Op K} {ownerId : String} (other : op.owner ≠ ownerId) (log : List (Record K)) :
    held ownerId (ledger op log).2 = held ownerId log := by
  cases ledgerNext op log with
  | inl still => rw [still]
  | inr grown =>
    obtain ⟨posted,rec,rfl,made,grown⟩ := grown
    have foreign : rec.ownerId ≠ ownerId := by
      rw [(mintMinted made).owner]
      exact other
    simp [grown,held,foreign]

structure SameAnswers (ownerId : String) (left right : StoreKind) (s : (left.backend (K := K)).State)
    (t : (right.backend (K := K)).State) : Prop where
  get : ∀ id, (left.backend.serve noFaults (.get id ownerId) s).1 =
    (right.backend.serve noFaults (.get id ownerId) t).1
  list : (left.backend.serve noFaults (.list ownerId) s).1 =
    (right.backend.serve noFaults (.list ownerId) t).1
  append : ∀ posted : Posted K, posted.ownerId = ownerId →
    SameBranch (left.backend.serve noFaults (.append posted) s).1
      (right.backend.serve noFaults (.append posted) t).1

theorem stepServes {B : Backend K} (faults : Faults) (op : Op K) (s : B.State) :
    step B s ⟨faults,op,(B.serve faults op s).1⟩ (B.serve faults op s).2 := rfl

theorem runHolds {kind : StoreKind} {history : List (Event K)} {s : (kind.backend (K := K)).State}
    (run : Run (step kind.backend) kind.backend.empty history s) :
    ∃ agrees, Refines (kind.backend (K := K)) agrees ∧ agrees s (kind.records s) := by
  obtain ⟨agrees,refines,records,-⟩ := kindHolds (K := K) kind
  obtain ⟨log,-,agreed⟩ := runServed refines refines.start run
  exact ⟨agrees,refines,(records agreed).symm ▸ agreed⟩

theorem answersAlike {left right : StoreKind} {history events : List (Event K)}
    {s : (left.backend (K := K)).State} {t : (right.backend (K := K)).State} {ownerId : String}
    (first : Run (step left.backend) left.backend.empty history s)
    (second : Run (step right.backend) right.backend.empty events t)
    (same : held ownerId (left.records s) = held ownerId (right.records t)) :
    SameAnswers ownerId left right s t := by
  obtain ⟨_,refines,agreed⟩ := runHolds first
  obtain ⟨_,others,also⟩ := runHolds second
  refine ⟨?get,?list,?append⟩
  case get =>
    intro id
    rw [(refines.serve _ agreed).1,(others.serve _ also).1]
    exact getAlike same id
  case list =>
    rw [(refines.serve _ agreed).1,(others.serve _ also).1]
    exact listAlike same
  case append =>
    intro posted own
    rw [(refines.serve _ agreed).1,(others.serve _ also).1]
    exact appendAlike same own

theorem silentElse {kind : StoreKind} {history : List (Event K)} {s : (kind.backend (K := K)).State}
    {ownerId : String} (run : Run (step kind.backend) kind.backend.empty history s) (faults : Faults)
    {op : Op K} (other : op.owner ≠ ownerId) :
    SameAnswers ownerId kind kind (kind.backend.serve faults op s).2 s := by
  refine answersAlike (.next run (stepServes faults op s)) run ?_
  obtain ⟨agrees,refines,records,-⟩ := kindHolds (K := K) kind
  obtain ⟨log,-,agreed⟩ := runServed refines refines.start run
  cases refines.faults faults op s with
  | inr failed =>
    obtain ⟨context,failed⟩ := failed
    rw [failed]
  | inl served =>
    rw [served,records agreed,records (refines.serve op agreed).2]
    exact heldElse other log

theorem unheldMissing {kind : StoreKind} {history : List (Event K)} {s : (kind.backend (K := K)).State}
    {ownerId id : String} (run : Run (step kind.backend) kind.backend.empty history s)
    (foreign : ∀ r ∈ kind.records s, r.id = id → r.ownerId ≠ ownerId) :
    (kind.backend.serve noFaults (.get id ownerId) s).1 = .failed .notFound := by
  obtain ⟨_,refines,agreed⟩ := runHolds run
  have missing : (kind.records s).find? (fun r => r.id = id ∧ r.ownerId = ownerId) = none :=
    List.find?_eq_none.mpr (by simpa using foreign)
  rw [(refines.serve _ agreed).1]
  simp only [ledger,missing]

theorem ownersApart (left right : StoreKind) {history events : List (Event K)}
    {s : (left.backend (K := K)).State} {t : (right.backend (K := K)).State} {ownerId : String}
    (first : Run (step left.backend) left.backend.empty history s)
    (second : Run (step right.backend) right.backend.empty events t)
    (same : held ownerId (left.records s) = held ownerId (right.records t)) :
    SameAnswers ownerId left right s t ∧
    (∀ id, (∀ r ∈ left.records s, r.id = id → r.ownerId ≠ ownerId) →
      (left.backend.serve noFaults (.get id ownerId) s).1 = .failed .notFound) ∧
    ∀ (faults : Faults) (op : Op K), op.owner ≠ ownerId →
      SameAnswers ownerId left left (left.backend.serve faults op s).2 s :=
  ⟨answersAlike first second same,fun _ foreign => unheldMissing first foreign,
    fun faults _ other => silentElse first faults other⟩

def pourOf (ownerId : String) : Posted (BinaryFormat.Rounded 53) :=
  ⟨ownerId,⟨3,1000,⟨40,900,2,2500⟩⟩,⟨4000000000⟩⟩

theorem ownersApartOnce :
    let left := StoreKind.memory.backend (K := BinaryFormat.Rounded 53)
    let right := (StoreKind.sqlite encodingJson).backend (K := BinaryFormat.Rounded 53)
    SameAnswers "visitor" .memory (.sqlite encodingJson)
      (left.serve noFaults (.append (pourOf "visitor")) left.empty).2
      (right.serve noFaults (.append (pourOf "stranger"))
        (right.serve noFaults (.append (pourOf "visitor")) right.empty).2).2 := by
  intro left right
  have first := Run.single (stepServes (B := left) noFaults (.append (pourOf "visitor")) left.empty)
  have second := Run.single (stepServes (B := right) noFaults (.append (pourOf "visitor")) right.empty)
  refine (ownersApart .memory (.sqlite encodingJson) first
    (.next second (stepServes noFaults (.append (pourOf "stranger")) _)) ?_).1
  decide +kernel

end MoltenPour.OwnerIsolation
