import MoltenPour.Handlers
import MoltenPour.LedgerDurability

/-! What the status of a mint says about the ledger: 201 for the one record it
took, and any other for a ledger left alone. -/
namespace MoltenPour.MintStatus
open NumberFormat Pour KeyedLog Store Runs Session Handlers LedgerDurability
variable {K : Type} [LinearOrder K] [Zero K] [Format K]

structure Exchange (K : Type) where
  visit : Visit
  cookie : Option String
  ask : Ask K

def serveStep (B : Backend K) (cfg : Config) (s : B.State) (exchange : Exchange K) (t : B.State) : Prop :=
  (handle B cfg exchange.visit exchange.cookie exchange.ask s).2 = t

structure Told (kind : StoreKind) (cfg : Config) (visit : Visit) (cookie : Option String)
    (body : Except String (Request K)) (s : (kind.backend (K := K)).State) (res : Response K)
    (t : (kind.backend (K := K)).State) : Prop where
  changed : t ≠ s ↔ res.status = 201
  created : res.status = 201 → ∃ rec setCookie,
    ownerID cfg.sign cookie visit.entropy = some (rec.ownerId,setCookie) ∧ res.body = .record rec ∧
    kind.records t = kind.records s ++ [rec] ∧ rec.ledgerPosition = (kind.records s).length + 1 ∧
    0 ≤ rec.tierIndex ∧ rec.tierIndex ≤ cfg.maxTierIndex
  replayed : res.status = 200 → ∃ rec setCookie req,
    ownerID cfg.sign cookie visit.entropy = some (rec.ownerId,setCookie) ∧ body = .ok req ∧
    res.body = .record rec ∧ rec ∈ kind.records s ∧
    rec.timestampMs = req.timestampMs ∧ rec.tierIndex = req.tierIndex
  statuses : res.status = 200 ∨ res.status = 201 ∨
    res.status ∈ [400,409,429,500] ∧ ∃ message, res.body = .error message

section Kind
variable {kind : StoreKind} {cfg : Config} {visit : Visit} {cookie : Option String}
  {body : Except String (Request K)} {s : (kind.backend (K := K)).State}

omit [Zero K] [Format K] in
theorem toldQuiet {code : ℕ} {setCookie : Option String} {retryAfter : Option ℕ} {message : String}
    (status : code ∈ [400,409,429,500]) :
    Told kind cfg visit cookie body s ⟨code,setCookie,retryAfter,.error message⟩ s := by
  have other : code ≠ 201 ∧ code ≠ 200 := by
    simp only [List.mem_cons,List.not_mem_nil,or_false] at status
    omega
  exact ⟨iff_of_false (fun moved => moved rfl) other.1,fun now => absurd now other.1,
    fun now => absurd now other.2,.inr (.inr ⟨status,message,rfl⟩)⟩

variable {agrees : (kind.backend (K := K)).State → List (Record K) → Prop}
  (refines : Refines kind.backend agrees) (records : ∀ {s log}, agrees s log → kind.records s = log)
  (only : ∀ {s t log}, agrees s log → agrees t log → s = t) {log : List (Record K)}
  (agreed : agrees s log)
include refines records only agreed

theorem appendTold {ownerId : String} {setCookie : Option String} {req : Request K}
    (owned : ownerID cfg.sign cookie visit.entropy = some (ownerId,setCookie))
    (offered : req.tierIndex ≤ cfg.maxTierIndex) :
    let posted : Posted K := ⟨ownerId,req,visit.now⟩
    let done := kind.backend.append visit.faults posted.key posted.mint s
    Told kind cfg visit cookie (.ok req) s (writeMint setCookie done.1) done.2 := by
  intro posted done
  have served : kind.backend.serve visit.faults (.append posted) s = (answerOf done.1,done.2) := rfl
  obtain ⟨result,t⟩ := done
  cases refines.faults visit.faults (.append posted) s with
  | inr failed =>
    obtain ⟨context,failed⟩ := failed
    rw [failed] at served
    obtain ⟨refused,rfl⟩ := Prod.mk.inj served
    cases answerFailed refused.symm
    exact toldQuiet (by simp)
  | inl same =>
    obtain ⟨answered,next⟩ := refines.serve (.append posted) agreed
    rw [← same,served] at answered next
    generalize now : KeyedLog.append log posted.call = appended at answered next
    obtain ⟨o,log'⟩ := appended
    simp only [ledger,now] at answered next
    cases appendCases now with
    | @fresh rec free made =>
      have minted := mintMinted made
      have grown : kind.records t = kind.records s ++ [rec] := by rw [records next,records agreed]
      have moved : t ≠ s := by
        rintro rfl
        simp at grown
      cases answerAppended answered
      refine ⟨iff_of_true moved rfl,fun _ => ⟨rec,setCookie,?_,rfl,grown,?_,?_,?_⟩,by simp [writeMint],
        .inr (.inl rfl)⟩
      · rw [owned,minted.owner]
      · rw [records agreed,minted.place]
      · exact minted.tier ▸ minted.accepted.tier.1
      · exact minted.tier ▸ offered
    | @replay rec stored key tag =>
      cases only next agreed
      cases answerAppended answered
      have own : rec.ownerId = ownerId := congrArg Prod.fst key
      refine ⟨iff_of_false (fun moved => moved rfl) (by simp [writeMint]),by simp [writeMint],
        fun _ => ⟨rec,setCookie,req,?_,rfl,rfl,?_,congrArg Prod.snd key,tag⟩,.inl rfl⟩
      · rw [owned,own]
      · exact records agreed ▸ stored
    | conflict stored key tag =>
      cases only next agreed
      cases answerFailed answered
      exact toldQuiet (by simp)
    | refused free failed =>
      cases only next agreed
      obtain ⟨detail,rfl⟩ := mintError failed
      cases answerFailed answered
      exact toldQuiet (by simp)

theorem mintTold (cfg : Config) (visit : Visit) (cookie : Option String)
    (body : Except String (Request K)) :
    Told kind cfg visit cookie body s (handleMint kind.backend cfg visit cookie body s).1
      (handleMint kind.backend cfg visit cookie body s).2 := by
  unfold handleMint
  cases allowed : visit.refusedFor with
  | some wait => exact toldQuiet (by simp)
  | none =>
    cases owned : ownerID cfg.sign cookie visit.entropy with
    | none => exact toldQuiet (by simp)
    | some owner =>
      cases body with
      | error err => exact toldQuiet (by simp)
      | ok req =>
        dsimp only
        split
        · exact toldQuiet (by simp)
        · next offered => exact appendTold refines records only agreed owned (not_lt.mp offered)

theorem serveOffered (cfg : Config) (exchange : Exchange K)
    (tiers : ∀ r ∈ kind.records s, 0 ≤ r.tierIndex ∧ r.tierIndex ≤ cfg.maxTierIndex)
    {t : (kind.backend (K := K)).State} (now : serveStep kind.backend cfg s exchange t) :
    (∃ log', agrees t log') ∧ ∀ r ∈ kind.records t, 0 ≤ r.tierIndex ∧ r.tierIndex ≤ cfg.maxTierIndex := by
  obtain ⟨visit,cookie,ask⟩ := exchange
  obtain ⟨log',-,next⟩ := handleStep refines agreed cfg visit cookie ask
  cases now
  refine ⟨⟨log',next⟩,?_⟩
  cases ask with
  | list => exact tiers
  | get id => exact tiers
  | mint body =>
    have told := mintTold refines records only agreed cfg visit cookie body
    by_cases created : (handleMint kind.backend cfg visit cookie body s).1.status = 201
    · obtain ⟨rec,setCookie,-,-,grown,-,offered⟩ := told.created created
      intro r mem
      have stored : r ∈ kind.records s ++ [rec] := grown ▸ mem
      cases List.mem_append.mp stored with
      | inl old => exact tiers r old
      | inr new => exact List.mem_singleton.mp new ▸ offered
    · have still : (handleMint kind.backend cfg visit cookie body s).2 = s :=
        not_not.mp (told.changed.not.mpr created)
      exact fun r mem => tiers r (still ▸ mem)

end Kind

theorem statusTells (kind : StoreKind) (cfg : Config) {exchanges : List (Exchange K)}
    {s : (kind.backend (K := K)).State}
    (run : Run (serveStep kind.backend cfg) kind.backend.empty exchanges s) :
    (∀ r ∈ kind.records s, 0 ≤ r.tierIndex ∧ r.tierIndex ≤ cfg.maxTierIndex) ∧
    ∀ (visit : Visit) (cookie : Option String) (body : Except String (Request K)),
      Told kind cfg visit cookie body s (handleMint kind.backend cfg visit cookie body s).1
        (handleMint kind.backend cfg visit cookie body s).2 := by
  obtain ⟨agrees,refines,records,only⟩ := kindHolds (K := K) kind
  have start : ∀ r ∈ kind.records (kind.backend (K := K)).empty,
      0 ≤ r.tierIndex ∧ r.tierIndex ≤ cfg.maxTierIndex := by
    rw [records refines.start]
    simp
  have kept : (∃ log, agrees s log) ∧
      ∀ r ∈ kind.records s, 0 ≤ r.tierIndex ∧ r.tierIndex ≤ cfg.maxTierIndex := by
    refine run.invariant (fun s => (∃ log, agrees s log) ∧
      ∀ r ∈ kind.records s, 0 ≤ r.tierIndex ∧ r.tierIndex ≤ cfg.maxTierIndex) ?_ ⟨⟨[],refines.start⟩,start⟩
    intro s exchange t kept now
    obtain ⟨⟨log,agreed⟩,tiers⟩ := kept
    exact serveOffered refines records only agreed cfg exchange tiers now
  obtain ⟨⟨log,agreed⟩,tiers⟩ := kept
  exact ⟨tiers,fun visit cookie body => mintTold refines records only agreed cfg visit cookie body⟩

def firstMint : Request (BinaryFormat.Rounded 53) := ⟨2,1000,⟨12,300,1,900⟩⟩

def firstVisit : Visit := ⟨none,constantDraw 7,⟨2000000000⟩,noFaults⟩

theorem statusTellsTwice :
    let cfg : Config := ⟨fun id => id ++ "!",5⟩
    let ledger := StoreKind.memory.backend (K := BinaryFormat.Rounded 53)
    let first := handleMint ledger cfg firstVisit none (.ok firstMint) ledger.empty
    let second := handleMint ledger cfg firstVisit first.1.setCookie (.ok firstMint) first.2
    first.1.status = 201 ∧ second.1.status = 200 ∧
      Told .memory cfg firstVisit first.1.setCookie (.ok firstMint) first.2 second.1 second.2 := by
  intro cfg ledger first second
  have minted : first.1.status = 201 := by decide +kernel
  have replayed : second.1.status = 200 := by decide +kernel
  have run : Run (serveStep ledger cfg) ledger.empty [⟨firstVisit,none,.mint (.ok firstMint)⟩] first.2 :=
    .single rfl
  exact ⟨minted,replayed,(statusTells .memory cfg run).2 firstVisit first.1.setCookie (.ok firstMint)⟩

end MoltenPour.MintStatus
