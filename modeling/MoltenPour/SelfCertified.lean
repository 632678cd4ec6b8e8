import MoltenPour.ClampProjection
import MoltenPour.LedgerDurability

/-! A record is enough to derive everything on its certificate again: what every
reachable ledger stores and every answer shows. The clamp is idempotent, given
that rounding up keeps the sign. -/
namespace MoltenPour.SelfCertified
open NumberFormat Artifact Pour Store Runs SqliteLedger LedgerDurability
variable {K : Type} [LinearOrder K] [Zero K] [Format K]

def CeilSigned (K : Type) [LinearOrder K] [Zero K] [Format K] : Prop :=
  ∀ a : K, 0 ≤ a → 0 ≤ Format.ceil a

structure Derived (r : Record K) : Prop where
  tier : 0 ≤ r.tierIndex ∧ r.tierIndex < 6
  price : r.amountCents = amountCents (ServerPipeline.clampTierIndex r.tierIndex)
  seed : r.seed = ServerPipeline.hashSeed ⟨r.tierIndex,r.amountCents,r.timestampMs,r.telemetry⟩
  score : r.rarityScore = ServerPipeline.rarityScore r.telemetry r.tierIndex
  rarity : r.rarity = ServerPipeline.classify r.telemetry r.tierIndex
  mass : r.massGrams = r.telemetry.dropletsLanded * Num.literal massPerDropletG
  id : r.id = recordId r.seed r.ledgerPosition
  serial : r.serial = serialOf r.ledgerPosition r.seed
  batch : r.batch = batchOf r.ledgerPosition r.seed
  settled : ∀ wallClockMs : Num K, r.telemetry.holdMs ≤ wallClockMs →
    ServerPipeline.clampTelemetry r.telemetry r.tierIndex wallClockMs = ⟨r.telemetry,none⟩

theorem mintDerived (ceils : CeilSigned K) {req : Request K} {position : ℕ} {ownerId : String}
    {now : Time} {r : Record K} (ok : mint req position ownerId now = .ok r) : Derived r := by
  have minted := mintMinted ok
  refine ⟨?tier,?price,minted.seed,minted.score,minted.rarity,minted.mass,?id,?serial,?batch,?settled⟩
  case tier =>
    rw [minted.tier]
    exact minted.accepted.tier
  case price => rw [minted.tier,minted.price]
  case id => rw [minted.id,minted.place]
  case serial => rw [minted.serial,minted.place]
  case batch => rw [minted.batch,minted.place]
  case settled =>
    intro again covered
    rw [minted.telemetry] at covered ⊢
    rw [minted.tier]
    exact ClampProjection.clampSettled ceils _ _ (wallClockNonneg ..) covered

section Run
variable {B : Backend K} {agrees : B.State → List (Record K) → Prop} (refines : Refines B agrees)
  {P : Record K → Prop} (fresh : ∀ {req : Request K} {position ownerId now r},
    mint req position ownerId now = .ok r → P r)
include refines fresh

theorem serveStored {s : B.State} {log : List (Record K)} (agreed : agrees s log)
    (all : ∀ r ∈ log, P r) (faults : Faults) (op : Op K) :
    (∃ log', agrees (B.serve faults op s).2 log' ∧ ∀ r ∈ log', P r) ∧
      ∀ r ∈ (B.serve faults op s).1.records, P r := by
  cases refines.faults faults op s with
  | inr failed =>
    obtain ⟨context,failed⟩ := failed
    rw [failed]
    exact ⟨⟨log,agreed,all⟩,by simp [Answer.records]⟩
  | inl same =>
    obtain ⟨answered,next⟩ := refines.serve op agreed
    have stored : ∀ r ∈ (ledger op log).2, P r := by
      intro r mem
      cases ledgerNext op log with
      | inl still => exact all r (still ▸ mem)
      | inr grown =>
        obtain ⟨posted,rec,-,made,grown⟩ := grown
        rw [grown] at mem
        cases List.mem_append.mp mem with
        | inl old => exact all r old
        | inr new => exact List.mem_singleton.mp new ▸ fresh made
    rw [same]
    refine ⟨⟨_,next,stored⟩,?_⟩
    rw [answered]
    exact fun r shown => stored r (ledgerAnswered op log r shown)

theorem runStored {state : B.State} {history : List (Event K)}
    (run : Run (step B) B.empty history state) : ∃ log, agrees state log ∧ ∀ r ∈ log, P r := by
  refine run.invariant (fun s => ∃ log, agrees s log ∧ ∀ r ∈ log, P r) ?_ ⟨[],refines.start,by simp⟩
  intro s event t kept now
  obtain ⟨log,agreed,all⟩ := kept
  unfold step at now
  have next := (serveStored refines fresh agreed all event.faults event.op).1
  rw [now] at next
  exact next

theorem answersStored {state : B.State} {history : List (Event K)}
    (run : Run (step B) B.empty history state) (faults : Faults) (op : Op K) :
    ∀ r ∈ (B.serve faults op state).1.records, P r := by
  obtain ⟨log,agreed,all⟩ := runStored refines fresh run
  exact (serveStored refines fresh agreed all faults op).2

end Run

section Exact
variable {Q : Type} [Field Q] [LinearOrder Q] [IsStrictOrderedRing Q] [FloorRing Q] [SquareRoot Q]

theorem recordsDerived (kind : StoreKind) {history : List (Event Q)}
    {state : (kind.backend (K := Q)).State} (run : Run (step kind.backend) kind.backend.empty history state)
    (faults : Faults) (op : Op Q) :
    ∀ r ∈ (kind.backend.serve faults op state).1.records, Derived r := by
  obtain ⟨agrees,refines⟩ := kindRefines (K := Q) kind
  exact answersStored refines (fun ok => mintDerived ClampAgreement.exactCeil ok) run faults op

end Exact

def firstPour : Posted ℚ := ⟨"visitor",⟨2,1000,⟨7,50,3,900⟩⟩,⟨2000000000⟩⟩

theorem firstDerived :
    ∃ r, ((StoreKind.sqlite encodingJson).backend.serve noFaults (.append firstPour)
      (StoreKind.sqlite encodingJson).backend.empty).1 = .appended r false ∧ Derived r := by
  obtain ⟨agrees,refines⟩ := kindRefines (K := ℚ) (.sqlite encodingJson)
  have accepted : Accepted firstPour.req firstPour.now := ⟨by decide,by decide⟩
  have free : ∀ r ∈ ([] : List (Record ℚ)), (startKeys ℚ).key r ≠ firstPour.start := by simp
  obtain ⟨r,minted⟩ := freeMints refines refines.start free accepted
  refine ⟨r,minted,?_⟩
  refine recordsDerived (.sqlite encodingJson) .rest noFaults (.append firstPour) r ?_
  rw [minted]
  exact List.mem_singleton.mpr rfl

end MoltenPour.SelfCertified
