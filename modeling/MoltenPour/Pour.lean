import MoltenPour.ServerPipeline
import MoltenPour.Printing

/-! api/pour/pour.go: the record, the request, and `mint`. Go's int and int64
are integers without a width: the acceptance window is checked before any
difference of timestamps is taken. -/
namespace MoltenPour.Pour
open NumberFormat Artifact Printing

structure Record (K : Type) where
  id : String
  ownerId : String
  ledgerPosition : ℕ
  tierIndex : ℤ
  amountCents : ℤ
  timestampMs : ℤ
  telemetry : Telemetry K
  violations : Option (List String)
  seed : UInt32
  rarity : Rarity
  rarityScore : Num K
  serial : String
  batch : String
  massGrams : Num K
  issued : String
  deriving DecidableEq, Repr

structure Request (K : Type) where
  tierIndex : ℤ
  timestampMs : ℤ
  telemetry : Telemetry K
  deriving DecidableEq, Repr

inductive PourError where
  | validation (detail : String)
  | conflict
  | notFound
  | failure (context : String)
  deriving DecidableEq, Repr

def PourError.text : PourError → String
  | .validation detail => "invalid pour request: " ++ detail
  | .conflict => "a different pour was already minted at this start time"
  | .notFound => "pour not found"
  | .failure context => context

structure Time where
  nanos : ℤ
  deriving DecidableEq, Repr

namespace Time

def unixMilli (t : Time) : ℤ := t.nanos / 1000000

/- Proleptic Gregorian date of a day counted from 1970-01-01. -/
def civil (days : ℤ) : ℤ × ℤ × ℤ :=
  let z := days + 719468
  let era := z / 146097
  let doe := z - era * 146097
  let yoe := (doe - doe / 1460 + doe / 36524 - doe / 146096) / 365
  let doy := doe - (365 * yoe + yoe / 4 - yoe / 100)
  let mp := (5 * doy + 2) / 153
  let day := doy - (153 * mp + 2) / 5 + 1
  let month := if mp < 10 then mp + 3 else mp - 9
  (yoe + era * 400 + (if month ≤ 2 then 1 else 0),month,day)

def year (y : ℤ) : List Char :=
  if y < 0 then '-' :: padded 4 10 y.natAbs else padded 4 10 y.natAbs

def date (t : Time) : String :=
  let (y,m,d) := civil (t.nanos / (86400 * 1000000000))
  String.ofList (year y ++ '-' :: padded 2 10 m.natAbs ++ '-' :: padded 2 10 d.natAbs)

example : date ⟨1785628800000000000⟩ = "2026-08-02" := by decide +kernel

end Time

def amountCents : Fin 6 → ℤ := ![0,299,1299,2999,5999,14900]

def maxTierIndex : ℤ := 5

def massPerDropletG : ℚ := 3.79

def maxClockSkew : ℤ := 300000

def recordId (seed : UInt32) (position : ℕ) : String :=
  String.ofList (padded 8 16 seed.toNat ++ ['-'] ++ Nat.toDigits 10 position)

def serialOf (position : ℕ) (seed : UInt32) : String :=
  String.ofList ('M' :: 'P' :: '-' :: padded 7 10 position ++
    '-' :: (padded 4 16 (seed &&& 0xffff).toNat).map Char.toUpper)

def batchOf (position : ℕ) (seed : UInt32) : String :=
  String.ofList (padded 3 10 (position % 1000) ++ ['-',Char.ofNat (65 + seed.toNat % 26)])

def outOfRange (tierIndex : ℤ) : PourError :=
  .validation ("tierIndex " ++ toString tierIndex ++ " out of range")

def outsideWindow (timestampMs : ℤ) : PourError :=
  .validation ("timestampMs " ++ toString timestampMs ++ " outside the accepted window")

section Mint
variable {K : Type} [LinearOrder K] [Zero K] [Format K]

def wallClock (timestampMs : ℤ) (now : Time) : Num K :=
  let wallClockMs : Num K := Num.literal (now.unixMilli - timestampMs : ℤ)
  if wallClockMs < 0 then 0 else wallClockMs

theorem wallClockNonneg (timestampMs : ℤ) (now : Time) : 0 ≤ wallClock (K := K) timestampMs now := by
  unfold wallClock
  dsimp only
  split
  · simp
  · rename_i positive
    rw [Num.zeroFin,Num.literal,Num.ltFin] at positive
    rw [Num.zeroFin,Num.literal,Num.leFin]
    exact not_lt.mp positive

def mint (req : Request K) (ledgerPosition : ℕ) (ownerId : String) (now : Time) :
    Except PourError (Record K) :=
  if tier : req.tierIndex < 0 ∨ req.tierIndex ≥ 6 then .error (outOfRange req.tierIndex)
  else
    let nowMs := now.unixMilli
    if req.timestampMs < nowMs - maxClockSkew ∨ req.timestampMs > nowMs + maxClockSkew then
      .error (outsideWindow req.timestampMs)
    else
      let price := amountCents ⟨req.tierIndex.toNat,by omega⟩
      let clamped := ServerPipeline.clampTelemetry req.telemetry req.tierIndex
        (wallClock req.timestampMs now)
      let seed := ServerPipeline.hashSeed ⟨req.tierIndex,price,req.timestampMs,clamped.telemetry⟩
      let violations := if clamped.violations = none then some [] else clamped.violations
      .ok {
        id := recordId seed ledgerPosition
        ownerId := ownerId
        ledgerPosition := ledgerPosition
        tierIndex := req.tierIndex
        amountCents := price
        timestampMs := req.timestampMs
        telemetry := clamped.telemetry
        violations := violations
        seed := seed
        rarity := ServerPipeline.classify clamped.telemetry req.tierIndex
        rarityScore := ServerPipeline.rarityScore clamped.telemetry req.tierIndex
        serial := serialOf ledgerPosition seed
        batch := batchOf ledgerPosition seed
        massGrams := clamped.telemetry.dropletsLanded * Num.literal massPerDropletG
        issued := now.date }

structure Accepted (req : Request K) (now : Time) : Prop where
  tier : 0 ≤ req.tierIndex ∧ req.tierIndex < 6
  window : now.unixMilli - maxClockSkew ≤ req.timestampMs ∧
    req.timestampMs ≤ now.unixMilli + maxClockSkew

instance (req : Request K) (now : Time) : Decidable (Accepted req now) :=
  decidable_of_iff ((0 ≤ req.tierIndex ∧ req.tierIndex < 6) ∧
    now.unixMilli - maxClockSkew ≤ req.timestampMs ∧ req.timestampMs ≤ now.unixMilli + maxClockSkew)
    ⟨fun h => ⟨h.1,h.2⟩,fun h => ⟨h.1,h.2⟩⟩

structure Minted (req : Request K) (position : ℕ) (ownerId : String) (now : Time) (r : Record K) :
    Prop where
  accepted : Accepted req now
  owner : r.ownerId = ownerId
  place : r.ledgerPosition = position
  tier : r.tierIndex = req.tierIndex
  price : r.amountCents = amountCents (ServerPipeline.clampTierIndex req.tierIndex)
  timestamp : r.timestampMs = req.timestampMs
  telemetry : r.telemetry = (ServerPipeline.clampTelemetry req.telemetry req.tierIndex
    (wallClock req.timestampMs now)).telemetry
  violations : r.violations = some ((ServerPipeline.clampTelemetry req.telemetry req.tierIndex
    (wallClock req.timestampMs now)).violations.getD [])
  seed : r.seed = ServerPipeline.hashSeed ⟨r.tierIndex,r.amountCents,r.timestampMs,r.telemetry⟩
  rarity : r.rarity = ServerPipeline.classify r.telemetry r.tierIndex
  score : r.rarityScore = ServerPipeline.rarityScore r.telemetry r.tierIndex
  id : r.id = recordId r.seed position
  serial : r.serial = serialOf position r.seed
  batch : r.batch = batchOf position r.seed
  mass : r.massGrams = r.telemetry.dropletsLanded * Num.literal massPerDropletG
  issued : r.issued = now.date

theorem mintAccepted {req : Request K} {now : Time} (ok : Accepted req now) (position : ℕ)
    (ownerId : String) :
    ∃ r, mint req position ownerId now = .ok r ∧ Minted req position ownerId now r := by
  obtain ⟨tier,window⟩ := ok
  have inRange : ¬ (req.tierIndex < 0 ∨ req.tierIndex ≥ 6) := by omega
  have inWindow : ¬ (req.timestampMs < now.unixMilli - maxClockSkew ∨
      req.timestampMs > now.unixMilli + maxClockSkew) := by omega
  have index : ServerPipeline.clampTierIndex req.tierIndex = ⟨req.tierIndex.toNat,by omega⟩ := by
    simp [ServerPipeline.clampTierIndex,tier.1.not_gt,tier.2.not_ge]
  unfold mint
  rw [dif_neg inRange,if_neg inWindow]
  refine ⟨_,rfl,⟨⟨tier,window⟩,rfl,rfl,rfl,by rw [index],rfl,rfl,?_,rfl,rfl,rfl,rfl,rfl,rfl,rfl,rfl⟩⟩
  cases (ServerPipeline.clampTelemetry req.telemetry req.tierIndex
    (wallClock req.timestampMs now)).violations with
  | none => rfl
  | some keys => rfl

theorem mintRefused {req : Request K} {now : Time} (no : ¬ Accepted req now) (position : ℕ)
    (ownerId : String) :
    ∃ detail, mint req position ownerId now = .error (.validation detail) := by
  unfold mint
  split
  · exact ⟨_,rfl⟩
  · rename_i tier
    dsimp only
    split
    · exact ⟨_,rfl⟩
    · rename_i window
      exact absurd ⟨by omega,by omega⟩ no

theorem mintMinted {req : Request K} {position ownerId now r}
    (ok : mint req position ownerId now = .ok r) : Minted req position ownerId now r := by
  by_cases accepted : Accepted req now
  · obtain ⟨s,hs,minted⟩ := mintAccepted accepted position ownerId
    rw [hs] at ok
    cases ok
    exact minted
  · obtain ⟨detail,refused⟩ := mintRefused accepted position ownerId
    rw [refused] at ok
    contradiction

theorem mintError {req : Request K} {position : ℕ} {ownerId : String} {now : Time} {err : PourError}
    (failed : mint req position ownerId now = .error err) : ∃ detail, err = .validation detail := by
  by_cases accepted : Accepted req now
  · obtain ⟨r,ok,-⟩ := mintAccepted accepted position ownerId
    rw [ok] at failed
    contradiction
  · obtain ⟨detail,refused⟩ := mintRefused accepted position ownerId
    rw [refused] at failed
    cases failed
    exact ⟨detail,rfl⟩

end Mint

theorem recordIdInj {s t : UInt32} {p q : ℕ} (same : recordId s p = recordId t q) : p = q := by
  have width : ∀ u : UInt32, (padded 8 16 u.toNat ++ ['-']).length = 9 := by
    intro u
    have small : u.toNat < 16 ^ 8 := u.toNat_lt
    rw [List.length_append,paddedLength (by decide) (by decide) small]
    rfl
  exact toDigitsInj (afterFixed ((width s).trans (width t).symm) same)

theorem serialInj {s t : UInt32} {p q : ℕ} (same : serialOf p s = serialOf q t) : p = q := by
  have width : ∀ u : UInt32, ('-' :: (padded 4 16 (u &&& 0xffff).toNat).map Char.toUpper).length = 5 := by
    intro u
    have small : (u &&& 0xffff).toNat < 16 ^ 4 := by
      rw [UInt32.toNat_and]
      exact Nat.and_lt_two_pow _ (by decide : (65535 : UInt32).toNat < 2 ^ 16)
    rw [List.length_cons,List.length_map,paddedLength (by decide) (by decide) small]
  have digits := beforeFixed ((width s).trans (width t).symm) same
  simp only [List.cons.injEq,true_and] at digits
  exact paddedInj digits

end MoltenPour.Pour
