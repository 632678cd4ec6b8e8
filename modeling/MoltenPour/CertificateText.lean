import MoltenPour.AnswerText
import MoltenPour.Sigil
import MoltenPour.SeedWords
import MoltenPour.WholeScore

/-! What the sheet and the register print: the formatters of app/pour/record.ts and
app/ceremony/tiers.ts, the rows of app/certificate/Certificate.tsx and the totals of
app/collection/Gallery.tsx. toFixed and toString are those of numbers below 1e21. -/
namespace MoltenPour.CertificateText
open NumberFormat BinaryRounding BinaryFormat ShortestDecimal PipelineAgreement Artifact Pour Printing AnswerText
open Sigil (Fixed)

section Numbers

def printed (infinity : String) (text : Double → String) : Num Double → String
  | .nan => "NaN"
  | .inf negative => if negative then "-" ++ infinity else infinity
  | .fin x => text x

def toFixed (digits : ℕ) : Num Double → String :=
  printed "Infinity" fun x => (Sigil.toFixed digits x.val).text

def wholeText : Num Double → String := printed "Infinity" fun x => toString ⌊x.val⌋

def commas : List Char → List Char
  | a::b::c::d::rest => a::b::c:: ',' ::commas (d::rest)
  | few => few

def grouped (n : ℕ) : List Char := (commas (Nat.toDigits 10 n).reverse).reverse

def thousandths (n : ℕ) : List Char :=
  if n = 0 then [] else '.' :: ((padded 3 10 n).reverse.dropWhile (· = '0')).reverse

/- toLocaleString("en-US"): three decimals at most, the nearest, a half away from zero. -/
def toLocaleString : Num Double → String :=
  printed "∞" fun x =>
    let scaled := ⌊|x.val| * 1000 + 1 / 2⌋.toNat
    String.ofList ((if x.val < 0 then ['-'] else []) ++ grouped (scaled / 1000) ++ thousandths (scaled % 1000))

end Numbers

section Formatters

def formatMass (grams : Num Double) : String := toFixed 2 grams ++ " g"

def formatLedgerPosition (position : Num Double) : String := "No. " ++ toLocaleString position

def formatOrdinal (position : Num Double) : String := "№" ++ toLocaleString position

def formatUSD (amountCents : Num Double) : String := "USD " ++ toFixed 2 (amountCents / 100)

def formatConsideration (amountCents : Num Double) : String :=
  if amountCents ≤ 0 then "Free" else formatUSD amountCents

def substance : Rarity → String
  | .common => "Brass"
  | .uncommon => "Gold"
  | .rare => "Alloy"
  | .singular => "Living Metal"

def rows (pour : PourRecord) : List (String × String) := [
  ("Serial",pour.serial),
  ("Ledger position",formatLedgerPosition pour.ledgerPosition),
  ("Substance",substance pour.rarity),
  ("Classification",pour.rarity.text ++ " · " ++ wholeText (ClientPipeline.mathRound pour.rarityScore)),
  ("Mass rendered irrecoverable",formatMass pour.massGrams),
  ("Batch",pour.batch),
  ("Consideration",formatConsideration pour.amountCents),
  ("Issued",pour.issued)]

def totalCents (pours : List PourRecord) : Num Double := pours.foldl (fun sum p => sum + p.amountCents) 0

end Formatters

section Grouping

theorem commasBack (digits : List Char) : (commas digits).filter (· ≠ ',') = digits.filter (· ≠ ',') := by
  induction digits using commas.induct with
  | case1 a b c d rest ih =>
    have split : commas (a::b::c::d::rest) = [a,b,c] ++ ',' :: commas (d::rest) := rfl
    have comma : (',' :: commas (d::rest)).filter (· ≠ ',') = (d::rest).filter (· ≠ ',') := by
      rw [List.filter_cons_of_neg (by simp),ih]
    rw [split,List.filter_append,comma,← List.filter_append]
    rfl
  | case2 few short =>
    rw [commas]
    exact short

theorem groupedInj {a b : ℕ} (same : grouped a = grouped b) : a = b := by
  have plain : ∀ n : ℕ, (grouped n).filter (· ≠ ',') = Nat.toDigits 10 n := by
    intro n
    have digits : ∀ c ∈ Nat.toDigits 10 n, decide (c ≠ ',') = true := by
      intro c mem
      refine decide_eq_true fun comma => ?_
      have digit := JsonTokens.digitsOf c mem
      rw [comma] at digit
      contradiction
    rw [grouped,List.filter_reverse,commasBack,List.filter_reverse,List.reverse_reverse,
      List.filter_eq_self.mpr digits]
  exact toDigitsInj (by rw [← plain a,← plain b,same])

end Grouping

section Exact

theorem roundWithin (q : ℚ) : |round 53 q - q| ≤ 2 ^ grain 53 q / 2 := by
  have positive : (0 : ℚ) < 2 ^ grain 53 q := by positivity
  have near := nearestEvenWithin (q / 2 ^ grain 53 q)
  have scaled : round 53 q - q = (nearestEven (q / 2 ^ grain 53 q) - q / 2 ^ grain 53 q) * 2 ^ grain 53 q := by
    rw [sub_mul,div_mul_cancel₀ q positive.ne']
    rfl
  rw [scaled,abs_mul,abs_of_pos positive]
  linarith [mul_le_mul_of_nonneg_right near positive.le]

theorem roundClose {q : ℚ} (nonneg : 0 ≤ q) {k : ℤ} (small : q < 2 ^ k) :
    |round 53 q - q| ≤ 2 ^ (k - 54) := by
  cases nonneg.eq_or_lt with
  | inl zero =>
    rw [← zero,roundOfFits (by decide) (fitsZero 53),sub_zero,abs_zero]
    positivity
  | inr positive =>
    have binade : Int.log 2 |q| < k := by
      rw [abs_of_pos positive]
      exact (Int.lt_zpow_iff_log_lt (by decide) positive).mp (by exact_mod_cast small)
    refine (roundWithin q).trans ?_
    calc (2 : ℚ) ^ grain 53 q / 2 = 2 ^ (grain 53 q - 1) := by rw [zpow_sub_one₀ two_ne_zero,div_eq_mul_inv]
      _ ≤ 2 ^ (k - 54) := zpow_le_zpow_right₀ one_le_two (by unfold grain; push_cast; omega)

theorem hundredthsPrinted {x : Double} {n : ℕ} (nonneg : 0 ≤ x.val) (near : |x.val - n / 100| < 1 / 200) :
    toFixed 2 (.fin x) = (⟨false,n,2⟩ : Fixed).text := by
  obtain ⟨low,high⟩ := abs_lt.mp near
  have scaled : ⌊|x.val| * (Rat.cast (10 ^ 2 : ℚ) : ℚ) + (Rat.cast (1 / 2 : ℚ) : ℚ)⌋ = n := by
    rw [abs_of_nonneg nonneg,Rat.cast_id,Rat.cast_id,Int.floor_eq_iff]
    push_cast
    constructor <;> linarith
  have same : Sigil.toFixed 2 x.val = ⟨false,n,2⟩ := by
    rw [Sigil.toFixed,scaled,Int.toNat_natCast,decide_eq_false nonneg.not_gt]
  exact congrArg Fixed.text same

theorem wholePrinted {n : ℕ} (small : n ≤ 2 ^ 53) :
    toLocaleString (Num.literal n) = String.ofList (grouped n) := by
  have value : (Format.literal (n : ℚ) : Double).val = n := SeedWords.literalNat small
  have scaled : ⌊|(Format.literal (n : ℚ) : Double).val| * 1000 + 1 / 2⌋ = (n * 1000 : ℕ) := by
    rw [value,abs_of_nonneg (Nat.cast_nonneg n),Int.floor_eq_iff]
    push_cast
    constructor <;> linarith
  have sign : ¬ (Format.literal (n : ℚ) : Double).val < 0 := by
    rw [value]
    exact (Nat.cast_nonneg n).not_gt
  simp only [toLocaleString,Num.literal,printed,scaled,Int.toNat_natCast,if_neg sign,List.nil_append]
  rw [Nat.mul_div_cancel _ (by decide),Nat.mul_mod_left]
  simp [thousandths]

theorem usdPrinted {cents : ℕ} (small : cents < 2 ^ 52) :
    formatUSD (Num.literal cents) = "USD " ++ (⟨false,cents,2⟩ : Fixed).text := by
  have value : (Format.literal (cents : ℚ) : Double).val = cents := SeedWords.literalNat (by omega)
  have hundred : (Format.literal (100 : ℚ) : Double).val = 100 := by
    exact_mod_cast ofInt64 (n := 100) (by decide)
  have nonzero : (Format.literal (100 : ℚ) : Double) ≠ 0 := (Format.literalPos (by norm_num)).ne'
  have quotient : (Num.literal cents / 100 : Num Double) =
      .fin (Rounded.of 53 ((Format.literal (cents : ℚ) : Double).val / (Format.literal (100 : ℚ) : Double).val)) :=
    Num.divFin _ nonzero
  rw [value,hundred] at quotient
  rw [formatUSD,quotient]
  congr 1
  have nonneg : (0 : ℚ) ≤ cents / 100 := by positivity
  have under : (cents : ℚ) / 100 < 2 ^ (46 : ℤ) := by
    have bound : (cents : ℚ) < 2 ^ 52 := by exact_mod_cast small
    rw [div_lt_iff₀ (by norm_num)]
    exact bound.trans (by norm_num)
  refine hundredthsPrinted (fitsLeRound (by decide) (fitsZero 53) nonneg) ?_
  exact (roundClose nonneg under).trans_lt (by norm_num)

theorem massPrinted {n : ℕ} (small : n ≤ 1020) :
    formatMass (Num.literal n * Num.literal massPerDropletG) = (⟨false,379 * n,2⟩ : Fixed).text ++ " g" := by
  -- 3.79 is not a double, and so many droplets' mass is not either; its hundredths are.
  have value : (Format.literal (n : ℚ) : Double).val = n := SeedWords.literalNat (by omega)
  have product : (Num.literal n * Num.literal massPerDropletG : Num Double) =
      .fin (Rounded.of 53 ((Format.literal (n : ℚ) : Double).val * round 53 massPerDropletG)) := rfl
  rw [value] at product
  rw [formatMass,product]
  congr 1
  have drop : 0 < massPerDropletG ∧ massPerDropletG < 2 ^ (2 : ℤ) ∧ massPerDropletG = 379 / 100 := by
    norm_num [massPerDropletG]
  obtain ⟨low,high⟩ := abs_le.mp (roundClose drop.1.le drop.2.1)
  generalize round 53 massPerDropletG = gram at low high
  rw [drop.2.2] at low high
  norm_num at low high
  have count : (n : ℚ) ≤ 1020 := by exact_mod_cast small
  have some : (0 : ℚ) ≤ n := Nat.cast_nonneg n
  have least : 0 < gram := by linarith
  have nonneg : 0 ≤ (n : ℚ) * gram := mul_nonneg some least.le
  have most : (n : ℚ) * gram < 2 ^ (12 : ℤ) := by
    have bound := mul_le_mul count (by linarith : gram ≤ 3.8) least.le (by norm_num)
    norm_num at bound ⊢
    linarith
  have near : |(n : ℚ) * gram - (379 * n : ℕ) / 100| ≤ 1 / 1000 := by
    have apart : (n : ℚ) * gram - (379 * n : ℕ) / 100 = n * (gram - 379 / 100) := by
      push_cast
      ring
    rw [apart,abs_mul,abs_of_nonneg some]
    have close : |gram - 379 / 100| ≤ 1 / 1020000 := abs_le.mpr ⟨by linarith,by linarith⟩
    calc (n : ℚ) * |gram - 379 / 100| ≤ 1020 * (1 / 1020000) :=
          mul_le_mul count close (abs_nonneg _) (by norm_num)
      _ = 1 / 1000 := by norm_num
  have rounded : |(Rounded.of 53 ((n : ℚ) * gram)).val - n * gram| ≤ 1 / 1000 :=
    (roundClose nonneg most).trans (by norm_num)
  refine hundredthsPrinted (fitsLeRound (by decide) (fitsZero 53) nonneg) ?_
  calc |(Rounded.of 53 ((n : ℚ) * gram)).val - (379 * n : ℕ) / 100|
      ≤ |(Rounded.of 53 ((n : ℚ) * gram)).val - n * gram| + |(n : ℚ) * gram - (379 * n : ℕ) / 100| :=
        abs_sub_le ..
    _ < 1 / 200 := by linarith

end Exact

section Sheet

theorem ceilingWhole (raw : Telemetry Double) (tierIndex : ℤ) {wallClockMs : Num Double} (nonneg : 0 ≤ wallClockMs) :
    ∃ most : ℕ, most ≤ 1020 ∧
      (ServerPipeline.dropletCeiling tierIndex (ServerPipeline.heldS raw wallClockMs) : Double).val = most := by
  have flow : Between 0 34 (Format.literal (ServerPipeline.tierFlow (ServerPipeline.clampTierIndex tierIndex)) : Double) := by
    refine literalBetween (by exact_mod_cast ServerPipeline.flowNonneg tierIndex) ?_ (by decide)
    generalize ServerPipeline.clampTierIndex tierIndex = tier
    fin_cases tier <;> norm_num [ServerPipeline.tierFlow]
  have tolerance : Between 0 2 (Format.literal ServerPipeline.simDropletTolerar : Double) :=
    literalBetween (by norm_num [ServerPipeline.simDropletTolerar]) (by norm_num [ServerPipeline.simDropletTolerar])
      (by decide)
  have room := betweenMul (betweenMul flow (heldSBetween raw nonneg) (by decide)) tolerance (by decide)
  unfold ServerPipeline.dropletCeiling
  generalize (Format.mul (Format.mul (Format.literal (ServerPipeline.tierFlow _)) _) _ : Double) = allowed at room ⊢
  have ceiled : Format.ceil allowed ≤ 1020 := Int.ceil_le.mpr (by exact_mod_cast room.right)
  obtain ⟨most,counted⟩ := Int.eq_ofNat_of_zero_le (Rounded.ceilNonneg room.nonneg)
  rw [counted] at ceiled ⊢
  refine ⟨most,by omega,?_⟩
  rw [Int.cast_natCast]
  exact SeedWords.literalNat (by omega)

theorem dropletsWhole (raw : Telemetry Double) (tierIndex : ℤ) {wallClockMs : Num Double} (nonneg : 0 ≤ wallClockMs)
    {n : ℕ} (counted : raw.dropletsLanded = Num.literal n) :
    ∃ droplets : ℕ, droplets ≤ n ∧ droplets ≤ 1020 ∧
      (ServerPipeline.clampTelemetry raw tierIndex wallClockMs).telemetry.dropletsLanded = Num.literal droplets := by
  obtain ⟨most,few,ceiling⟩ := ceilingWhole raw tierIndex nonneg
  have positive : (0 : Double) ≤ Format.literal (n : ℚ) := Num.literalNonneg (Nat.cast_nonneg n)
  have claim : sane raw.dropletsLanded = (Format.literal (n : ℚ) : Double) := by
    rw [counted]
    exact max_eq_right positive
  have cut : (ServerPipeline.clampTelemetry raw tierIndex wallClockMs).telemetry.dropletsLanded =
      .fin (min (Format.literal (n : ℚ))
        (ServerPipeline.dropletCeiling tierIndex (ServerPipeline.heldS raw wallClockMs))) := by
    rw [ServerPipeline.clampTelemetryFin raw tierIndex nonneg,← claim]
  rw [cut]
  generalize (ServerPipeline.dropletCeiling tierIndex (ServerPipeline.heldS raw wallClockMs) : Double) = room
    at ceiling
  cases le_total n most with
  | inl under =>
    have value : (Format.literal (n : ℚ) : Double).val = n := SeedWords.literalNat (by omega)
    have le : (Format.literal (n : ℚ) : Double) ≤ room := by
      have values : (Format.literal (n : ℚ) : Double).val ≤ room.val := by
        rw [value,ceiling]
        exact_mod_cast under
      exact values
    exact ⟨n,le_rfl,under.trans few,congrArg Num.fin (min_eq_left le)⟩
  | inr beyond =>
    have le : room ≤ (Format.literal (n : ℚ) : Double) := by
      have values : room.val ≤ round 53 (n : ℚ) := by
        rw [ceiling]
        exact fitsLeRound (by decide) (fitsNat (by omega)) (by exact_mod_cast beyond)
      exact values
    have same : room = Format.literal (most : ℚ) :=
      Rounded.ext (ceiling.trans (SeedWords.literalNat (by omega)).symm)
    exact ⟨most,beyond,few,congrArg Num.fin ((min_eq_right le).trans same)⟩

theorem scorePrinted {n : ℤ} (nonneg : 0 ≤ n) (most : n ≤ 1000) :
    wholeText (ClientPipeline.mathRound (ReachableRarity.whole n)) = toString n := by
  have value : (Format.literal (n : ℚ) : Double).val = n := ofInt64 (abs_le.mpr (by omega))
  have rounded : ClientPipeline.mathRound (ReachableRarity.whole n : Num Double) = ReachableRarity.whole n := by
    have floor : ⌊(Format.literal (n : ℚ) : Double).val + 1 / 2⌋ = n := by
      rw [value,Int.floor_eq_iff]
      constructor <;> linarith
    exact (mathRoundFin _).trans (congrArg ReachableRarity.whole floor)
  have floor : ⌊(Format.literal (n : ℚ) : Double).val⌋ = n := by rw [value,Int.floor_intCast]
  rw [rounded]
  exact congrArg toString floor

theorem priceWhole (tier : Fin 6) : ∃ cents : ℕ, amountCents tier = cents ∧ cents < 2 ^ 14 := by
  fin_cases tier
  · exact ⟨0,rfl,by decide⟩
  · exact ⟨299,rfl,by decide⟩
  · exact ⟨1299,rfl,by decide⟩
  · exact ⟨2999,rfl,by decide⟩
  · exact ⟨5999,rfl,by decide⟩
  · exact ⟨14900,rfl,by decide⟩

theorem considerationPrinted {cents : ℕ} (small : cents < 2 ^ 52) :
    formatConsideration (Num.literal cents) =
      if cents = 0 then "Free" else "USD " ++ (⟨false,cents,2⟩ : Fixed).text := by
  have value : (Format.literal (cents : ℚ) : Double).val = cents := SeedWords.literalNat (by omega)
  have free : (Num.literal cents : Num Double) ≤ 0 ↔ cents = 0 := by
    have order : (Num.literal cents : Num Double) ≤ .fin 0 ↔ (Format.literal (cents : ℚ) : Double).val ≤ 0 :=
      Num.leFin _ _
    rw [Num.zeroFin,order,value]
    exact_mod_cast Nat.le_zero
  unfold formatConsideration
  simp only [free,usdPrinted small]

structure Sheet (r : Record Double) (position droplets : ℕ) (now : Time) (cents : ℕ) (points : ℤ) : Prop where
  landed : r.telemetry.dropletsLanded = Num.literal droplets
  price : r.amountCents = cents
  score : r.rarityScore = ReachableRarity.whole points
  band : r.rarity = ReachableRarity.grade points
  rows : rows (shown r) = [
    ("Serial",serialOf position r.seed),
    ("Ledger position","No. " ++ String.ofList (grouped position)),
    ("Substance",substance (ReachableRarity.grade points)),
    ("Classification",(ReachableRarity.grade points).text ++ " · " ++ toString points),
    ("Mass rendered irrecoverable",(⟨false,379 * droplets,2⟩ : Fixed).text ++ " g"),
    ("Batch",batchOf position r.seed),
    ("Consideration",if cents = 0 then "Free" else "USD " ++ (⟨false,cents,2⟩ : Fixed).text),
    ("Issued",now.date)]

theorem sheetExact {req : Request Double} {position : ℕ} {ownerId : String} {now : Time} {r : Record Double}
    (minted : mint req position ownerId now = .ok r) (few : position ≤ 2 ^ 53) {n : ℕ}
    (counted : req.telemetry.dropletsLanded = Num.literal n) :
    ∃ droplets cents points, droplets ≤ n ∧ Sheet r position droplets now cents points := by
  have record := mintMinted minted
  have finite := (Store.mintCertified minted).telemetry
  obtain ⟨droplets,fewer,small,landed⟩ := dropletsWhole req.telemetry req.tierIndex
    (wallClockNonneg req.timestampMs now) counted
  rw [← record.telemetry] at landed
  obtain ⟨a,b,c,d,parts⟩ := ReachableRarity.serverInIntegers spawnSquared WholeScore.floatCounts finite r.tierIndex
  obtain ⟨low,high⟩ := ReachableRarity.weighedWithin r.tierIndex parts.filled parts.forced parts.committed parts.steady
  obtain ⟨cents,price,cheap⟩ := priceWhole (ServerPipeline.clampTierIndex req.tierIndex)
  rw [← record.price] at price
  have score := record.score.trans parts.score
  have band := record.rarity.trans parts.rarity
  generalize ReachableRarity.weighed r.tierIndex a b c d = points at low high score band
  refine ⟨droplets,cents,points,fewer,landed,price,score,band,?_⟩
  have place : (shown r).ledgerPosition = Num.literal position := by
    rw [← record.place]
    exact congrArg Num.literal (Int.cast_natCast _)
  have paid : (shown r).amountCents = Num.literal cents := by
    have value : (shown r).amountCents = Num.literal (r.amountCents : ℚ) := rfl
    rw [value,price,Int.cast_natCast]
  have mass : (shown r).massGrams = Num.literal droplets * Num.literal massPerDropletG := by
    rw [← landed]
    exact record.mass
  have scored : (shown r).rarityScore = ReachableRarity.whole points := score
  have classed : (shown r).rarity = ReachableRarity.grade points := band
  have serial : (shown r).serial = serialOf position r.seed := record.serial
  have batch : (shown r).batch = batchOf position r.seed := record.batch
  have issued : (shown r).issued = now.date := record.issued
  rw [rows,formatLedgerPosition,place,paid,wholePrinted few,considerationPrinted (cheap.trans (by decide)),mass,
    massPrinted small,scored,scorePrinted low high,classed,serial,batch,issued]

def bulk : Request Double := ⟨3,1785628800000,⟨12,512.5,0.25,2000⟩⟩
def later : Time := ⟨1785628802500000000⟩

theorem bulkSheet : ∃ r droplets cents points, mint bulk 1284 "visitor" later = .ok r ∧ droplets ≤ 12 ∧
    Sheet r 1284 droplets later cents points := by
  have accepted : Accepted bulk later := by decide
  obtain ⟨r,ok,-⟩ := mintAccepted accepted 1284 "visitor"
  obtain ⟨droplets,cents,points,sheet⟩ := @sheetExact bulk 1284 "visitor" later r ok (by decide) 12 rfl
  exact ⟨r,droplets,cents,points,ok,sheet⟩

end Sheet

section Register

def Fresh (r : Record Double) : Prop := ∃ req position ownerId now, mint req position ownerId now = .ok r

theorem freshPrice {r : Record Double} (fresh : Fresh r) : ∃ cents : ℕ, r.amountCents = cents ∧ cents < 2 ^ 14 := by
  obtain ⟨req,position,ownerId,now,minted⟩ := fresh
  rw [(mintMinted minted).price]
  exact priceWhole _

theorem totalFrom {recs : List (Record Double)} (fresh : ∀ r ∈ recs, Fresh r) {sum : ℕ}
    (few : sum + recs.length * 2 ^ 14 < 2 ^ 52) :
    ∃ total : ℕ, sum + (recs.map Record.amountCents).sum = total ∧ total < 2 ^ 52 ∧
      (recs.map shown).foldl (fun sum p => sum + p.amountCents) (Num.literal sum) = Num.literal total := by
  induction recs generalizing sum with
  | nil => exact ⟨sum,by simp,by omega,rfl⟩
  | cons r rest ih =>
    obtain ⟨cents,price,small⟩ := freshPrice (fresh r List.mem_cons_self)
    rw [List.length_cons] at few
    obtain ⟨total,added,bounded,folded⟩ := @ih (fun r mem => fresh r (List.mem_cons_of_mem _ mem)) (sum + cents) (by omega)
    refine ⟨total,?_,bounded,?_⟩
    · rw [List.map_cons,List.sum_cons,price,← added]
      push_cast
      ring
    · have paid : (shown r).amountCents = Num.literal (r.amountCents : ℚ) := rfl
      have next : (Num.literal sum + Num.literal cents : Num Double) = Num.literal (sum + cents : ℕ) := by
        have added := @WholeScore.wholeAdd sum cents (by rw [Nat.abs_cast]; omega) (by rw [Nat.abs_cast]; omega)
        exact_mod_cast added
      rw [List.map_cons,List.foldl_cons,paid,price,Int.cast_natCast,next]
      exact folded

theorem ordinalInj {a b : ℕ} (left : a ≤ 2 ^ 53) (right : b ≤ 2 ^ 53)
    (same : formatOrdinal (Num.literal a) = formatOrdinal (Num.literal b)) : a = b := by
  rw [formatOrdinal,formatOrdinal,wholePrinted left,wholePrinted right] at same
  have texts := congrArg String.toList same
  simp only [String.toList_append,String.toList_ofList] at texts
  exact groupedInj (List.append_cancel_left texts)

theorem registerExact {recs : List (Record Double)} (fresh : ∀ r ∈ recs, Fresh r) (few : recs.length < 2 ^ 38) :
    (∃ total : ℕ, (recs.map Record.amountCents).sum = total ∧
      formatUSD (totalCents (recs.map shown)) = "USD " ++ (⟨false,total,2⟩ : Fixed).text) ∧
    ∀ r s : Record Double, r.ledgerPosition ≤ 2 ^ 53 → s.ledgerPosition ≤ 2 ^ 53 →
      formatOrdinal (shown r).ledgerPosition = formatOrdinal (shown s).ledgerPosition →
        r.ledgerPosition = s.ledgerPosition := by
  constructor
  · obtain ⟨total,added,bounded,folded⟩ := @totalFrom recs fresh 0 (by omega)
    have begun : (0 : Num Double) = Num.literal ((0 : ℕ) : ℚ) := rfl
    refine ⟨total,by simpa using added,?_⟩
    rw [totalCents,begun,folded,usdPrinted bounded]
  · intro r s left right same
    have place : ∀ rec : Record Double, (shown rec).ledgerPosition = Num.literal (rec.ledgerPosition : ℚ) :=
      fun rec => congrArg Num.literal (Int.cast_natCast _)
    rw [place,place] at same
    exact ordinalInj left right same

theorem bulkRegister : ∃ recs : List (Record Double), recs.length = 2 ∧
    ∃ total : ℕ, (recs.map Record.amountCents).sum = total ∧
      formatUSD (totalCents (recs.map shown)) = "USD " ++ (⟨false,total,2⟩ : Fixed).text := by
  have accepted : Accepted bulk later := by decide
  obtain ⟨r,first,-⟩ := mintAccepted accepted 1 "visitor"
  obtain ⟨s,second,-⟩ := mintAccepted accepted 2 "visitor"
  have few : [r,s].length < 2 ^ 38 := by norm_num
  refine ⟨[r,s],rfl,(registerExact ?_ few).1⟩
  simp only [List.forall_mem_cons,List.not_mem_nil,false_implies,implies_true,and_true]
  exact ⟨⟨bulk,1,"visitor",later,first⟩,⟨bulk,2,"visitor",later,second⟩⟩

end Register

end MoltenPour.CertificateText
