import MoltenPour.NumberFormat
import Mathlib.Data.Int.Log

/-! Rationals with at most p significant bits and correct rounding to them, ties
to even. The exponent is not bounded, so nothing overflows or is subnormal. All
that later proofs use of a rounded result is that it is representable and that
it never crosses a representable value. -/
namespace MoltenPour.BinaryRounding
open NumberFormat

def Fits (p : ℕ) (q : ℚ) : Prop := ∃ m e : ℤ, |m| ≤ 2 ^ p ∧ q = m * 2 ^ e

def grain (p : ℕ) (q : ℚ) : ℤ := Int.log 2 |q| + 1 - p

def nearestEven (x : ℚ) : ℤ :=
  let n := ⌊x⌋
  if x - n < 1 / 2 then n
  else if 1 / 2 < x - n then n + 1
  else if n % 2 = 0 then n else n + 1

def round (p : ℕ) (q : ℚ) : ℚ := nearestEven (q / 2 ^ grain p q) * 2 ^ grain p q

theorem leNearestEven {n : ℤ} {x : ℚ} (h : (n : ℚ) ≤ x) : n ≤ nearestEven x := by
  have floor : n ≤ ⌊x⌋ := Int.le_floor.mpr h
  unfold nearestEven
  dsimp only
  split_ifs <;> omega

theorem nearestEvenWhole (n : ℤ) : nearestEven n = n := by simp [nearestEven]

theorem nearestEvenNeg (x : ℚ) : nearestEven (-x) = -nearestEven x := by
  rcases (Int.floor_le x).eq_or_lt with whole | inside
  · rw [← whole,← Int.cast_neg,nearestEvenWhole,nearestEvenWhole]
  · have below := Int.lt_floor_add_one x
    have mirrored : ⌊-x⌋ = -⌊x⌋ - 1 := by
      rw [Int.floor_eq_iff]
      push_cast
      exact ⟨by linarith,by linarith⟩
    unfold nearestEven
    dsimp only
    rw [mirrored]
    push_cast
    split_ifs <;> first | omega | linarith

theorem nearestEvenLe {n : ℤ} {x : ℚ} (h : x ≤ n) : nearestEven x ≤ n := by
  have mirrored : ((-n : ℤ) : ℚ) ≤ -x := by
    push_cast
    exact neg_le_neg h
  have bound := leNearestEven mirrored
  rw [nearestEvenNeg] at bound
  exact neg_le_neg_iff.mp bound

theorem grainPower (p : ℕ) (q : ℚ) : (2 : ℚ) ^ p * 2 ^ grain p q = 2 ^ (Int.log 2 |q| + 1) := by
  rw [← zpow_natCast,← zpow_add₀ two_ne_zero]
  congr 1
  unfold grain
  ring

theorem belowBinade (p : ℕ) (q : ℚ) : |q| < 2 ^ p * 2 ^ grain p q := by
  rw [grainPower]
  exact_mod_cast Int.lt_zpow_succ_log_self (b := 2) (by decide) |q|

theorem fitsInt (p : ℕ) {n : ℤ} (h : |n| ≤ 2 ^ p) : Fits p n := ⟨n,0,h,by simp⟩

theorem fitsZero (p : ℕ) : Fits p 0 := ⟨0,0,by simp,by simp⟩

theorem roundFits (p : ℕ) (q : ℚ) : Fits p (round p q) := by
  have positive : (0 : ℚ) < 2 ^ grain p q := by positivity
  obtain ⟨low,high⟩ := abs_lt.mp (belowBinade p q)
  refine ⟨_,grain p q,abs_le.mpr ⟨leNearestEven ?_,nearestEvenLe ?_⟩,rfl⟩
  · rw [le_div_iff₀ positive]
    push_cast
    linarith
  · rw [div_le_iff₀ positive]
    push_cast
    linarith

theorem topOfBinade {p : ℕ} (hp : 0 < p) (l : ℤ) :
    (2 : ℚ) ^ l = 2 ^ (p - 1) * 2 ^ (l + 1 - p) := by
  rw [← zpow_natCast,← zpow_add₀ two_ne_zero]
  congr 1
  omega

theorem fitsOnGrid {p : ℕ} (hp : 0 < p) (l : ℤ) {r : ℚ} (fits : Fits p r) :
    (∃ n : ℤ, r = n * 2 ^ (l + 1 - p)) ∨ |r| < 2 ^ l := by
  -- A representable value that is not a multiple of a binade's last place is smaller than every
  -- value of the binade.
  obtain ⟨m,e,bound,rfl⟩ := fits
  rcases le_or_gt (l + 1 - p) e with above | below
  · left
    obtain ⟨k,hk⟩ := Int.le.dest above
    refine ⟨m * 2 ^ k,?_⟩
    rw [← hk,zpow_add₀ two_ne_zero,zpow_natCast]
    push_cast
    ring
  · have scaled : |(m * 2 ^ e : ℚ)| ≤ 2 ^ l :=
      calc |(m * 2 ^ e : ℚ)| = |(m : ℚ)| * 2 ^ e := by
              rw [abs_mul,abs_of_pos (by positivity : (0 : ℚ) < 2 ^ e)]
        _ ≤ 2 ^ p * 2 ^ e := by gcongr; exact_mod_cast bound
        _ = 2 ^ (e + p) := by rw [zpow_add₀ two_ne_zero,zpow_natCast,mul_comm]
        _ ≤ 2 ^ l := zpow_le_zpow_right₀ one_le_two (by omega)
    rcases scaled.lt_or_eq with less | same
    · exact .inr less
    · left
      rcases abs_choice (m * 2 ^ e : ℚ) with sign | sign
      · exact ⟨2 ^ (p - 1),by rw [← sign,same,topOfBinade hp l]; push_cast; ring⟩
      · exact ⟨-2 ^ (p - 1),by
          rw [← neg_neg (m * 2 ^ e : ℚ),← sign,same,topOfBinade hp l]; push_cast; ring⟩

theorem topOfGrain {p : ℕ} (hp : 0 < p) (q : ℚ) :
    (2 : ℚ) ^ Int.log 2 |q| = 2 ^ (p - 1) * 2 ^ grain p q := topOfBinade hp _

theorem topLeAbs {p : ℕ} (hp : 0 < p) {q : ℚ} (hq : q ≠ 0) : 2 ^ (p - 1) * 2 ^ grain p q ≤ |q| := by
  rw [← topOfGrain hp]
  exact_mod_cast Int.zpow_log_le_self (b := 2) (by decide) (abs_pos.mpr hq)

theorem gridLeRound (p : ℕ) {q : ℚ} {n : ℤ} (h : n * 2 ^ grain p q ≤ q) :
    n * 2 ^ grain p q ≤ round p q := by
  have positive : (0 : ℚ) < 2 ^ grain p q := by positivity
  have scaled : (n : ℚ) ≤ q / 2 ^ grain p q := (le_div_iff₀ positive).mpr h
  exact mul_le_mul_of_nonneg_right (by exact_mod_cast leNearestEven scaled) positive.le

theorem fitsNeg {p : ℕ} {q : ℚ} (fits : Fits p q) : Fits p (-q) := by
  obtain ⟨m,e,bound,rfl⟩ := fits
  exact ⟨-m,e,(abs_neg m).symm ▸ bound,by push_cast; ring⟩

theorem roundNeg (p : ℕ) (q : ℚ) : round p (-q) = -round p q := by
  unfold round grain
  rw [abs_neg,neg_div,nearestEvenNeg]
  push_cast
  ring

theorem fitsLeRound {p : ℕ} (hp : 0 < p) {r q : ℚ} (fits : Fits p r) (h : r ≤ q) : r ≤ round p q := by
  rcases fitsOnGrid hp (Int.log 2 |q|) fits with ⟨n,rfl⟩ | small
  · exact gridLeRound p h
  · rw [topOfGrain hp] at small
    have apart := abs_lt.mp small
    rcases lt_trichotomy q 0 with below | rfl | above
    · have top := topLeAbs hp below.ne
      rw [abs_of_neg below] at top
      linarith
    · simpa [round,nearestEven] using h
    · have top := topLeAbs hp above.ne'
      rw [abs_of_pos above] at top
      have grid := gridLeRound p (q := q) (n := 2 ^ (p - 1)) (by push_cast; exact top)
      push_cast at grid
      linarith

theorem roundLeFits {p : ℕ} (hp : 0 < p) {r q : ℚ} (fits : Fits p r) (h : q ≤ r) : round p q ≤ r := by
  have mirrored := fitsLeRound hp (fitsNeg fits) (neg_le_neg h)
  rw [roundNeg] at mirrored
  exact neg_le_neg_iff.mp mirrored

theorem roundOfFits {p : ℕ} (hp : 0 < p) {q : ℚ} (fits : Fits p q) : round p q = q :=
  le_antisymm (roundLeFits hp fits le_rfl) (fitsLeRound hp fits le_rfl)

theorem roundPos {p : ℕ} (hp : 0 < p) {q : ℚ} (h : 0 < q) : 0 < round p q := by
  have top := topLeAbs hp h.ne'
  rw [abs_of_pos h] at top
  have grid := gridLeRound p (q := q) (n := 2 ^ (p - 1)) (by push_cast; exact top)
  exact (by positivity : (0 : ℚ) < (2 ^ (p - 1) : ℤ) * 2 ^ grain p q).trans_le grid

def nearestRoot (y : ℚ) : ℕ :=
  let n := Nat.sqrt ⌊y⌋₊
  if y < (n + 1 / 2) ^ 2 then n
  else if (n + 1 / 2) ^ 2 < y then n + 1
  else if n % 2 = 0 then n else n + 1

def rootGrain (p : ℕ) (q : ℚ) : ℤ := Int.log 2 q / 2 + 1 - p

def roundSqrt (p : ℕ) (q : ℚ) : ℚ :=
  nearestRoot (q / (2 ^ rootGrain p q) ^ 2) * 2 ^ rootGrain p q

theorem leNearestRoot {n : ℕ} {y : ℚ} (h : (n : ℚ) ^ 2 ≤ y) : n ≤ nearestRoot y := by
  have root : n ≤ Nat.sqrt ⌊y⌋₊ :=
    Nat.le_sqrt'.mpr (Nat.le_floor (by exact_mod_cast h))
  unfold nearestRoot
  dsimp only
  split_ifs <;> omega

theorem nearestRootLe {n : ℕ} {y : ℚ} (h : y ≤ (n : ℚ) ^ 2) : nearestRoot y ≤ n := by
  have floor : ⌊y⌋₊ ≤ n ^ 2 := Nat.floor_le_of_le (by exact_mod_cast h)
  have root : Nat.sqrt ⌊y⌋₊ ≤ n := (Nat.sqrt_le_sqrt floor).trans (Nat.sqrt_eq' n).le
  rcases root.lt_or_eq with less | same
  · unfold nearestRoot
    dsimp only
    split_ifs <;> omega
  · have below : y < ((n : ℚ) + 1 / 2) ^ 2 := by nlinarith [Nat.cast_nonneg (α := ℚ) n]
    unfold nearestRoot
    dsimp only
    rw [same,if_pos below]

theorem rootBinade {q : ℚ} (hq : 0 < q) :
    (2 ^ (Int.log 2 q / 2)) ^ 2 ≤ q ∧ q < (2 ^ (Int.log 2 q / 2 + 1)) ^ 2 := by
  have low := Int.zpow_log_le_self (b := 2) (by decide) hq
  have high := Int.lt_zpow_succ_log_self (b := 2) (by decide) q
  push_cast at low high
  simp only [← zpow_natCast,← zpow_mul]
  exact ⟨(zpow_le_zpow_right₀ one_le_two (by omega)).trans low,
    high.trans_le (zpow_le_zpow_right₀ one_le_two (by push_cast; omega))⟩

theorem roundSqrtNonneg (p : ℕ) (q : ℚ) : 0 ≤ roundSqrt p q := by
  unfold roundSqrt
  positivity

theorem roundSqrtZero (p : ℕ) : roundSqrt p 0 = 0 := by
  have small : (0 : ℚ) < ((0 : ℕ) + 1 / 2) ^ 2 := by norm_num
  simp [roundSqrt,nearestRoot]

theorem roundSqrtFits {p : ℕ} {q : ℚ} (hq : 0 ≤ q) : Fits p (roundSqrt p q) := by
  rcases hq.eq_or_lt with rfl | positive
  · rw [roundSqrtZero]; exact fitsZero p
  · have bound : nearestRoot (q / (2 ^ rootGrain p q) ^ 2) ≤ 2 ^ p := by
      apply nearestRootLe
      rw [div_le_iff₀ (by positivity),← mul_pow]
      have top : ((2 ^ p : ℕ) : ℚ) * 2 ^ rootGrain p q = 2 ^ (Int.log 2 q / 2 + 1) := by
        rw [Nat.cast_pow,Nat.cast_ofNat,← zpow_natCast,← zpow_add₀ two_ne_zero]
        congr 1
        unfold rootGrain
        ring
      rw [top]
      exact (rootBinade positive).2.le
    exact ⟨nearestRoot _,rootGrain p q,by rw [abs_of_nonneg (by positivity)]; exact_mod_cast bound,
      by push_cast; rfl⟩

theorem fitsLeRoundSqrt {p : ℕ} (hp : 0 < p) {r q : ℚ} (fits : Fits p r) (hr : 0 ≤ r) (h : r ^ 2 ≤ q) :
    r ≤ roundSqrt p q := by
  rcases (hr.eq_or_lt) with rfl | positive
  · exact roundSqrtNonneg p q
  have hq : 0 < q := (by positivity : 0 < r ^ 2).trans_le h
  have onGrid : ∀ n : ℕ, (n * 2 ^ rootGrain p q) ^ 2 ≤ q → n * 2 ^ rootGrain p q ≤ roundSqrt p q := by
    intro n le
    have scaled : (n : ℚ) ^ 2 ≤ q / (2 ^ rootGrain p q) ^ 2 := by
      rw [le_div_iff₀ (by positivity),← mul_pow]
      exact le
    exact mul_le_mul_of_nonneg_right (by exact_mod_cast leNearestRoot scaled) (by positivity)
  rcases fitsOnGrid hp (Int.log 2 q / 2) fits with ⟨n,rfl⟩ | small
  · have natural : 0 ≤ n := by
      by_contra below
      have : (n : ℚ) * 2 ^ (Int.log 2 q / 2 + 1 - p) ≤ 0 :=
        mul_nonpos_of_nonpos_of_nonneg (by exact_mod_cast (by omega : n ≤ 0)) (by positivity)
      linarith
    obtain ⟨k,rfl⟩ := Int.eq_ofNat_of_zero_le natural
    exact onGrid k h
  · have top := onGrid (2 ^ (p - 1)) (by
      push_cast
      rw [rootGrain,← topOfBinade hp]
      exact (rootBinade hq).1)
    push_cast [rootGrain,← topOfBinade hp] at top
    exact (le_abs_self r).trans (small.le.trans top)

theorem roundSqrtLeFits {p : ℕ} (hp : 0 < p) {r q : ℚ} (fits : Fits p r) (hr : 0 ≤ r) (hq : 0 ≤ q)
    (h : q ≤ r ^ 2) : roundSqrt p q ≤ r := by
  rcases hq.eq_or_lt with rfl | positive
  · rw [roundSqrtZero]; exact hr
  rcases fitsOnGrid hp (Int.log 2 q / 2) fits with ⟨n,rfl⟩ | small
  · have grid : (0 : ℚ) < 2 ^ (Int.log 2 q / 2 + 1 - p) := by positivity
    have natural : (0 : ℚ) ≤ n := nonneg_of_mul_nonneg_left hr grid
    obtain ⟨k,rfl⟩ := Int.eq_ofNat_of_zero_le (by exact_mod_cast natural : 0 ≤ n)
    have scaled : q / (2 ^ rootGrain p q) ^ 2 ≤ (k : ℚ) ^ 2 := by
      rw [div_le_iff₀ (by positivity),← mul_pow]
      exact h
    exact mul_le_mul_of_nonneg_right (by exact_mod_cast nearestRootLe scaled) grid.le
  · have binade := (rootBinade positive).1
    have := pow_lt_pow_left₀ small (abs_nonneg r) two_ne_zero
    rw [sq_abs] at this
    linarith

end MoltenPour.BinaryRounding
