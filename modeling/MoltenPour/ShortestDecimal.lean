import MoltenPour.BinaryRounding

/-! The shortest decimal that rounds back to a binary number, the one nearest it
among those of that length: what a float is printed as. It takes no more digits
than the precision asks for, and a small integer is printed as itself. -/
namespace MoltenPour.ShortestDecimal
open BinaryRounding

structure Decimal where
  digits : ℕ
  exponent : ℤ
  deriving DecidableEq, Repr

def Decimal.value (d : Decimal) : ℚ := d.digits * 10 ^ d.exponent

def lastPlace (x : ℚ) (k : ℕ) : ℤ := Int.log 10 x + 1 - k

def carried (k : ℕ) (exponent s : ℤ) : Decimal :=
  if s = 10 ^ k then ⟨1,exponent + k⟩ else ⟨s.toNat,exponent⟩

def candidates (x : ℚ) (k : ℕ) : List Decimal :=
  let y := x / 10 ^ lastPlace x k
  [nearestEven y,⌊y⌋,⌈y⌉].map (carried k (lastPlace x k))

def mostDigits (p : ℕ) : ℕ := Nat.log 10 (2 ^ p) + 2

example : mostDigits 53 = 17 := by decide +kernel

def shortest (p : ℕ) (x : ℚ) : Decimal :=
  ((List.range (mostDigits p)).findSome? fun k =>
    (candidates x (k + 1)).find? fun d => round p d.value = x).getD ⟨0,0⟩

example : shortest 53 (round 53 (1 / 10)) = ⟨1,-1⟩ := by decide +kernel

section Near
variable {p : ℕ} {x d : ℚ}

theorem fitsAbs (fits : Fits p x) : Fits p |x| := by
  rcases abs_choice x with same | mirrored
  · rwa [same]
  · rw [mirrored]
    exact fitsNeg fits

theorem nearestEvenNear {n : ℤ} {y : ℚ} (near : |y - n| < 1 / 2) : nearestEven y = n := by
  obtain ⟨low,high⟩ := abs_lt.mp near
  rcases le_or_gt (n : ℚ) y with above | below
  · have floor : ⌊y⌋ = n := Int.floor_eq_iff.mpr ⟨above,by linarith⟩
    unfold nearestEven
    dsimp only
    rw [floor,if_pos (by linarith)]
  · have floor : ⌊y⌋ = n - 1 := by
      apply Int.floor_eq_iff.mpr
      push_cast
      exact ⟨by linarith,by linarith⟩
    unfold nearestEven
    dsimp only
    rw [floor]
    push_cast
    rw [if_neg (by linarith),if_pos (by linarith)]
    ring

theorem roundOnGrid {n : ℤ} (grid : x = n * 2 ^ grain p d) (near : |d - x| < 2 ^ grain p d / 2) :
    round p d = x := by
  have positive : (0 : ℚ) < 2 ^ grain p d := by positivity
  have scaled : |d / 2 ^ grain p d - n| < 1 / 2 := by
    rw [show d / 2 ^ grain p d - n = (d - x) / 2 ^ grain p d by rw [grid]; field_simp,abs_div,
      abs_of_pos positive,div_lt_iff₀ positive]
    linarith
  rw [BinaryRounding.round,nearestEvenNear scaled,grid]

theorem binade {l : ℤ} (positive : 0 < d) (low : (2 : ℚ) ^ l ≤ d) (high : d < 2 ^ (l + 1)) :
    Int.log 2 |d| = l := by
  rw [abs_of_pos positive]
  apply le_antisymm
  · exact Int.lt_add_one_iff.mp ((Int.lt_zpow_iff_log_lt (by decide) positive).mp (by exact_mod_cast high))
  · exact (Int.zpow_le_iff_le_log (by decide) positive).mp (by exact_mod_cast low)

theorem roundNear (hp : 0 < p) (fits : Fits p x) (positive : 0 < x)
    (near : |d - x| * 2 ^ (p + 1) < x) : round p d = x := by
  -- the smallest number with as many digits has the finest last place: where x is a power of two
  -- its lower neighbour is only half as far, and this still rounds to x
  have low : (2 : ℚ) ^ Int.log 2 x ≤ x := by exact_mod_cast Int.zpow_log_le_self (b := 2) (by decide) positive
  have high : x < (2 : ℚ) ^ (Int.log 2 x + 1) := by
    exact_mod_cast Int.lt_zpow_succ_log_self (b := 2) (by decide) x
  generalize Int.log 2 x = l at low high
  have unit : (0 : ℚ) < 2 ^ (l + 1 - p) := by positivity
  have whole : (2 : ℚ) ^ (l + 1) = 2 ^ p * 2 ^ (l + 1 - p) := by
    rw [← zpow_natCast,← zpow_add₀ two_ne_zero]
    congr 1
    ring
  have half : |d - x| < 2 ^ (l + 1 - p) / 2 := by
    have scaled := near.trans high
    rw [whole,pow_succ,mul_comm,mul_assoc] at scaled
    have power : (0 : ℚ) < 2 ^ p := by positivity
    linarith [lt_of_mul_lt_mul_left scaled power.le]
  obtain ⟨n,grid⟩ | small := fitsOnGrid hp l fits
  case inr => exact absurd (abs_of_pos positive ▸ small) low.not_gt
  obtain ⟨left,right⟩ := abs_lt.mp half
  have under : d < 2 ^ (l + 1) := by
    have room : n + 1 ≤ (2 : ℤ) ^ p := by
      rw [grid,whole] at high
      exact_mod_cast (lt_of_mul_lt_mul_right high unit.le)
    have far : ((n : ℚ) + 1) * 2 ^ (l + 1 - p) ≤ 2 ^ p * 2 ^ (l + 1 - p) :=
      mul_le_mul_of_nonneg_right (by exact_mod_cast room) unit.le
    rw [whole]
    linarith
  have above : 0 < d := by
    have bound : (0 : ℚ) < 2 ^ (p + 1) := by positivity
    have close : |d - x| < x := by
      have one : (1 : ℚ) ≤ 2 ^ (p + 1) := one_le_pow₀ one_le_two
      nlinarith [abs_nonneg (d - x)]
    linarith [(abs_lt.mp close).1]
  rcases le_or_gt ((2 : ℚ) ^ l) d with inside | below
  · have same : grain p d = l + 1 - p := by rw [grain,binade above inside under]
    exact roundOnGrid (same ▸ grid) (same ▸ half)
  · -- below the binade only its power of two is that near, and the last place is half as wide
    have top := topOfBinade hp l
    have power : x = 2 ^ l := by
      refine le_antisymm ?_ low
      have few : n ≤ (2 : ℤ) ^ (p - 1) := by
        rw [grid] at left
        rw [top] at below
        have scaled : ((n : ℚ) - 1 / 2) * 2 ^ (l + 1 - p) < 2 ^ (p - 1) * 2 ^ (l + 1 - p) := by linarith
        have count := lt_of_mul_lt_mul_right scaled unit.le
        have strict : (n : ℚ) < (2 ^ (p - 1) : ℤ) + 1 := by
          push_cast
          linarith
        exact Int.lt_add_one_iff.mp (by exact_mod_cast strict)
      rw [grid,top]
      exact mul_le_mul_of_nonneg_right (by exact_mod_cast few) unit.le
    have split : (2 : ℚ) ^ l = 2 ^ p * 2 ^ (l - p) := by
      rw [← zpow_natCast,← zpow_add₀ two_ne_zero]
      congr 1
      ring
    have narrow : |d - x| < 2 ^ (l - p) / 2 := by
      have scaled := near
      rw [power,split,pow_succ,mul_comm,mul_assoc] at scaled
      have positive : (0 : ℚ) < 2 ^ p := by positivity
      rw [power,split]
      linarith [lt_of_mul_lt_mul_left scaled positive.le]
    have inside : (2 : ℚ) ^ (l - 1) ≤ d := by
      have two : (2 : ℚ) ^ l = 2 ^ (l - 1) * 2 := by
        rw [← zpow_add_one₀ two_ne_zero]
        congr 1
        ring
      have most : (2 : ℚ) ^ (l - p) ≤ 2 ^ (l - 1) := zpow_le_zpow_right₀ one_le_two (by omega)
      rw [power] at narrow
      linarith [(abs_lt.mp narrow).1]
    have same : grain p d = l - p := by
      rw [grain,binade above inside (by simpa using below)]
      ring
    refine roundOnGrid (n := 2 ^ p) ?_ (same ▸ narrow)
    rw [same,power,split]
    push_cast
    rfl

end Near

section Candidates
variable {p : ℕ} {x : ℚ}

theorem nearestEvenWithin (y : ℚ) : |nearestEven y - y| ≤ 1 / 2 := by
  have low := Int.floor_le y
  have high := Int.lt_floor_add_one y
  unfold nearestEven
  dsimp only
  split_ifs <;> rw [abs_le] <;> push_cast <;> constructor <;> linarith

theorem carriedValue (k : ℕ) (e : ℤ) {s : ℤ} (nonneg : 0 ≤ s) : (carried k e s).value = s * 10 ^ e := by
  unfold carried
  split
  case isTrue full =>
    rw [full,Decimal.value,zpow_add₀ (by norm_num),zpow_natCast]
    push_cast
    ring
  case isFalse => rw [Decimal.value,← Int.cast_natCast,Int.toNat_of_nonneg nonneg]

theorem scaledPositive (positive : 0 < x) (k : ℕ) : 0 < x / 10 ^ lastPlace x k := by positivity

theorem candidateValue (positive : 0 < x) {k : ℕ} {d : Decimal} (mem : d ∈ candidates x k) :
    ∃ s : ℤ, 0 ≤ s ∧ |s - x / 10 ^ lastPlace x k| < 1 ∧ d = carried k (lastPlace x k) s := by
  have scaled := scaledPositive positive k
  unfold candidates at mem
  generalize x / 10 ^ lastPlace x k = y at mem scaled
  simp only [List.map_cons,List.map_nil,List.mem_cons,List.not_mem_nil,or_false] at mem
  have low := Int.floor_le y
  have high := Int.lt_floor_add_one y
  rcases mem with rfl | rfl | rfl
  · exact ⟨_,leNearestEven (by exact_mod_cast scaled.le),(nearestEvenWithin y).trans_lt (by norm_num),rfl⟩
  · exact ⟨_,Int.floor_nonneg.mpr scaled.le,abs_lt.mpr ⟨by linarith,by linarith⟩,rfl⟩
  · exact ⟨_,Int.ceil_nonneg scaled.le,abs_lt.mpr
      ⟨by linarith [Int.le_ceil y],by linarith [Int.ceil_lt_add_one y]⟩,rfl⟩

theorem mostDigitsEnough (p : ℕ) : (2 : ℚ) ^ p < 10 ^ (mostDigits p - 1) := by
  have enough := Nat.lt_pow_succ_log_self (b := 10) (by decide) (2 ^ p)
  exact_mod_cast enough

theorem mostBack (hp : 0 < p) (fits : Fits p x) (positive : 0 < x) :
    ∃ d ∈ candidates x (mostDigits p), BinaryRounding.round p d.value = x := by
  refine ⟨_,List.mem_map.mpr ⟨_,List.mem_cons_self,rfl⟩,?_⟩
  have scaled := scaledPositive positive (mostDigits p)
  rw [carriedValue _ _ (leNearestEven (by exact_mod_cast scaled.le))]
  have low : (10 : ℚ) ^ Int.log 10 x ≤ x := by
    exact_mod_cast Int.zpow_log_le_self (b := 10) (by decide) positive
  have place : (10 : ℚ) ^ Int.log 10 x = 10 ^ (mostDigits p - 1) * 10 ^ lastPlace x (mostDigits p) := by
    rw [← zpow_natCast,← zpow_add₀ (by norm_num)]
    congr 1
    have some_digit : 1 ≤ mostDigits p := by simp [mostDigits]
    rw [lastPlace]
    omega
  generalize lastPlace x (mostDigits p) = e at place
  have unit : (0 : ℚ) < 10 ^ e := by positivity
  have within := nearestEvenWithin (x / 10 ^ e)
  apply roundNear hp fits positive
  have apart : |nearestEven (x / 10 ^ e) * 10 ^ e - x| ≤ 10 ^ e / 2 := by
    rw [show (nearestEven (x / 10 ^ e) * 10 ^ e - x : ℚ) = (nearestEven (x / 10 ^ e) - x / 10 ^ e) * 10 ^ e by
      field_simp,abs_mul,abs_of_pos unit]
    linarith [mul_le_mul_of_nonneg_right within unit.le]
  calc |nearestEven (x / 10 ^ e) * 10 ^ e - x| * 2 ^ (p + 1)
      ≤ 10 ^ e / 2 * 2 ^ (p + 1) := mul_le_mul_of_nonneg_right apart (by positivity)
    _ = 2 ^ p * 10 ^ e := by ring
    _ < 10 ^ (mostDigits p - 1) * 10 ^ e := mul_lt_mul_of_pos_right (mostDigitsEnough p) unit
    _ ≤ x := place ▸ low

structure Shortest (p : ℕ) (x : ℚ) (d : Decimal) (k : ℕ) : Prop where
  few : k < mostDigits p
  candidate : d ∈ candidates x (k + 1)
  back : BinaryRounding.round p d.value = x
  least : ∀ j < k, ∀ d ∈ candidates x (j + 1), BinaryRounding.round p d.value ≠ x

theorem shortestFound (hp : 0 < p) (fits : Fits p x) (positive : 0 < x) :
    ∃ k, Shortest p x (shortest p x) k := by
  unfold shortest
  generalize searched : (List.range (mostDigits p)).findSome? (fun k =>
    (candidates x (k + 1)).find? fun d => BinaryRounding.round p d.value = x) = found
  cases found with
  | none =>
    obtain ⟨d,mem,back⟩ := mostBack hp fits positive
    have last : mostDigits p - 1 < mostDigits p := by simp [mostDigits]
    have none := List.findSome?_eq_none_iff.mp searched _ (List.mem_range.mpr last)
    exact absurd back (by simpa using List.find?_eq_none.mp none d mem)
  | some d =>
    obtain ⟨before,k,after,split,here,earlier⟩ := List.findSome?_eq_some_iff.mp searched
    rw [List.range_eq_range'] at split
    obtain ⟨most,-,rfl,tail⟩ := List.range'_eq_append_iff.mp split
    have few : k < mostDigits p := by
      rw [← List.mem_range,List.range_eq_range',split]
      simp
    have same : k = most := by
      cases left : mostDigits p - most with
      | zero => simp [left] at tail
      | succ n =>
        rw [left,List.range'_succ,zero_add,mul_one] at tail
        exact (List.cons.inj tail).1
    refine ⟨k,few,List.mem_of_find?_eq_some here,by simpa using List.find?_some here,?_⟩
    intro j less d mem
    have none := earlier j (by simp [List.mem_range'_1,same ▸ less])
    simpa using List.find?_eq_none.mp none d mem

theorem shortestSize (hp : 0 < p) (fits : Fits p x) (positive : 0 < x) :
    let d := shortest p x
    let first := (Nat.toDigits 10 d.digits).length + d.exponent - 1
    d.digits < 10 ^ mostDigits p ∧ Int.log 10 x - mostDigits p < first ∧ first ≤ Int.log 10 x + 1 := by
  intro d first
  obtain ⟨k,few,candidate,-,-⟩ := shortestFound hp fits positive
  obtain ⟨s,nonneg,near,printed⟩ := candidateValue positive candidate
  have full : x / 10 ^ lastPlace x (k + 1) < 10 ^ (k + 1) := by
    have high : x < (10 : ℚ) ^ (Int.log 10 x + 1) := by
      exact_mod_cast Int.lt_zpow_succ_log_self (b := 10) (by decide) x
    rw [div_lt_iff₀ (by positivity),← zpow_natCast,← zpow_add₀ (by norm_num)]
    have place : ((k + 1 : ℕ) : ℤ) + lastPlace x (k + 1) = Int.log 10 x + 1 := by
      unfold lastPlace
      ring
    rwa [place]
  have most : s ≤ 10 ^ (k + 1) := by
    have strict : (s : ℚ) < (10 ^ (k + 1) : ℤ) + 1 := by
      push_cast
      linarith [(abs_lt.mp near).2]
    exact Int.lt_add_one_iff.mp (by exact_mod_cast strict)
  have room : 10 ^ (k + 1) ≤ 10 ^ mostDigits p := Nat.pow_le_pow_right (by decide) few
  rcases most.lt_or_eq with less | same
  · have whole : s.toNat < 10 ^ (k + 1) := by zify [nonneg]; exact_mod_cast (Int.toNat_of_nonneg nonneg).symm ▸ less
    have shape : d = ⟨s.toNat,lastPlace x (k + 1)⟩ := printed.trans (if_neg less.ne)
    have short := (Nat.length_toDigits_le_iff (b := 10) (n := s.toNat) (by decide) k.succ_pos).mpr whole
    have some_digit : 0 < (Nat.toDigits 10 s.toNat).length := Nat.length_toDigits_pos
    simp only [first,shape,lastPlace]
    push_cast
    omega
  · have shape : d = ⟨1,lastPlace x (k + 1) + (k + 1 : ℕ)⟩ := printed.trans (if_pos same)
    have one : 1 < 10 ^ mostDigits p := Nat.one_lt_pow (by simp [mostDigits]) (by decide)
    simp only [first,shape,lastPlace,Nat.toDigits_of_lt_base (by decide : 1 < 10),List.length_singleton]
    push_cast
    omega

theorem wholePlace (n k : ℕ) : lastPlace (n : ℚ) (k + 1) = Nat.log 10 n - k := by
  rw [lastPlace,Int.log_natCast]
  push_cast
  ring

theorem wholeCandidate (n : ℕ) :
    carried (Nat.log 10 n + 1) 0 n ∈ candidates (n : ℚ) (Nat.log 10 n + 1) := by
  refine List.mem_map.mpr ⟨_,List.mem_cons_self,?_⟩
  rw [wholePlace,sub_self,zpow_zero,div_one]
  exact congrArg _ (nearestEvenWhole n)

theorem shortestWhole (hp : 0 < p) {n : ℕ} (positive : 0 < n) (small : n < 2 ^ p) :
    (shortest p n).value = n ∧ 0 ≤ (shortest p n).exponent := by
  have fitting : ∀ {m : ℤ}, 0 ≤ m → m ≤ 2 ^ p → Fits p (m : ℚ) := fun nonneg most =>
    fitsInt p (by rwa [abs_of_nonneg nonneg])
  have fits : Fits p (n : ℚ) := by
    exact_mod_cast fitting (Int.natCast_nonneg n) (by exact_mod_cast small.le)
  have above : (0 : ℚ) < n := by exact_mod_cast positive
  obtain ⟨k,few,candidate,back,least⟩ := shortestFound hp fits above
  obtain ⟨s,nonneg,near,printed⟩ := candidateValue above candidate
  have units : 0 ≤ lastPlace (n : ℚ) (k + 1) := by
    by_contra fraction
    rw [wholePlace] at fraction
    refine least _ (by omega) _ (wholeCandidate n) ?_
    rw [carriedValue _ _ (Int.natCast_nonneg n),zpow_zero,mul_one,Int.cast_natCast]
    exact roundOfFits hp fits
  have exponent : 0 ≤ (shortest p n).exponent := by
    rw [printed,carried]
    split
    · exact add_nonneg units (by positivity)
    · exact units
  refine ⟨?_,exponent⟩
  rw [printed,carriedValue _ _ nonneg] at back ⊢
  obtain ⟨e,whole⟩ := Int.eq_ofNat_of_zero_le units
  have cast : (s * 10 ^ lastPlace (n : ℚ) (k + 1) : ℚ) = (s * 10 ^ e : ℤ) := by
    rw [whole]
    push_cast
    rw [zpow_natCast]
  rw [cast] at back ⊢
  have value : 0 ≤ s * 10 ^ e := mul_nonneg nonneg (by positivity)
  generalize s * 10 ^ e = m at back value ⊢
  have inside : m ≤ 2 ^ p := by
    by_contra beyond
    have top := fitsLeRound hp (fitting (by positivity) le_rfl) (Int.cast_le.mpr (not_le.mp beyond).le)
    rw [back] at top
    exact absurd small (by exact_mod_cast top.not_gt)
  exact (roundOfFits hp (fitting value inside)).symm.trans back

end Candidates
end MoltenPour.ShortestDecimal
