import MoltenPour.BinaryRounding

/-! The binary format of p significant bits as a `Format`, and what its two ways
of rounding half up do: the integer nearest x against the floor of the rounded
sum x + 1/2. They differ at one non-negative value below the range where x + 1/2
stops being representable. -/
namespace MoltenPour.BinaryFormat
open NumberFormat BinaryRounding

@[ext] structure Rounded (p : ℕ) where
  val : ℚ
  fits : Fits p val

namespace Rounded
variable {p : ℕ}

instance : LinearOrder (Rounded p) := LinearOrder.lift' val fun _ _ => Rounded.ext
instance : Zero (Rounded p) := ⟨⟨0,fitsZero p⟩⟩

def of (p : ℕ) (q : ℚ) : Rounded p := ⟨round p q,roundFits p q⟩

def root (a : Rounded p) : Rounded p :=
  if h : 0 ≤ a.val then ⟨roundSqrt p a.val,roundSqrtFits h⟩ else 0

instance doublePrecision : NeZero 53 := ⟨by decide⟩

instance [NeZero p] : Format (Rounded p) where
  literal := of p
  add a b := of p (a.val + b.val)
  sub a b := of p (a.val - b.val)
  mul a b := of p (a.val * b.val)
  div a b := of p (a.val / b.val)
  sqrt := root
  floor a := ⌊a.val⌋
  ceil a := ⌈a.val⌉
  nearest a := ⌊a.val + 1 / 2⌋
  literalZero := Rounded.ext (roundOfFits (NeZero.pos p) (fitsZero p))
  literalPos h := roundPos (NeZero.pos p) h
  addNonneg ha hb := fitsLeRound (NeZero.pos p) (fitsZero p) (add_nonneg ha hb)
  mulNonneg ha hb := fitsLeRound (NeZero.pos p) (fitsZero p) (mul_nonneg ha hb)
  divNonneg ha hb := fitsLeRound (NeZero.pos p) (fitsZero p) (div_nonneg ha (le_of_lt hb))
  sqrtNonneg {a} h := by
    have nonneg : 0 ≤ a.val := h
    simp only [root,dif_pos nonneg]
    exact roundSqrtNonneg p a.val
  floorNonneg h := Int.floor_nonneg.mpr h

theorem ceilNonneg [NeZero p] {a : Rounded p} (nonneg : 0 ≤ a) : 0 ≤ Format.ceil a :=
  Int.ceil_nonneg (a := a.val) nonneg

end Rounded

def belowHalf (p : ℕ) : ℚ := 1 / 2 - 1 / 2 ^ (p + 1)

theorem floorRoundOfCover {p : ℕ} (hp : 0 < p) {s y : ℚ} (fits : Fits p ⌊s⌋) (cover : Fits p y)
    (le : s ≤ y) (less : y < ⌊s⌋ + 1) : ⌊round p s⌋ = ⌊s⌋ := by
  apply Int.floor_eq_iff.mpr
  exact ⟨fitsLeRound hp fits (Int.floor_le s),(roundLeFits hp cover le).trans_lt less⟩

theorem halfIntegerFits {p : ℕ} {n : ℤ} (h : |2 * n - 1| ≤ 2 ^ p) : Fits p (n - 1 / 2) :=
  ⟨2 * n - 1,-1,h,by push_cast; ring⟩

theorem halfUpFits {p : ℕ} (hp : 0 < p) {x : ℚ} (fits : Fits p x) (one : 1 ≤ x) {n : ℤ}
    (above : n < x) (below : x < n + 1 / 2) : Fits p (x + 1 / 2) := by
  obtain ⟨m,hm⟩ : ∃ m : ℕ, Int.log 2 x = m := ⟨_,Int.log_of_one_le_right 2 one⟩
  have low := Int.zpow_log_le_self (b := 2) (by decide) (by linarith : 0 < x)
  have high := Int.lt_zpow_succ_log_self (b := 2) (by decide) x
  rw [hm] at low high
  push_cast at low high
  have next : n + 1 ≤ (2 : ℤ) ^ (m + 1) :=
    Int.add_one_le_of_lt (by exact_mod_cast above.trans high)
  rcases fitsOnGrid hp (m : ℤ) fits with ⟨k,hk⟩ | small
  · rcases le_or_gt p (m + 1) with coarse | fine
    · obtain ⟨d,hd⟩ := Nat.exists_eq_add_of_le coarse
      rw [show (m : ℤ) + 1 - p = d by omega,zpow_natCast] at hk
      have integral : x = ((k * 2 ^ d : ℤ) : ℚ) := by rw [hk]; push_cast; rfl
      rw [integral] at above below
      have after : n + 1 ≤ k * 2 ^ d := Int.add_one_le_of_lt (by exact_mod_cast above)
      have : (n : ℚ) + 1 ≤ ((k * 2 ^ d : ℤ) : ℚ) := by exact_mod_cast after
      linarith
    · obtain ⟨d,hd⟩ := Nat.exists_eq_add_of_lt fine
      rw [show (m : ℤ) + 1 - p = -(d + 1 : ℕ) by omega,zpow_neg,zpow_natCast] at hk
      have sum : x + 1 / 2 = ((k + 2 ^ d : ℤ) : ℚ) * 2 ^ (-(d + 1 : ℕ) : ℤ) := by
        rw [hk,zpow_neg,zpow_natCast]
        push_cast
        field_simp
        ring
      refine ⟨k + 2 ^ d,-(d + 1 : ℕ),?_,sum⟩
      have top : x + 1 / 2 ≤ 2 ^ (m + 1) := by
        have : (n : ℚ) + 1 ≤ 2 ^ (m + 1) := by exact_mod_cast next
        linarith
      rw [sum,zpow_neg,zpow_natCast,← div_eq_mul_inv,div_le_iff₀ (by positivity),← pow_add] at top
      have nonneg : (0 : ℚ) ≤ ((k + 2 ^ d : ℤ) : ℚ) := by
        have positive : 0 ≤ x + 1 / 2 := by linarith
        rw [sum] at positive
        exact nonneg_of_mul_nonneg_left positive (by positivity)
      rw [abs_of_nonneg (by exact_mod_cast nonneg),show p = m + 1 + (d + 1) by omega]
      exact_mod_cast top
  · rw [abs_of_pos (by linarith)] at small
    linarith

theorem floorHalfUpLarge {p : ℕ} (hp : 0 < p) {x : ℚ} (fits : Fits p x) (half : 1 / 2 ≤ x)
    (small : x + 3 ≤ 2 ^ (p - 1)) : ⌊round p (x + 1 / 2)⌋ = ⌊x + 1 / 2⌋ := by
  have double : (2 : ℚ) ^ p = 2 * 2 ^ (p - 1) := by rw [← pow_succ',Nat.sub_add_cancel hp]
  have low : (⌊x + 1 / 2⌋ : ℚ) ≤ x + 1 / 2 := Int.floor_le _
  have high : x + 1 / 2 < ⌊x + 1 / 2⌋ + 1 := Int.lt_floor_add_one _
  have one : 1 ≤ ⌊x + 1 / 2⌋ := Int.le_floor.mpr (by push_cast; linarith)
  have floorFits : Fits p ⌊x + 1 / 2⌋ := fitsInt p (by
    rw [abs_of_nonneg (by omega)]
    exact_mod_cast (by push_cast; linarith : (⌊x + 1 / 2⌋ : ℚ) ≤ (2 ^ p : ℕ)))
  rcases le_or_gt x ⌊x + 1 / 2⌋ with lower | upper
  · have cover : Fits p (((⌊x + 1 / 2⌋ + 1 : ℤ) : ℚ) - 1 / 2) := halfIntegerFits (by
      rw [abs_of_nonneg (by omega)]
      exact_mod_cast (by push_cast; linarith : ((2 * (⌊x + 1 / 2⌋ + 1) - 1 : ℤ) : ℚ) ≤ (2 ^ p : ℕ)))
    exact floorRoundOfCover hp floorFits cover (by push_cast; linarith) (by push_cast; linarith)
  · have whole : (1 : ℚ) ≤ ⌊x + 1 / 2⌋ := by exact_mod_cast one
    have cover : Fits p (x + 1 / 2) := halfUpFits hp fits (by linarith) upper (by linarith)
    exact floorRoundOfCover hp floorFits cover le_rfl high

theorem floorHalfUpSmall {p : ℕ} (hp : 2 ≤ p) {x : ℚ} (fits : Fits p x) (nonneg : 0 ≤ x)
    (half : x < 1 / 2) (other : x ≠ belowHalf p) : ⌊round p (x + 1 / 2)⌋ = 0 := by
  have floor : ⌊x + 1 / 2⌋ = 0 := Int.floor_eq_zero_iff.mpr ⟨by linarith,by linarith⟩
  have quarter : (1 : ℚ) / 2 ^ p ≤ 1 / 4 := by
    rw [one_div_le_one_div (by positivity) (by norm_num)]
    calc (4 : ℚ) = 2 ^ 2 := by norm_num
      _ ≤ 2 ^ p := pow_le_pow_right₀ one_le_two hp
  have far : x ≤ 1 / 2 - 1 / 2 ^ p := by
    by_contra near
    rcases fitsOnGrid (by omega) (-2) fits with ⟨k,rfl⟩ | tiny
    · have scale : (2 : ℚ) ^ ((-2 : ℤ) + 1 - p) = 1 / 2 ^ (p + 1) := by
        rw [show (-2 : ℤ) + 1 - p = -(p + 1 : ℕ) by push_cast; ring,zpow_neg,zpow_natCast,one_div]
      rw [scale] at half near other
      have unit : (2 : ℚ) ^ (p + 1) = 2 * 2 ^ p := pow_succ' 2 p
      have below : k < 2 ^ p := by
        rw [mul_one_div,div_lt_iff₀ (by positivity),unit] at half
        exact_mod_cast (by linarith : (k : ℚ) < 2 ^ p)
      have above : 2 ^ p - 2 < k := by
        have step : (1 / 2 - 1 / 2 ^ p : ℚ) = (2 ^ p - 2) / 2 ^ (p + 1) := by
          rw [unit]; field_simp
        rw [step,mul_one_div,div_le_div_iff_of_pos_right (by positivity),not_le] at near
        exact_mod_cast near
      obtain rfl : k = 2 ^ p - 1 := by omega
      apply other
      unfold belowHalf
      push_cast
      field_simp
      ring
    · rw [abs_of_nonneg nonneg] at tiny
      norm_num at tiny
      linarith
  have cover : Fits p (1 - 1 / 2 ^ p) := ⟨2 ^ p - 1,-p,by
    have : (1 : ℤ) ≤ 2 ^ p := one_le_pow₀ one_le_two
    rw [abs_of_nonneg (by omega)]
    omega,by
    push_cast
    rw [zpow_neg,zpow_natCast]
    field_simp⟩
  rw [← floor]
  refine floorRoundOfCover (by omega) ?_ cover (by linarith) ?_
  · rw [floor]; exact_mod_cast fitsZero p
  · rw [floor]; have : (0 : ℚ) < 1 / 2 ^ p := by positivity
    push_cast; linarith

theorem floorHalfUp {p : ℕ} (hp : 2 ≤ p) {x : ℚ} (fits : Fits p x) (nonneg : 0 ≤ x)
    (small : x + 3 ≤ 2 ^ (p - 1)) (other : x ≠ belowHalf p) :
    ⌊round p (x + 1 / 2)⌋ = ⌊x + 1 / 2⌋ := by
  -- only just below one half does the sum itself round up, to one
  rcases lt_or_ge x (1 / 2) with below | half
  · rw [floorHalfUpSmall hp fits nonneg below other]
    exact (Int.floor_eq_zero_iff.mpr ⟨by linarith,by linarith⟩).symm
  · exact floorHalfUpLarge (by omega) fits half small

structure Between {p : ℕ} (low high : ℕ) (x : Rounded p) : Prop where
  left : (low : ℚ) ≤ x.val
  right : x.val ≤ high

section Between
variable {p : ℕ} [NeZero p] {a b c d : ℕ} {x y : Rounded p}

omit [NeZero p] in
theorem fitsNat {n : ℕ} (small : n ≤ 2 ^ p) : Fits p (n : ℚ) := by
  have bound : |(n : ℤ)| ≤ 2 ^ p := by
    rw [abs_of_nonneg (Int.natCast_nonneg n)]
    exact_mod_cast small
  exact_mod_cast fitsInt p bound

omit [NeZero p] in
theorem Between.order (between : Between a b x) : a ≤ b := by
  exact_mod_cast between.left.trans between.right

omit [NeZero p] in
theorem Between.nonneg (between : Between a b x) : 0 ≤ x := by
  have value : 0 ≤ x.val := (Nat.cast_nonneg a).trans between.left
  exact value

omit [NeZero p] in
theorem betweenWiden (between : Between a b x) (low : c ≤ a) (high : b ≤ d) : Between c d x :=
  ⟨le_trans (by exact_mod_cast low) between.left,between.right.trans (by exact_mod_cast high)⟩

omit [NeZero p] in
theorem betweenMin (left : Between a b x) (right : Between c d y) :
    Between (min a c) (min b d) (min x y) := by
  cases le_total x y with
  | inl less =>
    have below : x.val ≤ y.val := less
    rw [min_eq_left less]
    refine ⟨le_trans (by exact_mod_cast min_le_left a c) left.left,?_⟩
    rw [Nat.cast_min]
    exact le_min left.right (below.trans right.right)
  | inr less =>
    have below : y.val ≤ x.val := less
    rw [min_eq_right less]
    refine ⟨le_trans (by exact_mod_cast min_le_right a c) right.left,?_⟩
    rw [Nat.cast_min]
    exact le_min (below.trans left.right) right.right

omit [NeZero p] in
theorem betweenCut (nonneg : 0 ≤ x) (between : Between a b y) : Between 0 b (min x y) := by
  have low : 0 ≤ (min x y).val := le_min nonneg between.nonneg
  have high : (min x y).val ≤ y.val := min_le_right x y
  exact ⟨by simpa using low,high.trans between.right⟩

theorem betweenRound {q : ℚ} (low : (a : ℚ) ≤ q) (high : q ≤ b) (small : b ≤ 2 ^ p) :
    Between a b (Rounded.of p q) := by
  have order : a ≤ b := by exact_mod_cast low.trans high
  exact ⟨fitsLeRound (NeZero.pos p) (fitsNat (order.trans small)) low,
    roundLeFits (NeZero.pos p) (fitsNat small) high⟩

theorem betweenAdd (left : Between a b x) (right : Between c d y) (small : b + d ≤ 2 ^ p) :
    Between (a + c) (b + d) (Format.add x y) := by
  refine betweenRound ?_ ?_ small
  · push_cast
    exact add_le_add left.left right.left
  · push_cast
    exact add_le_add left.right right.right

theorem betweenMul (left : Between a b x) (right : Between c d y) (small : b * d ≤ 2 ^ p) :
    Between (a * c) (b * d) (Format.mul x y) := by
  have nonneg : 0 ≤ x.val := le_trans (Nat.cast_nonneg a) left.left
  refine betweenRound ?_ ?_ small
  · push_cast
    exact mul_le_mul left.left right.left (Nat.cast_nonneg c) nonneg
  · push_cast
    exact mul_le_mul left.right right.right (le_trans (Nat.cast_nonneg c) right.left) (Nat.cast_nonneg b)

theorem betweenSqrt (between : Between (a ^ 2) (b ^ 2) x) (small : b ≤ 2 ^ p) :
    Between a b (Format.sqrt x) := by
  have low : (a : ℚ) ^ 2 ≤ x.val := by exact_mod_cast between.left
  have high : x.val ≤ (b : ℚ) ^ 2 := by exact_mod_cast between.right
  have nonneg : 0 ≤ x.val := le_trans (by positivity) low
  have order : a ≤ b := by
    have squares : a ^ 2 ≤ b ^ 2 := by exact_mod_cast low.trans high
    exact (Nat.pow_le_pow_iff_left two_ne_zero).mp squares
  have root : (Format.sqrt x).val = roundSqrt p x.val := congrArg Rounded.val (dif_pos nonneg)
  constructor
  · rw [root]
    exact fitsLeRoundSqrt (NeZero.pos p) (fitsNat (order.trans small)) (Nat.cast_nonneg a) low
  · rw [root]
    exact roundSqrtLeFits (NeZero.pos p) (fitsNat small) (Nat.cast_nonneg b) nonneg high

end Between

end MoltenPour.BinaryFormat
