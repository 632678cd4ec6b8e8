import MoltenPour.BinaryFormat

/-! The binary format with a largest exponent. A value that comes to 2 ^ top or more is
lost, and so is whatever is made of it; as long as nothing is lost, a computation is
the one without the bound. -/
namespace MoltenPour.BoundedFormat
open NumberFormat BinaryRounding BinaryFormat

structure Bounded (p top : ℕ) where
  val : Rounded p
  kept : Bool

namespace Bounded
variable {p top : ℕ}

/- By value; a lost one comes after the one it looks like. -/
def place (a : Bounded p top) : ℚ ×ₗ Bool := toLex (a.val.val,!a.kept)

theorem placeInj : Function.Injective (place : Bounded p top → ℚ ×ₗ Bool) := by
  rintro ⟨a,k⟩ ⟨b,l⟩ same
  obtain ⟨value,lost⟩ := Prod.mk.inj (toLex.injective same)
  cases Rounded.ext value
  cases Bool.not_inj lost
  rfl

instance : LinearOrder (Bounded p top) := LinearOrder.lift' place placeInj
instance : Zero (Bounded p top) := ⟨⟨0,true⟩⟩

def made (kept : Bool) (q : ℚ) : Bounded p top :=
  ⟨Rounded.of p q,kept && decide (|(Rounded.of p q).val| < 2 ^ top)⟩

def integer (a : Bounded p top) (n : ℤ) : ℤ := if a.kept then n else 2 ^ top

theorem leIff {a b : Bounded p top} :
    a ≤ b ↔ a.val < b.val ∨ a.val = b.val ∧ (b.kept = true → a.kept = true) := by
  have order : a ≤ b ↔ toLex (a.val.val,!a.kept) ≤ toLex (b.val.val,!b.kept) := Iff.rfl
  have same : a.val.val = b.val.val ↔ a.val = b.val := ⟨Rounded.ext,congrArg Rounded.val⟩
  rw [order,Prod.Lex.toLex_le_toLex,same]
  refine or_congr Iff.rfl (and_congr_right fun _ => ?_)
  cases a.kept <;> cases b.kept <;> simp

theorem nonnegIff {a : Bounded p top} : 0 ≤ a ↔ 0 ≤ a.val := by
  rw [leIff,le_iff_lt_or_eq]
  exact or_congr Iff.rfl (and_iff_left fun _ => rfl)

theorem positiveAbove {a : Bounded p top} (positive : 0 < a) : 0 ≤ a.val := nonnegIff.mp positive.le

theorem integerNonneg {a : Bounded p top} {n : ℤ} (nonneg : 0 ≤ n) : 0 ≤ a.integer n := by
  unfold integer
  split
  · exact nonneg
  · positivity

instance [NeZero p] : Format (Bounded p top) where
  literal := made true
  add a b := made (a.kept && b.kept) (a.val.val + b.val.val)
  sub a b := made (a.kept && b.kept) (a.val.val - b.val.val)
  mul a b := made (a.kept && b.kept) (a.val.val * b.val.val)
  div a b := made (a.kept && b.kept) (a.val.val / b.val.val)
  sqrt a := ⟨a.val.root,a.kept⟩
  floor a := a.integer ⌊a.val.val⌋
  ceil a := a.integer ⌈a.val.val⌉
  nearest a := a.integer ⌊a.val.val + 1 / 2⌋
  literalZero := by
    have zero : (Rounded.of p 0) = 0 := Format.literalZero
    have small : |(0 : Rounded p).val| < 2 ^ top := by
      rw [show (0 : Rounded p).val = 0 from rfl,abs_zero]
      positivity
    simp only [made,zero,small,decide_true,Bool.true_and]
    rfl
  literalPos h := by
    have above : 0 < Rounded.of p _ := Format.literalPos h
    exact lt_of_le_of_ne (nonnegIff.mpr above.le) fun same => above.ne (congrArg val same)
  addNonneg ha hb := nonnegIff.mpr (Format.addNonneg (nonnegIff.mp ha) (nonnegIff.mp hb))
  mulNonneg ha hb := nonnegIff.mpr (Format.mulNonneg (nonnegIff.mp ha) (nonnegIff.mp hb))
  divNonneg {a b} ha hb := by
    have quotient : 0 ≤ a.val.val / b.val.val := div_nonneg (nonnegIff.mp ha) (positiveAbove hb)
    exact nonnegIff.mpr (fitsLeRound (NeZero.pos p) (fitsZero p) quotient)
  sqrtNonneg ha := nonnegIff.mpr (Format.sqrtNonneg (nonnegIff.mp ha))
  floorNonneg ha := integerNonneg (Format.floorNonneg (nonnegIff.mp ha))

end Bounded

variable {p top : ℕ} [NeZero p]

/- The same value with the bound as without it, of size 2 ^ e at most. -/
def Tracks (e : ℕ) (x : Num (Rounded p)) (y : Num (Bounded p top)) : Prop :=
  ∃ v : Rounded p, x = .fin v ∧ y = .fin ⟨v,true⟩ ∧ |v.val| ≤ 2 ^ e

omit [NeZero p] in
theorem powerFits (e : ℕ) : Fits p (2 ^ e : ℚ) :=
  ⟨1,e,by exact_mod_cast Nat.one_le_two_pow,by rw [Int.cast_one,one_mul,zpow_natCast]⟩

theorem roundWithin {e : ℕ} {q : ℚ} (within : |q| ≤ 2 ^ e) : |round p q| ≤ 2 ^ e := by
  obtain ⟨low,high⟩ := abs_le.mp within
  exact abs_le.mpr ⟨fitsLeRound (NeZero.pos p) (fitsNeg (powerFits e)) low,
    roundLeFits (NeZero.pos p) (powerFits e) high⟩

omit [NeZero p] in
theorem powerBelow {e : ℕ} (room : e < top) {q : ℚ} (within : |q| ≤ 2 ^ e) : |q| < 2 ^ top :=
  within.trans_lt (pow_lt_pow_right₀ one_lt_two room)

section Tracking
variable {e f : ℕ} {x x₁ x₂ : Num (Rounded p)} {y y₁ y₂ : Num (Bounded p top)}

theorem tracksMade (room : e < top) {q : ℚ} (within : |q| ≤ 2 ^ e) :
    Tracks e (.fin (Rounded.of p q)) (.fin (Bounded.made true q : Bounded p top)) := by
  have rounded : |(Rounded.of p q).val| ≤ 2 ^ e := roundWithin within
  refine ⟨_,rfl,?_,rounded⟩
  simp [Bounded.made,powerBelow room rounded]

omit [NeZero p] in
theorem tracksWider (tracks : Tracks e x y) (wider : e ≤ f) : Tracks f x y := by
  obtain ⟨v,isX,isY,within⟩ := tracks
  exact ⟨v,isX,isY,within.trans (pow_le_pow_right₀ one_le_two wider)⟩

theorem tracksLiteral (room : e < top) {q : ℚ} (within : |q| ≤ 2 ^ e) :
    Tracks e (Num.literal q : Num (Rounded p)) (Num.literal q : Num (Bounded p top)) := tracksMade room within

theorem tracksAdd (left : Tracks e x₁ y₁) (right : Tracks e x₂ y₂) (room : e + 1 < top) :
    Tracks (e + 1) (x₁ + x₂) (y₁ + y₂) := by
  obtain ⟨v,rfl,rfl,small⟩ := left
  obtain ⟨w,rfl,rfl,little⟩ := right
  refine tracksMade room ?_
  have sum := abs_add_le v.val w.val
  rw [pow_succ]
  linarith

theorem tracksSub (left : Tracks e x₁ y₁) (right : Tracks e x₂ y₂) (room : e + 1 < top) :
    Tracks (e + 1) (x₁ - x₂) (y₁ - y₂) := by
  obtain ⟨v,rfl,rfl,small⟩ := left
  obtain ⟨w,rfl,rfl,little⟩ := right
  refine tracksMade room ?_
  have difference := abs_sub v.val w.val
  rw [pow_succ]
  linarith

theorem tracksMul (left : Tracks e x₁ y₁) (right : Tracks f x₂ y₂) (room : e + f < top) :
    Tracks (e + f) (x₁ * x₂) (y₁ * y₂) := by
  obtain ⟨v,rfl,rfl,small⟩ := left
  obtain ⟨w,rfl,rfl,little⟩ := right
  refine tracksMade room ?_
  rw [abs_mul,pow_add]
  exact mul_le_mul small little (abs_nonneg _) (by positivity)

theorem tracksDiv (left : Tracks e x₁ y₁) (right : Tracks f x₂ y₂) (least : ∀ w, x₂ = .fin w → 1 ≤ w.val)
    (room : e < top) : Tracks e (x₁ / x₂) (y₁ / y₂) := by
  obtain ⟨v,rfl,rfl,small⟩ := left
  obtain ⟨w,rfl,rfl,-⟩ := right
  have least := least w rfl
  have nonzero : w ≠ 0 := by
    rintro rfl
    have zero : (0 : Rounded p).val = 0 := rfl
    rw [zero] at least
    linarith
  have other : (⟨w,true⟩ : Bounded p top) ≠ 0 := fun zero => nonzero (congrArg Bounded.val zero)
  rw [Num.divFin v nonzero,Num.divFin _ other]
  refine tracksMade room ?_
  rw [abs_div,abs_of_pos (zero_lt_one.trans_le least)]
  exact (div_le_self (abs_nonneg _) least).trans small

theorem tracksSqrt (tracks : Tracks e x y) (nonneg : 0 ≤ x) : Tracks e (Num.sqrt x) (Num.sqrt y) := by
  obtain ⟨v,rfl,rfl,within⟩ := tracks
  rw [Num.zeroFin,Num.leFin] at nonneg
  have above : (0 : Bounded p top) ≤ ⟨v,true⟩ := Bounded.nonnegIff.mpr nonneg
  rw [Num.sqrtFin nonneg,Num.sqrtFin above]
  refine ⟨v.root,rfl,rfl,?_⟩
  have value : 0 ≤ v.val := nonneg
  have root : v.root.val = roundSqrt p v.val := by rw [Rounded.root,dif_pos value]
  have least : (1 : ℚ) ≤ 2 ^ e := one_le_pow₀ one_le_two
  have square : v.val ≤ (2 ^ e) ^ 2 := by
    have size := (le_abs_self v.val).trans within
    nlinarith
  rw [root,abs_of_nonneg (roundSqrtNonneg p v.val)]
  exact roundSqrtLeFits (NeZero.pos p) (powerFits e) (by positivity) value square

omit [NeZero p] in
theorem keptLe (v w : Rounded p) : (⟨v,true⟩ : Bounded p top) ≤ ⟨w,true⟩ ↔ v ≤ w := by
  rw [Bounded.leIff,le_iff_lt_or_eq]
  exact or_congr Iff.rfl (and_iff_left fun _ => rfl)

omit [NeZero p] in
theorem keptMin (v w : Rounded p) : min (⟨v,true⟩ : Bounded p top) ⟨w,true⟩ = ⟨min v w,true⟩ := by
  simp only [min_def,keptLe,apply_ite (Bounded.mk · true)]

omit [NeZero p] in
theorem tracksMin {v w : Rounded p} {w' : Bounded p top} (right : Tracks f (.fin w) (.fin w')) (nonneg : 0 ≤ v.val)
    (above : 0 ≤ w.val) : Tracks f (.fin (min v w)) (.fin (min ⟨v,true⟩ w')) := by
  obtain ⟨u,same,kept,within⟩ := right
  cases same
  cases kept
  rw [keptMin]
  refine ⟨_,rfl,rfl,?_⟩
  rw [abs_of_nonneg above] at within
  have least : (min v w).val ≤ w.val := min_le_right v w
  have positive : 0 ≤ (min v w).val := by
    rcases min_choice v w with first | second
    · rwa [first]
    · rwa [second]
  rw [abs_of_nonneg positive]
  exact least.trans within

def Integral (e : ℕ) (x : Num (Rounded p)) (y : Num (Bounded p top)) : Prop :=
  ∃ n : ℤ, x = Num.literal n ∧ y = Num.literal n ∧ |n| ≤ 2 ^ e

theorem integralTracks (whole : Integral e x y) (room : e < top) : Tracks e x y := by
  obtain ⟨n,rfl,rfl,within⟩ := whole
  exact tracksLiteral room (by exact_mod_cast within)

omit [NeZero p] in
theorem floorWithin {q : ℚ} (within : |q| ≤ 2 ^ e) : |⌊q⌋| ≤ 2 ^ e := by
  obtain ⟨low,high⟩ := abs_le.mp within
  refine abs_le.mpr ⟨Int.le_floor.mpr (by exact_mod_cast low),?_⟩
  have below : ⌊q⌋ ≤ ⌊((2 ^ e : ℤ) : ℚ)⌋ := Int.floor_le_floor (by exact_mod_cast high)
  rwa [Int.floor_intCast] at below

theorem integralFloor (tracks : Tracks e x y) : Integral e (Num.floor x) (Num.floor y) := by
  obtain ⟨v,rfl,rfl,within⟩ := tracks
  exact ⟨⌊v.val⌋,rfl,rfl,floorWithin within⟩

theorem integralNearest {v : Rounded p} (within : |v.val| ≤ 2 ^ e) : Integral (e + 1)
    (Num.literal (Format.nearest v : ℤ) : Num (Rounded p))
    (Num.literal (Format.nearest (⟨v,true⟩ : Bounded p top) : ℤ) : Num (Bounded p top)) := by
  refine ⟨⌊v.val + 1 / 2⌋,rfl,rfl,floorWithin ?_⟩
  have sum := abs_add_le v.val (1 / 2)
  have half : |(1 / 2 : ℚ)| = 1 / 2 := by norm_num
  have least : (1 : ℚ) ≤ 2 ^ e := one_le_pow₀ one_le_two
  rw [pow_succ]
  linarith

theorem integralCeil (tracks : Tracks e x y) : Integral e (Num.ceil x) (Num.ceil y) := by
  obtain ⟨v,rfl,rfl,within⟩ := tracks
  refine ⟨⌈v.val⌉,rfl,rfl,?_⟩
  rw [← abs_neg,← Int.floor_neg]
  exact floorWithin (by rwa [abs_neg])

omit [NeZero p] in
theorem tracksLe (left : Tracks e x₁ y₁) (right : Tracks f x₂ y₂) : y₁ ≤ y₂ ↔ x₁ ≤ x₂ := by
  obtain ⟨v,rfl,rfl,-⟩ := left
  obtain ⟨w,rfl,rfl,-⟩ := right
  rw [Num.leFin,Num.leFin,keptLe]

omit [NeZero p] in
theorem tracksLt (left : Tracks e x₁ y₁) (right : Tracks f x₂ y₂) : y₁ < y₂ ↔ x₁ < x₂ := by
  have order := tracksLe right left
  obtain ⟨v,rfl,rfl,-⟩ := left
  obtain ⟨w,rfl,rfl,-⟩ := right
  rw [Num.ltFin,Num.ltFin,← not_le,← not_le,← Num.leFin,← Num.leFin,order]

theorem literalTracked {q : ℚ} (tracks : Tracks e (Num.literal q) y) (room : e < top) : y = Num.literal q := by
  obtain ⟨v,isX,rfl,within⟩ := tracks
  have value : Rounded.of p q = v := Num.fin.inj isX
  subst value
  have inside : decide (|(Rounded.of p q).val| < 2 ^ top) = true := decide_eq_true (powerBelow room within)
  exact congrArg (fun kept => Num.fin (Bounded.mk (Rounded.of p q) kept)) (inside.symm.trans (Bool.true_and _).symm)

end Tracking
end MoltenPour.BoundedFormat
