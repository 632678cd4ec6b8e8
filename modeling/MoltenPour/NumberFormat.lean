import Mathlib.Tactic
import Mathlib.Algebra.Order.Floor.Ring
import Mathlib.Data.Rat.Floor

/-! Numbers as a programming language with a floating format sees them: the
finite values of a carrier, two infinities and NaN. A `Format` supplies the
operations on finite values with their rounding; the laws kept here are the
signs every rounding mode respects. Zeros of either sign are identified. -/
namespace MoltenPour.NumberFormat

class Format (K : Type) [LinearOrder K] [Zero K] where
  literal : ℚ → K
  add : K → K → K
  sub : K → K → K
  mul : K → K → K
  div : K → K → K
  sqrt : K → K
  floor : K → ℤ
  ceil : K → ℤ
  nearest : K → ℤ
  literalZero : literal 0 = 0
  literalPos : ∀ {q : ℚ}, 0 < q → 0 < literal q
  addNonneg : ∀ {a b : K}, 0 ≤ a → 0 ≤ b → 0 ≤ add a b
  mulNonneg : ∀ {a b : K}, 0 ≤ a → 0 ≤ b → 0 ≤ mul a b
  divNonneg : ∀ {a b : K}, 0 ≤ a → 0 < b → 0 ≤ div a b
  sqrtNonneg : ∀ {a : K}, 0 ≤ a → 0 ≤ sqrt a
  floorNonneg : ∀ {a : K}, 0 ≤ a → 0 ≤ floor a

instance numeralTwo : Nat.AtLeastTwo 2 := ⟨le_rfl⟩
instance numeralSixteen : Nat.AtLeastTwo 16 := ⟨by decide⟩
instance numeralThirty : Nat.AtLeastTwo 30 := ⟨by decide⟩
instance numeralHundred : Nat.AtLeastTwo 100 := ⟨by decide⟩
instance numeralThousand : Nat.AtLeastTwo 1000 := ⟨by decide⟩
instance numeralHardStop : Nat.AtLeastTwo 15000 := ⟨by decide⟩

/- An ordered field needs only a square root to be the format that rounds nothing. -/
class SquareRoot (K : Type) [Zero K] [LE K] where
  sqrt : K → K
  nonneg : ∀ {a : K}, 0 ≤ a → 0 ≤ sqrt a

instance exact {K : Type} [Field K] [LinearOrder K] [IsStrictOrderedRing K] [FloorRing K]
    [SquareRoot K] : Format K where
  literal q := (q : K)
  add a b := a + b
  sub a b := a - b
  mul a b := a * b
  div a b := a / b
  sqrt := SquareRoot.sqrt
  floor a := ⌊a⌋
  ceil a := ⌈a⌉
  nearest a := ⌊a + 1 / 2⌋
  literalZero := Rat.cast_zero
  literalPos h := Rat.cast_pos.mpr h
  addNonneg := add_nonneg
  mulNonneg := mul_nonneg
  divNonneg ha hb := div_nonneg ha hb.le
  sqrtNonneg := SquareRoot.nonneg
  floorNonneg := Int.floor_nonneg.mpr

inductive Num (K : Type) where
  | nan
  | inf (negative : Bool)
  | fin (value : K)
  deriving DecidableEq, Repr

namespace Num
variable {K : Type} [LinearOrder K] [Zero K] [Format K]

def isFinite : Num K → Bool
  | .fin _ => true
  | _ => false

def literal (q : ℚ) : Num K := .fin (Format.literal q)

instance (n : Nat) : OfNat (Num K) n := ⟨literal n⟩
instance : OfScientific (Num K) := ⟨fun m s e => literal (OfScientific.ofScientific m s e : ℚ)⟩
instance : IntCast (Num K) := ⟨fun n => literal n⟩

def less : Num K → Num K → Bool
  | .nan, _ | _, .nan => false
  | .fin a, .fin b => decide (a < b)
  | .inf s, .inf t => s && !t
  | .inf s, .fin _ => s
  | .fin _, .inf t => !t

def atMost : Num K → Num K → Bool
  | .nan, _ | _, .nan => false
  | .fin a, .fin b => decide (a ≤ b)
  | .inf s, .inf t => s || !t
  | .inf s, .fin _ => s
  | .fin _, .inf t => !t

instance : LT (Num K) := ⟨fun a b => less a b = true⟩
instance : LE (Num K) := ⟨fun a b => atMost a b = true⟩
instance (a b : Num K) : Decidable (a < b) := inferInstanceAs (Decidable (less a b = true))
instance (a b : Num K) : Decidable (a ≤ b) := inferInstanceAs (Decidable (atMost a b = true))

def negative : Num K → Bool
  | .nan => false
  | .inf s => s
  | .fin a => decide (a < 0)

def neg : Num K → Num K
  | .nan => .nan
  | .inf s => .inf (!s)
  | .fin a => .fin (Format.sub 0 a)

def add : Num K → Num K → Num K
  | .nan, _ | _, .nan => .nan
  | .fin a, .fin b => .fin (Format.add a b)
  | .inf s, .inf t => if s = t then .inf s else .nan
  | .inf s, .fin _ | .fin _, .inf s => .inf s

def sub : Num K → Num K → Num K
  | .fin a, .fin b => .fin (Format.sub a b)
  | a, b => add a (neg b)

def mul : Num K → Num K → Num K
  | .nan, _ | _, .nan => .nan
  | .fin a, .fin b => .fin (Format.mul a b)
  | a, b => if a = .fin 0 ∨ b = .fin 0 then .nan else .inf (negative a != negative b)

def div : Num K → Num K → Num K
  | .nan, _ | _, .nan => .nan
  | .fin a, .fin b =>
      if b = 0 then if a = 0 then .nan else .inf (decide (a < 0)) else .fin (Format.div a b)
  | .inf _, .inf _ => .nan
  | .inf s, .fin b => .inf (s != decide (b < 0))
  | .fin _, .inf _ => .fin 0

def sqrt : Num K → Num K
  | .fin a => if a < 0 then .nan else .fin (Format.sqrt a)
  | .inf false => .inf false
  | _ => .nan

def floor : Num K → Num K
  | .fin a => literal (Format.floor a)
  | a => a

def ceil : Num K → Num K
  | .fin a => literal (Format.ceil a)
  | a => a

def min (a b : Num K) : Num K :=
  if a = .nan ∨ b = .nan then .nan else if a < b then a else b

def max (a b : Num K) : Num K :=
  if a = .nan ∨ b = .nan then .nan else if a < b then b else a

instance : Add (Num K) := ⟨add⟩
instance : Sub (Num K) := ⟨sub⟩
instance : Mul (Num K) := ⟨mul⟩
instance : Div (Num K) := ⟨div⟩

/- The integer part, rounding toward zero: the value both ToUint32 and Go's
integer conversions start from. -/
def truncate (a : K) : ℤ := if a < 0 then Format.ceil a else Format.floor a

@[simp] theorem zeroFin : (0 : Num K) = .fin 0 :=
  congrArg Num.fin ((congrArg Format.literal Nat.cast_zero).trans Format.literalZero)

theorem literalNonneg {q : ℚ} (h : 0 ≤ q) : (0 : K) ≤ Format.literal q := by
  rcases h.eq_or_lt with rfl | positive
  · exact Format.literalZero.ge
  · exact (Format.literalPos positive).le

@[simp] theorem addFin (a b : K) : (Num.fin a + Num.fin b : Num K) = .fin (Format.add a b) := rfl
@[simp] theorem subFin (a b : K) : (Num.fin a - Num.fin b : Num K) = .fin (Format.sub a b) := rfl
@[simp] theorem mulFin (a b : K) : (Num.fin a * Num.fin b : Num K) = .fin (Format.mul a b) := rfl
@[simp] theorem floorFin (a : K) : floor (.fin a) = literal (Format.floor a) := rfl
@[simp] theorem ceilFin (a : K) : ceil (.fin a) = literal (Format.ceil a) := rfl
omit [Zero K] [Format K] in
@[simp] theorem ltFin (a b : K) : (Num.fin a < Num.fin b) ↔ a < b := decide_eq_true_iff
omit [Zero K] [Format K] in
@[simp] theorem leFin (a b : K) : (Num.fin a ≤ Num.fin b) ↔ a ≤ b := decide_eq_true_iff

omit [Zero K] [Format K] in
@[simp] theorem minFin (a b : K) : min (.fin a) (.fin b) = .fin (Min.min a b) := by
  rcases lt_or_ge a b with h | h
  · simp [min,h,min_eq_left h.le]
  · simp [min,h.not_gt,min_eq_right h]

omit [Zero K] [Format K] in
@[simp] theorem maxFin (a b : K) : max (.fin a) (.fin b) = .fin (Max.max a b) := by
  rcases lt_or_ge a b with h | h
  · simp [max,h,max_eq_right h.le]
  · simp [max,h.not_gt,max_eq_left h]

theorem divFin (a : K) {b : K} (h : b ≠ 0) :
    (Num.fin a / Num.fin b : Num K) = .fin (Format.div a b) := if_neg h

theorem sqrtFin {a : K} (h : 0 ≤ a) : sqrt (.fin a) = .fin (Format.sqrt a) := if_neg h.not_gt

omit [LinearOrder K] [Zero K] [Format K] in
theorem finiteExists {a : Num K} (h : a.isFinite = true) : ∃ x, a = .fin x := by
  cases a with
  | fin x => exact ⟨x,rfl⟩
  | nan => contradiction
  | inf s => contradiction

theorem literalAtLeast {q : ℚ} (h : 0 ≤ q) : (0 : Num K) ≤ literal q := by
  rw [zeroFin,literal,leFin]
  exact literalNonneg h

@[simp] theorem literalFinite (q : ℚ) : (literal q : Num K).isFinite = true := rfl

theorem addFinite {a b : Num K} (ha : a.isFinite = true) (hb : b.isFinite = true) :
    (a + b).isFinite = true := by
  obtain ⟨x,rfl⟩ := finiteExists ha
  obtain ⟨y,rfl⟩ := finiteExists hb
  rfl

theorem subFinite {a b : Num K} (ha : a.isFinite = true) (hb : b.isFinite = true) :
    (a - b).isFinite = true := by
  obtain ⟨x,rfl⟩ := finiteExists ha
  obtain ⟨y,rfl⟩ := finiteExists hb
  rfl

theorem mulFinite {a b : Num K} (ha : a.isFinite = true) (hb : b.isFinite = true) :
    (a * b).isFinite = true := by
  obtain ⟨x,rfl⟩ := finiteExists ha
  obtain ⟨y,rfl⟩ := finiteExists hb
  rfl

theorem divFinite {a b : Num K} (ha : a.isFinite = true) (hb : b.isFinite = true)
    (nonzero : b ≠ .fin 0) : (a / b).isFinite = true := by
  obtain ⟨x,rfl⟩ := finiteExists ha
  obtain ⟨y,rfl⟩ := finiteExists hb
  rw [divFin x (fun zero => nonzero (congrArg Num.fin zero))]
  rfl

theorem floorFinite {a : Num K} (ha : a.isFinite = true) : (floor a).isFinite = true := by
  obtain ⟨x,rfl⟩ := finiteExists ha
  rfl

theorem literalNonzero {q : ℚ} (h : 0 < q) : (literal q : Num K) ≠ .fin 0 :=
  fun zero => (Format.literalPos h).ne' (Num.fin.inj zero)

end Num
end MoltenPour.NumberFormat
