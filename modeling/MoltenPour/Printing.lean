import Mathlib.Tactic
import Mathlib.Data.Nat.Digits.Defs

/-! Numbers printed in a base and padded with zeros to a width, as printf verbs
print them. A padded decimal never loses its value, also where the number is
wider than the padding; below the padding's range the width is exact. -/
namespace MoltenPour.Printing

def padded (width base n : ℕ) : List Char := List.leftpad width '0' (Nat.toDigits base n)

theorem paddedValue (width n : ℕ) : Nat.ofDigitChars 10 (padded width 10 n) 0 = n := by
  simp [padded,List.leftpad,Nat.ofDigitChars_append]

theorem paddedInj {width a b : ℕ} (same : padded width 10 a = padded width 10 b) : a = b := by
  have value := congrArg (fun digits => Nat.ofDigitChars 10 digits 0) same
  simpa only [paddedValue] using value

theorem toDigitsInj {a b : ℕ} (same : Nat.toDigits 10 a = Nat.toDigits 10 b) : a = b := by
  have value := congrArg (fun digits => Nat.ofDigitChars 10 digits 0) same
  simpa only [Nat.ofDigitChars_ten_toDigits] using value

theorem paddedLength {width base n : ℕ} (positive : 0 < width) (hb : 1 < base) (small : n < base ^ width) :
    (padded width base n).length = width := by
  have digits := (Nat.length_toDigits_le_iff hb positive).mpr small
  rw [padded,List.length_leftpad]
  omega

theorem beforeFixed {a b s t : List Char} (width : s.length = t.length)
    (same : String.ofList (a ++ s) = String.ofList (b ++ t)) : a = b :=
  (List.append_inj' (String.ofList_injective same) width).1

theorem afterFixed {a b s t : List Char} (width : s.length = t.length)
    (same : String.ofList (s ++ a) = String.ofList (t ++ b)) : a = b :=
  (List.append_inj (String.ofList_injective same) width).2

end MoltenPour.Printing
