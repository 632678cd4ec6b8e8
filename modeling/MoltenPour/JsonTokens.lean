import MoltenPour.ShortestDecimal
import MoltenPour.Printing

/-! The tokens of JSON text: numerals, and strings under an encoder's choice of what
to escape. What is written is read back as it was, whatever follows it. -/
namespace MoltenPour.JsonTokens
open Printing ShortestDecimal

structure Numeral where
  negative : Bool
  mantissa : ℕ
  places : ℕ
  exponent : Option ℤ
  deriving DecidableEq, Repr

namespace Numeral

def magnitude (n : Numeral) : ℚ := n.mantissa * 10 ^ (n.exponent.getD 0 - n.places)

def value (n : Numeral) : ℚ := if n.negative then -n.magnitude else n.magnitude

def ofInt (n : ℤ) : Numeral := ⟨decide (n < 0),n.natAbs,0,none⟩

def fractionText (places n : ℕ) : List Char :=
  if places = 0 then [] else '.' :: padded places 10 n

def exponentText : Option ℤ → List Char
  | none => []
  | some e => 'e' :: (if e < 0 then '-' else '+') :: Nat.toDigits 10 e.natAbs

def text (n : Numeral) : List Char :=
  (if n.negative then ['-'] else []) ++ Nat.toDigits 10 (n.mantissa / 10 ^ n.places) ++
    fractionText n.places (n.mantissa % 10 ^ n.places) ++ exponentText n.exponent

def layout (d : Decimal) : Numeral :=
  let length := (Nat.toDigits 10 d.digits).length
  let n := length + d.exponent
  if 0 ≤ d.exponent ∧ n ≤ 21 then ⟨false,d.digits * 10 ^ d.exponent.toNat,0,none⟩
  else if -6 < n ∧ n ≤ 21 then ⟨false,d.digits,(-d.exponent).toNat,none⟩
  else ⟨false,d.digits,length - 1,some (n - 1)⟩

def ofRounded (p : ℕ) (x : ℚ) : Numeral :=
  if x = 0 then ofInt 0 else { layout (shortest p |x|) with negative := decide (x < 0) }

end Numeral

def takeDigits (text : List Char) : List Char × List Char := text.span Char.isDigit

def scanSign : List Char → Bool × List Char
  | [] => (false,[])
  | c::rest => if c = '-' then (true,rest) else if c = '+' then (false,rest) else (false,c::rest)

def scanExponent : List Char → Option (Option ℤ × List Char)
  | [] => some (none,[])
  | c::rest =>
    if c = 'e' ∨ c = 'E' then
      let (negative,rest) := scanSign rest
      let (digits,rest) := takeDigits rest
      let e : ℤ := Nat.ofDigitChars 10 digits 0
      if digits = [] then none else some (some (if negative then -e else e),rest)
    else some (none,c::rest)

def scanFraction : List Char → Option (List Char × List Char)
  | [] => some ([],[])
  | c::rest =>
    if c = '.' then
      let (digits,rest) := takeDigits rest
      if digits = [] then none else some (digits,rest)
    else some ([],c::rest)

def scanNumeral (text : List Char) : Option (Numeral × List Char) :=
  let negative := text.head? = some '-'
  let (whole,rest) := takeDigits (if negative then text.tail else text)
  if whole = [] ∨ whole.head? = some '0' ∧ whole.length ≠ 1 then none
  else do
    let (fraction,rest) ← scanFraction rest
    let (exponent,rest) ← scanExponent rest
    some (⟨negative,Nat.ofDigitChars 10 (whole ++ fraction) 0,fraction.length,exponent⟩,rest)

def Stopped (rest : List Char) : Prop :=
  ∀ c ∈ rest.head?, c.isDigit = false ∧ c ≠ '.' ∧ c ≠ 'e' ∧ c ≠ 'E'

section Numerals

theorem digitsTaken {digits rest : List Char} (all : ∀ c ∈ digits, c.isDigit = true)
    (stop : ∀ c ∈ rest.head?, c.isDigit = false) :
    takeDigits (digits ++ rest) = (digits,rest) := by
  rw [takeDigits,List.span_eq_takeWhile_dropWhile,List.takeWhile_append_of_pos all,List.dropWhile_append_of_pos all]
  cases rest with
  | nil => simp
  | cons c rest => simp [stop c rfl]

theorem digitsOf {n : ℕ} : ∀ c ∈ Nat.toDigits 10 n, c.isDigit = true := fun _ mem =>
  Nat.isDigit_of_mem_toDigits (by decide) le_rfl mem

theorem paddedDigits (width n : ℕ) : ∀ c ∈ padded width 10 n, c.isDigit = true := by
  intro c mem
  rw [padded,List.leftpad] at mem
  cases List.mem_append.mp mem with
  | inl zero => exact (List.eq_of_mem_replicate zero) ▸ rfl
  | inr digit => exact digitsOf c digit

theorem leadingZero {n : ℕ} (zero : (Nat.toDigits 10 n).head? = some '0') : n = 0 := by
  induction n using Nat.strongRecOn with
  | _ n ih =>
    rcases lt_or_ge n 10 with one | more
    · rw [Nat.toDigits_of_lt_base one,List.head?_cons] at zero
      interval_cases n <;> simp_all [Nat.digitChar]
    · rw [Nat.toDigits_of_base_le (by decide) more,List.head?_append_of_ne_nil _ Nat.toDigits_ne_nil] at zero
      have front := ih (n / 10) (Nat.div_lt_self (by omega) (by decide)) zero
      omega

def fractionDigits (places n : ℕ) : List Char := if places = 0 then [] else padded places 10 n

theorem fractionLength (places n : ℕ) : (fractionDigits places (n % 10 ^ places)).length = places := by
  unfold fractionDigits
  split
  case isTrue none => rw [none,List.length_nil]
  case isFalse some_place =>
    exact paddedLength (Nat.pos_of_ne_zero some_place) (by decide) (Nat.mod_lt _ (by positivity))

theorem wholeFraction (mantissa places : ℕ) :
    Nat.ofDigitChars 10 (Nat.toDigits 10 (mantissa / 10 ^ places) ++
      fractionDigits places (mantissa % 10 ^ places)) 0 = mantissa := by
  rw [Nat.ofDigitChars_append,Nat.ofDigitChars_ten_toDigits,Nat.ofDigitChars_eq_ofDigitChars_zero,
    fractionLength]
  have value : Nat.ofDigitChars 10 (fractionDigits places (mantissa % 10 ^ places)) 0 =
      mantissa % 10 ^ places := by
    unfold fractionDigits
    split
    case isTrue none => simp [none,Nat.mod_one]
    case isFalse => exact paddedValue ..
  rw [value,Nat.div_add_mod]

theorem scanExponentText (e : Option ℤ) {rest : List Char} (stopped : Stopped rest) :
    scanExponent (Numeral.exponentText e ++ rest) = some (e,rest) := by
  cases e with
  | none =>
    cases rest with
    | nil => rfl
    | cons c rest =>
      obtain ⟨-,-,lower,upper⟩ := stopped c rfl
      simp [Numeral.exponentText,scanExponent,lower,upper]
  | some e =>
    have digits := digitsTaken (digitsOf (n := e.natAbs)) fun c mem => (stopped c mem).1
    rcases lt_or_ge e 0 with negative | nonneg
    · have value : -(e.natAbs : ℤ) = e := by omega
      simpa [Numeral.exponentText,scanExponent,scanSign,negative,digits,Nat.toDigits_ne_nil] using value
    · have value : (e.natAbs : ℤ) = e := by omega
      simpa [Numeral.exponentText,scanExponent,scanSign,nonneg.not_gt,digits,Nat.toDigits_ne_nil] using value

def Closed (tail : List Char) : Prop := ∀ c ∈ tail.head?, c.isDigit = false ∧ c ≠ '.'

theorem exponentCloses (e : Option ℤ) {rest : List Char} (stopped : Stopped rest) :
    Closed (Numeral.exponentText e ++ rest) := by
  intro c head
  cases e with
  | none => exact ⟨(stopped c head).1,(stopped c head).2.1⟩
  | some e =>
    cases head
    exact ⟨rfl,by decide⟩

theorem scanFractionText (places n : ℕ) {tail : List Char} (closed : Closed tail) :
    scanFraction (Numeral.fractionText places n ++ tail) = some (fractionDigits places n,tail) := by
  unfold Numeral.fractionText fractionDigits
  split
  case isTrue =>
    cases tail with
    | nil => rfl
    | cons c rest => simp [scanFraction,(closed c rfl).2]
  case isFalse some_place =>
    have digits := digitsTaken (paddedDigits places n) fun c mem => (closed c mem).1
    have nonempty : padded places 10 n ≠ [] := by
      simp [padded,List.leftpad,Nat.toDigits_ne_nil]
    simp [scanFraction,digits,nonempty]

theorem fractionCloses (places n : ℕ) {tail : List Char} (closed : Closed tail) :
    ∀ c ∈ (Numeral.fractionText places n ++ tail).head?, c.isDigit = false := by
  intro c head
  unfold Numeral.fractionText at head
  split at head
  case isTrue => exact (closed c head).1
  case isFalse =>
    cases head
    rfl

theorem scanText (n : Numeral) {rest : List Char} (stopped : Stopped rest) :
    scanNumeral (n.text ++ rest) = some (n,rest) := by
  obtain ⟨negative,mantissa,places,exponent⟩ := n
  have closed := exponentCloses exponent stopped
  have whole := digitsTaken (digitsOf (n := mantissa / 10 ^ places))
    (fractionCloses places (mantissa % 10 ^ places) closed)
  have lead : ¬ ((Nat.toDigits 10 (mantissa / 10 ^ places)).head? = some '0' ∧
      (Nat.toDigits 10 (mantissa / 10 ^ places)).length ≠ 1) := by
    rintro ⟨zero,long⟩
    rw [leadingZero zero] at long
    exact long rfl
  have unsigned : (Nat.toDigits 10 (mantissa / 10 ^ places)).head? ≠ some '-' := by
    intro dash
    exact absurd (digitsOf _ (List.mem_of_head? dash)) (by decide)
  have fraction := scanFractionText places (mantissa % 10 ^ places) closed
  have scanned := scanExponentText exponent stopped
  have value := wholeFraction mantissa places
  have length := fractionLength places mantissa
  cases negative with
  | true =>
    simp [scanNumeral,Numeral.text,List.append_assoc,whole,Nat.toDigits_ne_nil,lead,fraction,scanned,value,length]
  | false =>
    simp [scanNumeral,Numeral.text,List.append_assoc,unsigned,whole,Nat.toDigits_ne_nil,lead,fraction,scanned,
      value,length]

end Numerals

section Values
open BinaryRounding (Fits)

theorem ofIntValue (n : ℤ) : (Numeral.ofInt n).value = n := by
  rcases lt_or_ge n 0 with negative | nonneg
  · have abs : (n.natAbs : ℚ) = -n := by
      rw [Nat.cast_natAbs,abs_of_neg negative,Int.cast_neg]
    simp [Numeral.ofInt,Numeral.value,Numeral.magnitude,negative,abs]
  · have abs : (n.natAbs : ℚ) = n := by rw [Nat.cast_natAbs,abs_of_nonneg nonneg]
    simp [Numeral.ofInt,Numeral.value,Numeral.magnitude,nonneg.not_gt,abs]

theorem layoutMagnitude (d : Decimal) : (Numeral.layout d).magnitude = d.value := by
  have some_digit : 0 < (Nat.toDigits 10 d.digits).length := Nat.length_toDigits_pos
  unfold Numeral.layout
  dsimp only
  split_ifs with whole plain
  · obtain ⟨e,same⟩ := Int.eq_ofNat_of_zero_le whole.1
    rw [Numeral.magnitude,Decimal.value,same]
    simp
  · have fraction : d.exponent < 0 := by omega
    rw [Numeral.magnitude,Decimal.value]
    congr 2
    simp only [Option.getD_none]
    omega
  · rw [Numeral.magnitude,Decimal.value]
    congr 2
    simp only [Option.getD_some]
    omega

theorem signedValue (n : Numeral) (negative : Bool) :
    { n with negative := negative }.value = if negative then -n.magnitude else n.magnitude := rfl

theorem roundedReads {p : ℕ} (hp : 0 < p) {x : ℚ} (fits : Fits p x) :
    BinaryRounding.round p (Numeral.ofRounded p x).value = x := by
  unfold Numeral.ofRounded
  split
  case isTrue zero =>
    rw [ofIntValue,Int.cast_zero,zero]
    exact BinaryRounding.roundOfFits hp (BinaryRounding.fitsZero p)
  case isFalse some_value =>
    obtain ⟨k,-,-,back,-⟩ := shortestFound hp (fitsAbs fits) (abs_pos.mpr some_value)
    have magnitude := layoutMagnitude (shortest p |x|)
    rw [signedValue,magnitude]
    rcases lt_or_ge x 0 with negative | nonneg
    · rw [if_pos (decide_eq_true negative),BinaryRounding.roundNeg,back,abs_of_neg negative,neg_neg]
    · rw [if_neg (by simpa using nonneg),back,abs_of_nonneg nonneg]

theorem roundedWhole {p : ℕ} (hp : 0 < p) {n : ℤ} (small : |n| < 2 ^ p) (short : |n| < 10 ^ 21) :
    Numeral.ofRounded p n = Numeral.ofInt n := by
  unfold Numeral.ofRounded
  split
  case isTrue zero => rw [Int.cast_eq_zero.mp zero]
  case isFalse some_value =>
    have positive : 0 < n.natAbs := Int.natAbs_pos.mpr fun zero => some_value (by rw [zero,Int.cast_zero])
    have size : |(n : ℚ)| = n.natAbs := by rw [Nat.cast_natAbs,Int.cast_abs]
    have bound : n.natAbs < 2 ^ p := by zify; exact small
    have short : n.natAbs < 10 ^ 21 := by zify; exact short
    rw [size]
    obtain ⟨value,nonneg⟩ := shortestWhole hp positive bound
    generalize shortest p n.natAbs = d at value nonneg
    obtain ⟨s,e⟩ := d
    obtain ⟨e,rfl⟩ := Int.eq_ofNat_of_zero_le nonneg
    have whole : s * 10 ^ e = n.natAbs := by
      rw [Decimal.value,zpow_natCast] at value
      exact_mod_cast value
    have some_digit : 0 < s := by
      by_contra none
      simp [Nat.eq_zero_of_not_pos none] at whole
      omega
    have room : e < 21 := by
      by_contra beyond
      have least : 10 ^ 21 ≤ 10 ^ e := Nat.pow_le_pow_right (by decide) (not_lt.mp beyond)
      nlinarith
    have digits : (Nat.toDigits 10 s).length ≤ 21 - e := by
      rw [Nat.length_toDigits_le_iff (by decide) (by omega)]
      rw [← whole,← Nat.sub_add_cancel room.le,pow_add] at short
      exact lt_of_mul_lt_mul_right short (by positivity)
    have plain : (0 : ℤ) ≤ e ∧ ((Nat.toDigits 10 s).length : ℤ) + e ≤ 21 := by omega
    rw [Numeral.layout]
    simp only [plain,and_self,if_true,Int.toNat_natCast,whole]
    rw [Numeral.ofInt,show decide ((n : ℚ) < 0) = decide (n < 0) by simp]

theorem signLength (n : Numeral) (negative : Bool) :
    { n with negative := negative }.text.length ≤ n.text.length + 1 := by
  obtain ⟨sign,mantissa,places,exponent⟩ := n
  cases negative <;> cases sign <;> simp [Numeral.text,Nat.add_assoc]

theorem digitsLength {n k : ℕ} (some_digit : 0 < k) (less : n < 10 ^ k) : (Nat.toDigits 10 n).length ≤ k :=
  (Nat.length_toDigits_le_iff (by decide) some_digit).mpr less

theorem layoutLength {d : Decimal} {k j : ℕ} (some_digit : 0 < k) (digits : d.digits < 10 ^ k) (some_place : 0 < j)
    (first : ((Nat.toDigits 10 d.digits).length + d.exponent - 1).natAbs < 10 ^ j) :
    (Numeral.layout d).text.length ≤ 2 * k + j + 21 := by
  have short := digitsLength some_digit digits
  have part : ∀ places, (Nat.toDigits 10 (d.digits / 10 ^ places)).length ≤ k := fun places =>
    digitsLength some_digit ((Nat.div_le_self _ _).trans_lt digits)
  have fraction : ∀ places, (Numeral.fractionText places (d.digits % 10 ^ places)).length ≤ places + 1 := by
    intro places
    unfold Numeral.fractionText
    split
    case isTrue => simp
    case isFalse some_place =>
      have width := paddedLength (Nat.pos_of_ne_zero some_place) (by decide : 1 < 10)
        (Nat.mod_lt d.digits (by positivity : 0 < 10 ^ places))
      rw [List.length_cons,width]
  unfold Numeral.layout
  dsimp only
  split_ifs with whole plain
  · have value : d.digits * 10 ^ d.exponent.toNat < 10 ^ 21 := by
      have bound : d.digits < 10 ^ (Nat.toDigits 10 d.digits).length :=
        (Nat.length_toDigits_le_iff (by decide) Nat.length_toDigits_pos).mp le_rfl
      calc d.digits * 10 ^ d.exponent.toNat
          < 10 ^ (Nat.toDigits 10 d.digits).length * 10 ^ d.exponent.toNat :=
            Nat.mul_lt_mul_of_pos_right bound (by positivity)
        _ = 10 ^ ((Nat.toDigits 10 d.digits).length + d.exponent.toNat) := (pow_add ..).symm
        _ ≤ 10 ^ 21 := Nat.pow_le_pow_right (by decide) (by omega)
    have few := digitsLength (by decide) value
    simp only [Numeral.text,Numeral.fractionText,Numeral.exponentText,Bool.false_eq_true,if_false,if_true,pow_zero,
      Nat.div_one,List.nil_append,List.append_nil]
    omega
  · have before := part (-d.exponent).toNat
    have after := fraction (-d.exponent).toNat
    simp only [Numeral.text,Numeral.exponentText,Bool.false_eq_true,if_false,List.nil_append,List.append_nil,
      List.length_append]
    omega
  · have before := part ((Nat.toDigits 10 d.digits).length - 1)
    have after := fraction ((Nat.toDigits 10 d.digits).length - 1)
    have power := digitsLength some_place first
    simp only [Numeral.text,Numeral.exponentText,Bool.false_eq_true,if_false,List.nil_append,List.length_append,
      List.length_cons]
    omega

end Values

structure Escaping where
  coded : Char → Bool
  controls : ∀ c, c.toNat < 32 → coded c = true
  narrow : ∀ c, coded c = true → c.toNat < 65536

def shortEscape (c : Char) : Option Char :=
  if c = '"' ∨ c = '\\' then some c
  else if c = '\n' then some 'n'
  else if c = '\r' then some 'r'
  else if c = '\t' then some 't'
  else if c.toNat = 8 then some 'b'
  else if c.toNat = 12 then some 'f'
  else none

def unescape (e : Char) : Option Char :=
  if e = '"' ∨ e = '\\' ∨ e = '/' then some e
  else if e = 'n' then some '\n'
  else if e = 'r' then some '\r'
  else if e = 't' then some '\t'
  else if e = 'b' then some (Char.ofNat 8)
  else if e = 'f' then some (Char.ofNat 12)
  else none

def hexText (n : ℕ) : List Char := [n / 4096,n / 256 % 16,n / 16 % 16,n % 16].map Nat.digitChar

def Escaping.write (e : Escaping) (c : Char) : List Char :=
  match shortEscape c with
  | some letter => ['\\',letter]
  | none => if e.coded c then '\\' :: 'u' :: hexText c.toNat else [c]

def hexDigit (c : Char) : Option ℕ :=
  if c.isDigit then some (c.toNat - 48)
  else if 'a' ≤ c ∧ c ≤ 'f' then some (c.toNat - 87)
  else if 'A' ≤ c ∧ c ≤ 'F' then some (c.toNat - 55)
  else none

def scanHex : List Char → Option (ℕ × List Char)
  | a::b::c::d::rest => do
      let a ← hexDigit a
      let b ← hexDigit b
      let c ← hexDigit c
      let d ← hexDigit d
      some (((a * 16 + b) * 16 + c) * 16 + d,rest)
  | _ => none

def replacement : Char := Char.ofNat 0xFFFD

/- One code unit, or two that make a pair; half a pair alone is replaced. -/
def scanUnicode (text : List Char) : Option (Char × List Char) := do
  let (unit,rest) ← scanHex text
  if 0xD800 ≤ unit ∧ unit < 0xDC00 then
    match rest with
    | '\\' :: 'u' :: after =>
        match scanHex after with
        | some (low,after) =>
            if 0xDC00 ≤ low ∧ low < 0xE000 then
              some (Char.ofNat (0x10000 + (unit - 0xD800) * 1024 + (low - 0xDC00)),after)
            else some (replacement,rest)
        | none => none
    | _ => some (replacement,rest)
  else if 0xDC00 ≤ unit ∧ unit < 0xE000 then some (replacement,rest)
  else some (Char.ofNat unit,rest)

def scanChar : List Char → Option (Char × List Char)
  | [] => none
  | c::rest =>
    if c = '\\' then
      match rest with
      | [] => none
      | e::after => if e = 'u' then scanUnicode after else (unescape e).map (·,after)
    else if c = '"' ∨ c.toNat < 32 then none
    else some (c,rest)

def scanChars : ℕ → List Char → Option (List Char × List Char)
  | 0,_ => none
  | n + 1,text =>
    if text.head? = some '"' then some ([],text.tail)
    else do
      let (c,rest) ← scanChar text
      let (more,rest) ← scanChars n rest
      some (c::more,rest)

def scanString (text : List Char) : Option (String × List Char) :=
  (scanChars text.length text).map fun (s,rest) => (String.ofList s,rest)

section Strings

theorem hexDigitRead : ∀ d < 16, hexDigit (Nat.digitChar d) = some d := by decide

theorem hexRead {n : ℕ} (small : n < 65536) (rest : List Char) :
    scanHex (hexText n ++ rest) = some (n,rest) := by
  have first := hexDigitRead (n / 4096) (by omega)
  have second := hexDigitRead (n / 256 % 16) (Nat.mod_lt _ (by decide))
  have third := hexDigitRead (n / 16 % 16) (Nat.mod_lt _ (by decide))
  have fourth := hexDigitRead (n % 16) (Nat.mod_lt _ (by decide))
  have value : ((n / 4096 * 16 + n / 256 % 16) * 16 + n / 16 % 16) * 16 + n % 16 = n := by omega
  simp [hexText,scanHex,first,second,third,fourth,value]

theorem unicodeRead {c : Char} (small : c.toNat < 65536) (rest : List Char) :
    scanUnicode (hexText c.toNat ++ rest) = some (c,rest) := by
  have valid : c.toNat < 0xD800 ∨ 0xE000 ≤ c.toNat := by
    obtain low | high := c.valid
    · exact .inl low
    · exact .inr high.1
  have high : ¬ (0xD800 ≤ c.toNat ∧ c.toNat < 0xDC00) := by omega
  have low : ¬ (0xDC00 ≤ c.toNat ∧ c.toNat < 0xE000) := by omega
  simp only [scanUnicode,hexRead small,Option.bind_eq_bind,Option.bind_some,high,low,if_false,Char.ofNat_toNat]

theorem shortRead {c letter : Char} (short : shortEscape c = some letter) :
    letter ≠ 'u' ∧ unescape letter = some c := by
  unfold shortEscape at short
  split_ifs at short with itself newline carriage tab backspace feed
  case pos =>
    cases short
    rcases itself with rfl | rfl <;> decide
  all_goals cases short
  · exact ⟨by decide,by rw [newline]; rfl⟩
  · exact ⟨by decide,by rw [carriage]; rfl⟩
  · exact ⟨by decide,by rw [tab]; rfl⟩
  · refine ⟨by decide,?_⟩
    rw [← Char.ofNat_toNat c,backspace]
    rfl
  · refine ⟨by decide,?_⟩
    rw [← Char.ofNat_toNat c,feed]
    rfl

variable (e : Escaping)

theorem charRead (c : Char) (rest : List Char) : scanChar (e.write c ++ rest) = some (c,rest) := by
  unfold Escaping.write
  split
  case h_1 letter short =>
    obtain ⟨plain,read⟩ := shortRead short
    simp [scanChar,plain,read]
  case h_2 long =>
    split
    case isTrue coded => simpa [scanChar] using unicodeRead (e.narrow c coded) rest
    case isFalse verbatim =>
      have apart : ¬ (c = '"' ∨ c = '\\') := by
        intro special
        simp [shortEscape,special] at long
      obtain ⟨quote,slash⟩ := not_or.mp apart
      have printed : ¬ c.toNat < 32 := fun control => verbatim (e.controls c control)
      simp [scanChar,slash,quote,printed]

theorem writeOpens (c : Char) (rest : List Char) : (e.write c ++ rest).head? ≠ some '"' := by
  intro quote
  obtain ⟨tail,same⟩ := List.head?_eq_some_iff.mp quote
  have read := charRead e c rest
  rw [same] at read
  simp [scanChar] at read

theorem charsRead (s rest : List Char) {n : ℕ} (room : s.length < n) :
    scanChars n (s.flatMap e.write ++ '"'::rest) = some (s,rest) := by
  induction s generalizing n with
  | nil =>
    obtain ⟨m,rfl⟩ : ∃ m, n = m + 1 := ⟨n - 1,by simp at room; omega⟩
    rfl
  | cons c s ih =>
    obtain ⟨m,rfl⟩ : ∃ m, n = m + 1 := ⟨n - 1,by simp at room; omega⟩
    have more := ih (Nat.lt_of_succ_lt_succ room)
    simp only [List.flatMap_cons,List.append_assoc,scanChars]
    rw [if_neg (writeOpens e c _),charRead]
    simp [more]

def quoted (s : String) : List Char := '"' :: (s.toList.flatMap e.write ++ ['"'])

theorem writeLength (c : Char) : 1 ≤ (e.write c).length := by
  cases written : e.write c with
  | nil =>
    have read := charRead e c []
    rw [written] at read
    simp [scanChar] at read
  | cons => simp

theorem stringRead (s : String) (rest : List Char) :
    scanString (s.toList.flatMap e.write ++ '"'::rest) = some (s,rest) := by
  have room : s.toList.length < (s.toList.flatMap e.write ++ '"'::rest).length := by
    have each : s.toList.length ≤ (s.toList.flatMap e.write).length := by
      rw [List.length_flatMap]
      calc s.toList.length = (s.toList.map fun _ => 1).sum := by simp
        _ ≤ (s.toList.map fun c => (e.write c).length).sum :=
            List.sum_le_sum fun c _ => writeLength e c
    simp only [List.length_append,List.length_cons]
    omega
  rw [scanString,charsRead e _ _ room]
  simp

end Strings

end MoltenPour.JsonTokens
