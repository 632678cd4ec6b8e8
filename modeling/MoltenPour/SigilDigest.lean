import MoltenPour.Sigil
import MoltenPour.Fnv
import MoltenPour.JsonTokens

/-! sigilDigest of app/sigil/sigil.ts: what the golden digest of a drawing tells two
engines apart by. -/
namespace MoltenPour.SigilDigest
open Printing Sigil

def Tendril.texts (t : Tendril) : List String :=
  [t.x1.text,t.y1.text,t.x2.text,t.y2.text,t.strokeOpacity.text,t.strokeWidth.text]

def Satellite.texts (s : Satellite) : List String := [s.cx.text,s.cy.text,s.r.text,s.fillOpacity.text]

def drawn (g : SigilGeometry) : List String :=
  g.viewBox::g.pool.text::(g.tendrils.flatMap Tendril.texts ++ g.satellites.flatMap Satellite.texts)

def charByte (c : Char) : UInt32 := c.val &&& 0xff

def feed (h : UInt32) (s : String) : UInt32 :=
  Fnv.round (s.toList.foldl (fun h c => Fnv.round h (charByte c)) h) 0x1f

def sigilDigest {K : Type} [Field K] [LinearOrder K] [IsStrictOrderedRing K] [FloorRing K] (trig : Trig K)
    (seed : UInt32) : UInt32 :=
  (drawn (generateSigil trig seed)).foldl feed Fnv.offset

section Stream

def bytes (texts : List String) : List UInt32 := texts.flatMap fun s => s.toList.map charByte ++ [0x1f]

theorem feedBytes (h : UInt32) (texts : List String) : texts.foldl feed h = (bytes texts).foldl Fnv.round h := by
  induction texts generalizing h with
  | nil => rfl
  | cons s rest ih =>
    have first : feed h s = (s.toList.map charByte ++ [0x1f]).foldl Fnv.round h := by
      rw [List.foldl_append,List.foldl_map]
      rfl
    rw [List.foldl_cons,ih,first,← List.foldl_append]
    rfl

def Plain (s : String) : Prop := ∀ c ∈ s.toList, c.toNat < 128 ∧ c.toNat ≠ 31

instance (s : String) : Decidable (Plain s) :=
  decidable_of_iff ((s.toList.all fun c => decide (c.toNat < 128) && decide (c.toNat ≠ 31)) = true) (by simp [Plain])

theorem charByteNat {c : Char} (small : c.toNat < 128) : (charByte c).toNat = c.toNat := by
  have mask : c.toNat &&& 255 = c.toNat % 256 := Nat.and_two_pow_sub_one_eq_mod c.toNat 8
  have value : (charByte c).toNat = c.toNat &&& 255 := UInt32.toNat_and ..
  rw [value,mask]
  omega

theorem charByteInj {c d : Char} (left : c.toNat < 128) (right : d.toNat < 128) (same : charByte c = charByte d) :
    c = d := by
  have values := congrArg UInt32.toNat same
  rw [charByteNat left,charByteNat right] at values
  exact Char.toNat_inj.mp values

theorem byteSmall (c : Char) : (charByte c).toNat < 256 := by
  have mask : c.toNat &&& 255 = c.toNat % 256 := Nat.and_two_pow_sub_one_eq_mod c.toNat 8
  have value : (charByte c).toNat = c.toNat &&& 255 := UInt32.toNat_and ..
  rw [value,mask]
  omega

theorem bytesSmall (s : String) (rest : List String) : ∀ b ∈ bytes (s::rest), b.toNat < 256 := by
  intro b mem
  simp only [bytes,List.mem_flatMap,List.mem_append,List.mem_map,List.mem_singleton] at mem
  obtain ⟨t,-,⟨c,-,rfl⟩ | rfl⟩ := mem
  · exact byteSmall c
  · decide

theorem firstText {s t : List Char} {more rest : List UInt32} (left : ∀ c ∈ s, c.toNat < 128 ∧ c.toNat ≠ 31)
    (right : ∀ c ∈ t, c.toNat < 128 ∧ c.toNat ≠ 31)
    (same : s.map charByte ++ 0x1f::more = t.map charByte ++ 0x1f::rest) : s = t ∧ more = rest := by
  have apart : ∀ c : Char, c.toNat < 128 ∧ c.toNat ≠ 31 → charByte c ≠ 0x1f := by
    intro c plain separator
    have value := congrArg UInt32.toNat separator
    rw [charByteNat plain.1] at value
    exact plain.2 value
  induction s generalizing t with
  | nil =>
    cases t with
    | nil => exact ⟨rfl,(List.cons.inj same).2⟩
    | cons d t => exact absurd (List.cons.inj same).1.symm (apart d (right d List.mem_cons_self))
  | cons c s ih =>
    cases t with
    | nil => exact absurd (List.cons.inj same).1 (apart c (left c List.mem_cons_self))
    | cons d t =>
      obtain ⟨head,tail⟩ := List.cons.inj same
      obtain ⟨texts,after⟩ := ih (fun c mem => left c (List.mem_cons_of_mem _ mem))
        (fun c mem => right c (List.mem_cons_of_mem _ mem)) tail
      have chars := charByteInj (left c List.mem_cons_self).1 (right d List.mem_cons_self).1 head
      exact ⟨by rw [chars,texts],after⟩

theorem bytesTell {texts others : List String} (left : ∀ s ∈ texts, Plain s) (right : ∀ s ∈ others, Plain s)
    (same : bytes texts = bytes others) : texts = others := by
  induction texts generalizing others with
  | nil =>
    cases others with
    | nil => rfl
    | cons t others => simp [bytes] at same
  | cons s texts ih =>
    cases others with
    | nil => simp [bytes] at same
    | cons t others =>
      simp only [bytes,List.flatMap_cons,List.append_assoc,List.cons_append,List.nil_append] at same
      obtain ⟨chars,after⟩ := firstText (left s List.mem_cons_self) (right t List.mem_cons_self) same
      rw [String.toList_inj.mp chars,ih (fun s mem => left s (List.mem_cons_of_mem _ mem))
        (fun s mem => right s (List.mem_cons_of_mem _ mem)) after]

end Stream

section Drawn

theorem plainAppend {s t : String} (left : Plain s) (right : Plain t) : Plain (s ++ t) := by
  intro c mem
  rw [String.toList_append] at mem
  exact (List.mem_append.mp mem).elim (left c) (right c)

theorem plainDigits {c : Char} (digit : c.isDigit = true) : c.toNat < 128 ∧ c.toNat ≠ 31 := by
  simp only [Char.isDigit,Bool.and_eq_true,decide_eq_true_eq] at digit
  have low : 48 ≤ c.toNat := digit.1
  have high : c.toNat ≤ 57 := digit.2
  omega

theorem fixedPlain (x : Fixed) : Plain x.text := by
  intro c mem
  rw [Fixed.text,String.toList_ofList,List.append_assoc] at mem
  rcases List.mem_append.mp mem with sign | rest
  · have minus : c = '-' := by
      split at sign
      · exact List.mem_singleton.mp sign
      · exact absurd sign List.not_mem_nil
    rw [minus]
    decide
  rcases List.mem_append.mp rest with whole | decimals
  · exact plainDigits (JsonTokens.digitsOf c whole)
  rcases List.mem_cons.mp decimals with point | digit
  · rw [point]
    decide
  · exact plainDigits (JsonTokens.paddedDigits _ _ c digit)

theorem pointPlain (p : Point) : Plain p.text :=
  plainAppend (plainAppend (fixedPlain p.x) (by decide)) (fixedPlain p.y)

theorem poolPlain (path : PoolPath) : Plain path.text := by
  have curves : ∀ (curves : List (Point × Point)) (d : String), Plain d →
      Plain (curves.foldl (fun d curve => d ++ " Q " ++ curve.1.text ++ " " ++ curve.2.text) d) := by
    intro curves
    induction curves with
    | nil => exact fun d plain => plain
    | cons curve rest ih =>
      intro d plain
      refine ih _ (plainAppend (plainAppend (plainAppend (plainAppend plain ?_) (pointPlain _)) ?_) (pointPlain _))
      · decide
      · decide
  exact plainAppend (curves path.curves _ (plainAppend (by decide) (pointPlain _))) (by decide)

end Drawn

section Slips

theorem windowCaught {before after : List UInt32} {a a' b b' c c' : UInt32}
    (high : a.toNat / 16 = a'.toNat / 16) (second : b.toNat < 256) (second' : b'.toNat < 256)
    (third : c.toNat < 256) (third' : c'.toNat < 256)
    (same : (before ++ a::b::c::after).foldl Fnv.round Fnv.offset =
      (before ++ a'::b'::c'::after).foldl Fnv.round Fnv.offset) : a = a' ∧ b = b' ∧ c = c' := by
  simp only [List.foldl_append,List.foldl_cons] at same
  have rounds := Fnv.roundsInj after same
  have first := Fnv.nibbleRounds high second second' third third' rounds
  subst first
  exact ⟨rfl,Fnv.twoRounds second second' third third' rounds⟩

def tens (n : ℕ) : List Char := if n = 0 then [] else Nat.toDigits 10 n

theorem lastDigit (n : ℕ) : ∃ p : Char, p.isDigit = true ∧ Nat.toDigits 10 n = tens (n / 10) ++ [p] := by
  have digit : (n % 10).digitChar.isDigit = true := by
    refine JsonTokens.digitsOf (n := n % 10) _ ?_
    rw [Nat.toDigits_of_lt_base (Nat.mod_lt n (by decide))]
    exact List.mem_singleton_self _
  refine ⟨(n % 10).digitChar,digit,?_⟩
  unfold tens
  split
  case isTrue small =>
    have less : n < 10 := by omega
    rw [Nat.toDigits_of_lt_base less,Nat.mod_eq_of_lt less]
    rfl
  case isFalse large =>
    have joined := Nat.toDigits_append_toDigits (b := 10) (n := n / 10) (d := n % 10) (by decide) (by omega)
      (Nat.mod_lt n (by decide))
    rw [Nat.toDigits_of_lt_base (Nat.mod_lt n (by decide)),Nat.div_add_mod] at joined
    exact joined.symm

structure Close (x y : Fixed) : Prop where
  sign : x.negative = y.negative
  places : x.digits = y.digits
  few : x.digits = 1 ∨ x.digits = 2
  hundreds : x.scaled / 100 = y.scaled / 100

theorem digitsAlike {p q : Char} (left : p.isDigit = true) (right : q.isDigit = true) :
    (charByte p).toNat / 16 = (charByte q).toNat / 16 := by
  simp only [Char.isDigit,Bool.and_eq_true,decide_eq_true_eq] at left right
  have low : 48 ≤ p.toNat ∧ p.toNat ≤ 57 := left
  have high : 48 ≤ q.toNat ∧ q.toNat ≤ 57 := right
  rw [charByteNat (by omega),charByteNat (by omega)]
  omega

theorem sameDigit {p q : Char} (left : p.isDigit = true) (right : q.isDigit = true)
    (same : charByte p = charByte q) : p = q :=
  charByteInj (plainDigits left).1 (plainDigits right).1 same

theorem textScaled {x y : Fixed} (close : Close x y) (same : x.text.toList = y.text.toList) : x.scaled = y.scaled := by
  have positive : 0 < x.digits := by cases close.few <;> omega
  have small : ∀ n : ℕ, n % 10 ^ x.digits < 10 ^ x.digits := fun n => Nat.mod_lt n (by positivity)
  have left := textDigits x
  have right := textDigits y
  simp only [Fixed.text,String.toList_ofList,List.append_assoc,← close.sign,← close.places] at same left right
  obtain ⟨whole,rest⟩ := List.append_inj' (List.append_cancel_left same) (by
    rw [List.length_cons,List.length_cons,paddedLength positive (by decide) (small x.scaled),
      paddedLength positive (by decide) (small y.scaled)])
  rw [← left,← right,whole,(List.cons.inj rest).2]

theorem lastTwo {x y : Fixed} (close : Close x y) : ∃ (front mid : List Char) (p q p' q' : Char),
    (mid = [] ∨ mid = ['.']) ∧ (∀ c ∈ [p,q,p',q'], c.isDigit = true) ∧
      x.text.toList = front ++ p::(mid ++ [q]) ∧ y.text.toList = front ++ p'::(mid ++ [q']) := by
  have width : ∀ {k n : ℕ}, 0 < k → n < 10 ^ k → (padded k 10 n).length = k :=
    fun positive small => paddedLength positive (by decide) small
  cases close.few with
  | inl one =>
    obtain ⟨p,first,here⟩ := lastDigit (x.scaled / 10)
    obtain ⟨p',first',there⟩ := lastDigit (y.scaled / 10)
    obtain ⟨q,second⟩ := List.length_eq_one_iff.mp (width (n := x.scaled % 10) (by decide : 0 < 1) (by omega))
    obtain ⟨q',second'⟩ := List.length_eq_one_iff.mp (width (n := y.scaled % 10) (by decide : 0 < 1) (by omega))
    have last := JsonTokens.paddedDigits 1 (x.scaled % 10) q (by simp [second])
    have last' := JsonTokens.paddedDigits 1 (y.scaled % 10) q' (by simp [second'])
    rw [Nat.div_div_eq_div_mul] at here there
    refine ⟨(if x.negative then ['-'] else []) ++ tens (x.scaled / 100),['.'],p,q,p',q',.inr rfl,?_,?_,?_⟩
    · simp [first,first',last,last']
    · simp only [Fixed.text,String.toList_ofList,one,pow_one,here,second,List.append_assoc,List.cons_append,
        List.nil_append]
    · simp only [Fixed.text,String.toList_ofList,← close.sign,← close.places,one,pow_one,there,second',close.hundreds,
        List.append_assoc,List.cons_append,List.nil_append]
  | inr two =>
    obtain ⟨p,q,here⟩ := List.length_eq_two.mp (width (n := x.scaled % 10 ^ 2) (by decide : 0 < 2) (by omega))
    obtain ⟨p',q',there⟩ := List.length_eq_two.mp (width (n := y.scaled % 10 ^ 2) (by decide : 0 < 2) (by omega))
    have digits := JsonTokens.paddedDigits 2 (x.scaled % 10 ^ 2)
    have digits' := JsonTokens.paddedDigits 2 (y.scaled % 10 ^ 2)
    rw [here] at digits
    rw [there] at digits'
    have hundreds : x.scaled / 10 ^ 2 = y.scaled / 10 ^ 2 := close.hundreds
    refine ⟨(if x.negative then ['-'] else []) ++ Nat.toDigits 10 (x.scaled / 10 ^ 2) ++ ['.'],[],p,q,p',q',
      .inl rfl,?_,?_,?_⟩
    · simp only [List.forall_mem_cons] at digits digits' ⊢
      exact ⟨digits.1,digits.2.1,digits'.1,digits'.2⟩
    · simp only [Fixed.text,String.toList_ofList,two,here,List.append_assoc,List.cons_append,List.nil_append]
    · simp only [Fixed.text,String.toList_ofList,← close.sign,← close.places,two,there,hundreds,List.append_assoc,
        List.cons_append,List.nil_append]

inductive Slip : List String → List String → Prop
  | number (front back : List String) (left right : String) {x y : Fixed} (close : Close x y)
      (apart : x.scaled ≠ y.scaled) :
      Slip (front ++ (left ++ x.text ++ right)::back) (front ++ (left ++ y.text ++ right)::back)

theorem slipCaught {texts others : List String} (slip : Slip texts others) :
    texts.foldl feed Fnv.offset ≠ others.foldl feed Fnv.offset := by
  intro same
  rw [feedBytes,feedBytes] at same
  cases slip with
  | number front back left right close apart =>
    rename_i x y
    obtain ⟨before,mid,p,q,p',q',point,digits,here,there⟩ := lastTwo close
    have split : ∀ z : Fixed, bytes (front ++ (left ++ z.text ++ right)::back) =
        bytes front ++ (left.toList.map charByte ++ z.text.toList.map charByte ++
          (right.toList.map charByte ++ 0x1f::bytes back)) := by
      intro z
      simp only [bytes,List.flatMap_append,List.flatMap_cons,String.toList_append,List.map_append,List.append_assoc,
        List.cons_append,List.nil_append]
    have more : right.toList.map charByte ++ 0x1f::bytes back = bytes (right::back) := by simp [bytes]
    have next : bytes (right::back) ≠ [] := by
      rw [← more]
      simp
    obtain ⟨n,after,follows⟩ := List.exists_cons_of_ne_nil next
    have small : n.toNat < 256 := bytesSmall right back n (by rw [follows]; exact List.mem_cons_self)
    rw [← more] at follows
    rw [split,split,here,there,follows] at same
    simp only [List.forall_mem_cons,List.not_mem_nil,false_implies,implies_true,and_true] at digits
    obtain ⟨first,last,first',last'⟩ := digits
    have alike : p = p' ∧ q = q' := by
      cases point with
      | inl between =>
        obtain ⟨one,two,-⟩ := @windowCaught (bytes front ++ (left.toList.map charByte ++ before.map charByte)) after
          (charByte p) (charByte p') (charByte q) (charByte q') n n (digitsAlike first first') (byteSmall q)
          (byteSmall q') small small (by simpa only [between,List.map_append,List.map_cons,List.map_nil,
            List.append_assoc,List.cons_append,List.nil_append] using same)
        exact ⟨sameDigit first first' one,sameDigit last last' two⟩
      | inr between =>
        obtain ⟨one,-,two⟩ := @windowCaught (bytes front ++ (left.toList.map charByte ++ before.map charByte))
          (n::after) (charByte p) (charByte p') (charByte '.') (charByte '.') (charByte q) (charByte q')
          (digitsAlike first first') (byteSmall _) (byteSmall _) (byteSmall q) (byteSmall q')
          (by simpa only [between,List.map_append,List.map_cons,List.map_nil,
            List.append_assoc,List.cons_append,List.nil_append] using same)
        exact ⟨sameDigit first first' one,sameDigit last last' two⟩
    refine apart (textScaled close ?_)
    rw [here,there,alike.1,alike.2]

end Slips

section Engines
variable {K : Type} [Field K] [LinearOrder K] [IsStrictOrderedRing K] [FloorRing K]

omit [IsStrictOrderedRing K] in
theorem drawnPlain (trig : Trig K) (seed : UInt32) : ∀ s ∈ drawn (generateSigil trig seed), Plain s := by
  have box : Plain (generateSigil trig seed).viewBox := by
    have value : (generateSigil trig seed).viewBox = "0 0 " ++ toString VIEWBOX ++ " " ++ toString VIEWBOX := rfl
    rw [value]
    decide
  intro s mem
  simp only [drawn,List.mem_cons,List.mem_append,List.mem_flatMap] at mem
  obtain rfl | rfl | ⟨t,-,text⟩ | ⟨t,-,text⟩ := mem
  · exact box
  · exact poolPlain _
  · simp only [Tendril.texts,List.mem_cons,List.not_mem_nil,or_false] at text
    obtain rfl | rfl | rfl | rfl | rfl | rfl := text <;> exact fixedPlain _
  · simp only [Satellite.texts,List.mem_cons,List.not_mem_nil,or_false] at text
    obtain rfl | rfl | rfl | rfl := text <;> exact fixedPlain _

/- No two drawings feed one stream, and no engine whose sines and cosines move one
printed number within its last two digits keeps the digest. -/
structure ToldApart (here there : Trig K) (seed other : UInt32) : Prop where
  stream : bytes (drawn (generateSigil here seed)) = bytes (drawn (generateSigil there other)) →
    drawn (generateSigil here seed) = drawn (generateSigil there other)
  slip : Slip (drawn (generateSigil here seed)) (drawn (generateSigil there other)) →
    sigilDigest here seed ≠ sigilDigest there other

theorem digestTells (here there : Trig K) (seed other : UInt32) : ToldApart here there seed other :=
  ⟨bytesTell (drawnPlain here seed) (drawnPlain there other),slipCaught⟩

def level : Trig ℚ := ⟨fun _ => 0,fun _ => 0,3⟩
def bent : Trig ℚ := ⟨fun a => if a = 2.18 then 1 / 1400 else 0,fun _ => 0,3⟩

theorem bentCaught : sigilDigest level 1284 ≠ sigilDigest bent 1284 := by
  obtain ⟨front,back,here,there⟩ : ∃ front back : List String,
      drawn (generateSigil level 1284) = front ++ ("" ++ (⟨false,2000,1⟩ : Fixed).text ++ "")::back ∧
      drawn (generateSigil bent 1284) = front ++ ("" ++ (⟨false,2001,1⟩ : Fixed).text ++ "")::back :=
    ⟨(drawn (generateSigil level 1284)).take 22,(drawn (generateSigil level 1284)).drop 23,by decide +kernel⟩
  refine (digestTells level bent 1284 1284).slip ?_
  rw [here,there]
  exact .number front back "" "" ⟨rfl,rfl,.inl rfl,rfl⟩ (by decide)

end Engines

end MoltenPour.SigilDigest
