import Mathlib.Tactic
import Mathlib.Data.Nat.Bitwise

/-! The 32-bit FNV-1a hash over a sequence of words, four bytes to a word, low
byte first. Every round is a bijection of the state for a fixed byte, so two
sequences that end alike hash alike only if their states already agreed. -/
namespace MoltenPour.Fnv

def offset : UInt32 := 0x811c9dc5
def prime : UInt32 := 0x01000193

def round (h byte : UInt32) : UInt32 := (h ^^^ byte) * prime

def feed (h word : UInt32) : UInt32 :=
  round (round (round (round h (word &&& 0xff)) ((word >>> 8) &&& 0xff)) ((word >>> 16) &&& 0xff))
    ((word >>> 24) &&& 0xff)

def hash (words : List UInt32) : UInt32 := words.foldl feed offset

def primeInverse : UInt32 := 0x359c449b

theorem mulPrimeInj {a b : UInt32} (h : a * prime = b * prime) : a = b := by
  have undo : prime * primeInverse = 1 := by decide
  have scaled := congrArg (· * primeInverse) h
  simpa only [UInt32.mul_assoc,undo,UInt32.mul_one] using scaled

theorem roundInj {h k byte : UInt32} (same : round h byte = round k byte) : h = k :=
  (UInt32.xor_left_inj byte).mp (mulPrimeInj same)

theorem feedInj {h k word : UInt32} (same : feed h word = feed k word) : h = k :=
  roundInj (roundInj (roundInj (roundInj same)))

theorem feedAllInj {h k : UInt32} (words : List UInt32) (same : words.foldl feed h = words.foldl feed k) :
    h = k := by
  induction words generalizing h k with
  | nil => exact same
  | cons word rest ih => exact feedInj (ih same)

theorem hashSplit {before after : List UInt32} {a b : UInt32}
    (same : hash (before ++ a :: after) = hash (before ++ b :: after)) :
    feed (hash before) a = feed (hash before) b := by
  simp only [hash,List.foldl_append,List.foldl_cons] at same
  exact feedAllInj after same

def Near (h k : UInt32) : Prop := h.toNat / 256 = k.toNat / 256

theorem xorNear (h : UInt32) {byte : UInt32} (small : byte.toNat < 256) : Near (h ^^^ byte) h := by
  have zero : byte.toNat / 2 ^ 8 = 0 := Nat.div_eq_of_lt small
  have quotient : (h.toNat ^^^ byte.toNat) / 2 ^ 8 = h.toNat / 2 ^ 8 := by
    rw [Nat.xor_div_two_pow,zero,Nat.xor_zero]
  unfold Near
  rw [UInt32.toNat_xor]
  exact quotient

theorem nearWithin {h k : UInt32} (near : Near h k) : |(h.toNat : ℤ) - k.toNat| ≤ 255 := by
  unfold Near at near
  rw [abs_le]
  omega

theorem mulPrimeApart (h k : UInt32) : ∃ n : ℤ,
    ((h * prime).toNat : ℤ) - (k * prime).toNat = 16777619 * (h.toNat - k.toNat) + 4294967296 * n := by
  have product : ∀ g : UInt32, (g * prime).toNat = 16777619 * g.toNat % 4294967296 := by
    intro g
    rw [UInt32.toNat_mul,show prime.toNat = 16777619 from rfl,mul_comm]
  have left := Nat.div_add_mod (16777619 * h.toNat) 4294967296
  have right := Nat.div_add_mod (16777619 * k.toNat) 4294967296
  rw [product,product]
  refine ⟨(16777619 * k.toNat / 4294967296 : ℕ) - (16777619 * h.toNat / 4294967296 : ℕ),?_⟩
  push_cast
  omega

theorem nearSpread {h k : UInt32} (near : Near h k) (still : Near (h * prime) (k * prime)) : h = k := by
  -- The prime is 2^24 + 403, so modulo 2^24 it takes a small difference to 403 times it, and
  -- near states to states that are not near.
  obtain ⟨n,apart⟩ := mulPrimeApart h k
  have before := abs_le.mp (nearWithin near)
  have after := abs_le.mp (nearWithin still)
  rw [apart] at after
  refine UInt32.toNat_inj.mp (Int.ofNat_inj.mp (sub_eq_zero.mp ?_))
  generalize (h.toNat : ℤ) - k.toNat = d at before after ⊢
  have none : 256 * n + d = 0 := by omega
  omega

theorem twoRounds {h b b' c c' : UInt32} (first : b.toNat < 256) (first' : b'.toNat < 256)
    (second : c.toNat < 256) (second' : c'.toNat < 256)
    (same : round (round h b) c = round (round h b') c') : b = b' ∧ c = c' := by
  have states : round h b ^^^ c = round h b' ^^^ c' := mulPrimeInj same
  have still : Near (round h b) (round h b') := by
    have left := xorNear (round h b) second
    have right := xorNear (round h b') second'
    unfold Near at left right ⊢
    rw [← left,states,right]
  have near : Near (h ^^^ b) (h ^^^ b') := (xorNear h first).trans (xorNear h first').symm
  have equal : b = b' := (UInt32.xor_right_inj h).mp (nearSpread near still)
  subst equal
  exact ⟨rfl,(UInt32.xor_right_inj _).mp states⟩

theorem flipLow (g : ℕ) : g ^^^ 1 = g + 1 ∨ (g ^^^ 1) + 1 = g := by
  have quotient : (g ^^^ 1) / 2 = g / 2 := by
    simpa using Nat.xor_div_two_pow (a := g) (b := 1) (n := 1)
  have parity : (g ^^^ 1) % 2 = g % 2 ^^^ 1 := by
    simpa using Nat.xor_mod_two_pow (a := g) (b := 1) (n := 1)
  generalize g ^^^ 1 = flipped at quotient parity ⊢
  cases Nat.mod_two_eq_zero_or_one g with
  | inl even =>
    rw [even,show 0 ^^^ 1 = 1 from rfl] at parity
    omega
  | inr odd =>
    rw [odd,show 1 ^^^ 1 = 0 from rfl] at parity
    omega

theorem inverseFar {d e s turns : ℤ} (unit : s = 1 ∨ s = -1) (near : -255 ≤ d ∧ d ≤ 255)
    (small : -510 ≤ e ∧ e ≤ 510) : 403 * d + e ≠ 10241179 * s + 16777216 * turns := by
  intro same
  have none : turns = 0 := by
    cases unit with
    | inl up => omega
    | inr down => omega
  omega

theorem unitSpread {d e k m n s : ℤ} (unit : s = 1 ∨ s = -1) (outer : s = 16777619 * d + 4294967296 * n)
    (inner : d = 16777619 * k + 4294967296 * m + e) (near : -255 ≤ k ∧ k ≤ 255)
    (small : -510 ≤ e ∧ e ≤ 510) : False := by
  have low : 403 * k + e = 10241179 * s +
      16777216 * (53 * s - 256 * (3513497 * d + 899433627 * n) - k - 256 * m) := by linarith
  exact inverseFar unit near small low

theorem thirdBit {h b b' c c' : UInt32} (first : b.toNat < 256) (first' : b'.toNat < 256)
    (second : c.toNat < 256) (second' : c'.toNat < 256) :
    round (round (round h b) c) 0 ≠ round (round (round h b') c') 1 := by
  intro same
  have states : round (round h b) c ^^^ 0 = round (round h b') c' ^^^ 1 := mulPrimeInj same
  rw [UInt32.xor_zero] at states
  obtain ⟨n,outer⟩ := mulPrimeApart (round h b ^^^ c) (round h b' ^^^ c')
  obtain ⟨m,inner⟩ := mulPrimeApart (h ^^^ b) (h ^^^ b')
  have left := abs_le.mp (nearWithin (xorNear (round h b) second))
  have right := abs_le.mp (nearWithin (xorNear (round h b') second'))
  have near := abs_le.mp (nearWithin ((xorNear h first).trans (xorNear h first').symm))
  have unit : ((round (round h b) c).toNat : ℤ) - (round (round h b') c').toNat = 1 ∨
      ((round (round h b) c).toNat : ℤ) - (round (round h b') c').toNat = -1 := by
    rw [states,UInt32.toNat_xor,show (1 : UInt32).toNat = 1 from rfl]
    have flipped := flipLow (round (round h b') c').toNat
    generalize (round (round h b') c').toNat ^^^ 1 = g at flipped ⊢
    omega
  have moved : ((round h b ^^^ c).toNat : ℤ) - (round h b' ^^^ c').toNat =
      16777619 * ((h ^^^ b).toNat - (h ^^^ b').toNat) + 4294967296 * m +
        (((round h b ^^^ c).toNat - (round h b).toNat) -
          ((round h b' ^^^ c').toNat - (round h b').toNat)) := by
    rw [← inner]
    unfold round
    ring
  exact unitSpread unit outer moved near (by omega)

theorem threeRounds {h b b' c c' d d' : UInt32} (first : b.toNat < 256) (first' : b'.toNat < 256)
    (second : c.toNat < 256) (second' : c'.toNat < 256) (third : d = 0 ∨ d = 1) (third' : d' = 0 ∨ d' = 1)
    (same : round (round (round h b) c) d = round (round (round h b') c') d') :
    b = b' ∧ c = c' ∧ d = d' := by
  have alike : d = d' := by
    rcases third with rfl | rfl <;> rcases third' with rfl | rfl
    · rfl
    · exact absurd same (thirdBit first first' second second')
    · exact absurd same.symm (thirdBit first' first second' second)
    · rfl
  subst alike
  obtain ⟨low,middle⟩ := twoRounds first first' second second' (roundInj same)
  exact ⟨low,middle,rfl⟩

theorem byteNat (word : UInt32) : (word &&& 0xff).toNat = word.toNat % 256 ∧
    ((word >>> 8) &&& 0xff).toNat = word.toNat / 256 % 256 ∧
    ((word >>> 16) &&& 0xff).toNat = word.toNat / 65536 % 256 ∧
    ((word >>> 24) &&& 0xff).toNat = word.toNat / 16777216 % 256 := by
  have mask : ∀ n : ℕ, n &&& 255 = n % 256 := fun n => Nat.and_two_pow_sub_one_eq_mod n 8
  simp [UInt32.toNat_and,UInt32.toNat_shiftRight,mask,Nat.shiftRight_eq_div_pow]

theorem feedApart (h : UInt32) {a b : UInt32} (left : a.toNat < 2 ^ 17) (right : b.toNat < 2 ^ 17)
    (same : feed h a = feed h b) : a = b := by
  -- Words below 2^17 have two full bytes and a bit; no two of them feed alike.
  obtain ⟨a0,a1,a2,a3⟩ := byteNat a
  obtain ⟨b0,b1,b2,b3⟩ := byteNat b
  have bit : ∀ {d : UInt32}, d.toNat < 2 → d = 0 ∨ d = 1 := by
    intro d small
    have value : d.toNat = 0 ∨ d.toNat = 1 := by omega
    exact value.imp (fun zero => UInt32.toNat_inj.mp zero) fun one => UInt32.toNat_inj.mp one
  have top : (a >>> 24) &&& (0xff : UInt32) = (b >>> 24) &&& 0xff := UInt32.toNat_inj.mp (by omega)
  unfold feed at same
  rw [top] at same
  obtain ⟨low,middle,high⟩ := threeRounds (by omega) (by omega) (by omega) (by omega)
    (bit (by omega)) (bit (by omega)) (roundInj same)
  refine UInt32.toNat_inj.mp ?_
  have low := congrArg UInt32.toNat low
  have middle := congrArg UInt32.toNat middle
  have high := congrArg UInt32.toNat high
  omega

theorem hashApart {before after : List UInt32} {a b : UInt32} (left : a.toNat < 2 ^ 17)
    (right : b.toNat < 2 ^ 17) (apart : a ≠ b) :
    hash (before ++ a :: after) ≠ hash (before ++ b :: after) :=
  fun same => apart (feedApart _ left right (hashSplit same))

theorem roundsInj {h k : UInt32} (bytes : List UInt32) (same : bytes.foldl round h = bytes.foldl round k) : h = k := by
  induction bytes generalizing h k with
  | nil => exact same
  | cons byte rest ih => exact roundInj (ih same)

theorem xorNibble (h : UInt32) {b b' : UInt32} (high : b.toNat / 16 = b'.toNat / 16) :
    |((h ^^^ b).toNat : ℤ) - (h ^^^ b').toNat| ≤ 15 := by
  have quotient : ∀ byte : UInt32, (h ^^^ byte).toNat / 2 ^ 4 = h.toNat / 2 ^ 4 ^^^ byte.toNat / 2 ^ 4 := by
    intro byte
    rw [UInt32.toNat_xor,Nat.xor_div_two_pow]
  have same : (h ^^^ b).toNat / 2 ^ 4 = (h ^^^ b').toNat / 2 ^ 4 := by
    rw [quotient,quotient]
    exact congrArg _ high
  rw [abs_le]
  omega

theorem nibbleSpread {d e s m n : ℤ} (near : -15 ≤ d ∧ d ≤ 15) (small : -510 ≤ e ∧ e ≤ 510)
    (last : -255 ≤ s ∧ s ≤ 255)
    (outer : s = 16777619 * (16777619 * d + 4294967296 * m + e) + 4294967296 * n) : d = 0 := by
  have low : 403 * (403 * d + e) - s =
      16777216 * -(806 * d + e + 256 * (65536 * d + 16777619 * m + n)) := by linarith
  generalize 65536 * d + 16777619 * m + n = turns at low
  clear outer
  have whole : 806 * d + e + 256 * turns = 0 := by omega
  have level : 403 * d + e = 0 := by omega
  omega

theorem nibbleRounds {h b b' c c' d d' : UInt32} (high : b.toNat / 16 = b'.toNat / 16)
    (second : c.toNat < 256) (second' : c'.toNat < 256) (third : d.toNat < 256) (third' : d'.toNat < 256)
    (same : round (round (round h b) c) d = round (round (round h b') c') d') : b = b' := by
  have states : round (round h b) c ^^^ d = round (round h b') c' ^^^ d' := mulPrimeInj same
  have still : Near (round (round h b) c) (round (round h b') c') := by
    have left := xorNear (round (round h b) c) third
    have right := xorNear (round (round h b') c') third'
    unfold Near at left right ⊢
    rw [← left,states,right]
  obtain ⟨n,outer⟩ := mulPrimeApart (round h b ^^^ c) (round h b' ^^^ c')
  obtain ⟨m,inner⟩ := mulPrimeApart (h ^^^ b) (h ^^^ b')
  have left := abs_le.mp (nearWithin (xorNear (round h b) second))
  have right := abs_le.mp (nearWithin (xorNear (round h b') second'))
  have near := abs_le.mp (xorNibble h high)
  have last := abs_le.mp (nearWithin still)
  have moved : ((round h b ^^^ c).toNat : ℤ) - (round h b' ^^^ c').toNat =
      16777619 * ((h ^^^ b).toNat - (h ^^^ b').toNat) + 4294967296 * m +
        (((round h b ^^^ c).toNat - (round h b).toNat) -
          ((round h b' ^^^ c').toNat - (round h b').toNat)) := by
    rw [← inner]
    unfold round
    ring
  rw [moved] at outer
  have none := nibbleSpread near (by omega) last outer
  exact (UInt32.xor_right_inj h).mp (UInt32.toNat_inj.mp (by omega))

end MoltenPour.Fnv
