import Mathlib.Data.List.TakeWhile
import Mathlib.Tactic.IntervalCases

/-! api/session/session.go: the owner a request belongs to. The signature is a
function of the id; the bytes an id is made of are what crypto/rand filled in,
or nothing when it failed. -/
namespace MoltenPour.Session

abbrev Entropy := Option { bytes : List UInt8 // bytes.length = 16 }

theorem sixteen (byte : UInt8) : (List.replicate 16 byte).length = 16 := List.length_replicate

def constantDraw (byte : UInt8) : Entropy := some ⟨List.replicate 16 byte,sixteen byte⟩

def encodeToString (bytes : List UInt8) : String :=
  String.ofList (bytes.flatMap fun b => [Nat.digitChar (b.toNat / 16),Nat.digitChar (b.toNat % 16)])

def newID (entropy : Entropy) : Option String := entropy.map fun drawn => encodeToString drawn.val

def cut (value : String) : Option (String × String) :=
  match value.toList.dropWhile (· ≠ '.') with
  | [] => none
  | _ :: sig => some (String.ofList (value.toList.takeWhile (· ≠ '.')),String.ofList sig)

section Signed
variable (sign : String → String)

def parse (value : String) : String :=
  match cut value with
  | none => ""
  | some (id,sig) => if id = "" then "" else if sig ≠ sign id then "" else id

def cookieValue (id : String) : String := id ++ "." ++ sign id

/- The owner, and the cookie set on the response; nothing when no id can be drawn. -/
def ownerID (cookie : Option String) (entropy : Entropy) : Option (String × Option String) :=
  let known := (cookie.map (parse sign)).getD ""
  if known ≠ "" then some (known,none)
  else (newID entropy).map fun id => (id,some (cookieValue sign id))

end Signed

theorem cutDotted {id sig : List Char} (plain : '.' ∉ id) :
    cut (String.ofList (id ++ '.' :: sig)) = some (String.ofList id,String.ofList sig) := by
  have letters : ∀ c ∈ id, decide (c ≠ '.') = true := by
    intro c mem
    have other : c ≠ '.' := by
      rintro rfl
      exact plain mem
    simp [other]
  unfold cut
  rw [String.toList_ofList,List.dropWhile_append_of_pos letters,List.takeWhile_append_of_pos letters]
  simp

theorem cutBack {value id sig : String} (parts : cut value = some (id,sig)) :
    value = id ++ "." ++ sig ∧ '.' ∉ id.toList := by
  have whole := @List.takeWhile_append_dropWhile _ (fun c => decide (c ≠ '.')) value.toList
  have stops := List.head?_dropWhile_not (fun c => decide (c ≠ '.')) value.toList
  unfold cut at parts
  split at parts
  · contradiction
  · next dot rest found =>
    simp only [Option.some.injEq,Prod.mk.injEq] at parts
    obtain ⟨rfl,rfl⟩ := parts
    rw [found] at whole stops
    have dot : dot = '.' := by simpa using stops
    constructor
    · rw [dot] at whole
      rw [String.ext_iff]
      simpa using whole.symm
    · rw [String.toList_ofList]
      intro mem
      simpa using List.mem_takeWhile_imp mem

theorem digitPlain (n : ℕ) : Nat.digitChar n ≠ '.' := by
  cases lt_or_ge n 16 with
  | inl hex => interval_cases n <;> decide
  | inr star =>
    rw [Nat.digitChar_eq_star.mpr star]
    decide

theorem encodedPlain (bytes : List UInt8) : '.' ∉ (encodeToString bytes).toList := by
  intro dotted
  rw [encodeToString,String.toList_ofList,List.mem_flatMap] at dotted
  obtain ⟨b,-,digit⟩ := dotted
  cases List.mem_cons.mp digit with
  | inl high => exact digitPlain _ high.symm
  | inr low => exact digitPlain _ (List.mem_singleton.mp low).symm

theorem newIDPlain {entropy : Entropy} {id : String} (drawn : newID entropy = some id) :
    '.' ∉ id.toList := by
  cases entropy with
  | none => contradiction
  | some bytes =>
    cases drawn
    exact encodedPlain bytes.val

theorem newIDNonempty {entropy : Entropy} {id : String} (drawn : newID entropy = some id) : id ≠ "" := by
  cases entropy with
  | none => contradiction
  | some drawnBytes =>
    obtain ⟨bytes,long⟩ := drawnBytes
    cases drawn
    cases bytes with
    | nil => contradiction
    | cons b rest => simp [encodeToString]

theorem parseIff (sign : String → String) {id : String} (named : id ≠ "") (value : String) :
    parse sign value = id ↔ value = cookieValue sign id ∧ '.' ∉ id.toList := by
  constructor
  · intro accepted
    unfold parse at accepted
    split at accepted
    · exact absurd accepted.symm named
    · next front sig parts =>
      obtain ⟨whole,plain⟩ := cutBack parts
      split at accepted
      · exact absurd accepted.symm named
      · split at accepted
        · exact absurd accepted.symm named
        · next signed =>
          subst accepted
          rw [not_not.mp signed] at whole
          exact ⟨whole,plain⟩
  · rintro ⟨rfl,plain⟩
    have written : cookieValue sign id = String.ofList (id.toList ++ '.' :: (sign id).toList) := by
      simp [cookieValue,String.ext_iff]
    unfold parse
    rw [written,cutDotted plain]
    simp [named]

theorem parseIssued (sign : String → String) {entropy : Entropy} {id : String}
    (drawn : newID entropy = some id) : parse sign (cookieValue sign id) = id :=
  (parseIff sign (newIDNonempty drawn) _).mpr ⟨rfl,newIDPlain drawn⟩

section Owner
variable {sign : String → String} {cookie : Option String} {ownerId : String}

theorem ownerKnown (named : ownerId ≠ "") (known : cookie.map (parse sign) = some ownerId)
    (entropy : Entropy) : ownerID sign cookie entropy = some (ownerId,none) := by
  simp [ownerID,known,named]

inductive Resolved (sign : String → String) (cookie : Option String) (entropy : Entropy) :
    String → Option String → Prop where
  | known {value id} (named : id ≠ "") (held : cookie = some value) (good : parse sign value = id) :
      Resolved sign cookie entropy id none
  | drawn {id} (rejected : (cookie.map (parse sign)).getD "" = "") (fresh : newID entropy = some id) :
      Resolved sign cookie entropy id (some (cookieValue sign id))

theorem ownerResolved {entropy : Entropy} {setCookie : Option String}
    (owned : ownerID sign cookie entropy = some (ownerId,setCookie)) :
    Resolved sign cookie entropy ownerId setCookie := by
  unfold ownerID at owned
  by_cases rejected : (cookie.map (parse sign)).getD "" = ""
  · simp only [rejected,ne_eq,not_true_eq_false,if_false] at owned
    obtain ⟨id,fresh,issued⟩ := Option.map_eq_some_iff.mp owned
    cases issued
    exact .drawn rejected fresh
  · simp only [ne_eq,rejected,not_false_eq_true,if_true] at owned
    cases owned
    cases cookie with
    | none => exact absurd rfl rejected
    | some value => exact .known rejected rfl rfl

end Owner
end MoltenPour.Session
