import Mathlib.Tactic

/-! JSON text of a nullable list of strings: `null`, or an array of quoted
strings in which the quote and the backslash are escaped. -/
namespace MoltenPour.JsonStrings

def escape (c : Char) : List Char := if c = '"' ∨ c = '\\' then ['\\',c] else [c]

def quote (s : List Char) : List Char := '"' :: (s.flatMap escape ++ ['"'])

def body : List (List Char) → List Char
  | [] => [']']
  | [s] => quote s ++ [']']
  | s::rest => quote s ++ ',' :: body rest

def write : Option (List (List Char)) → List Char
  | none => ['n','u','l','l']
  | some strings => '[' :: body strings

def unquote : List Char → Option (List Char × List Char)
  | [] => none
  | '"'::rest => some ([],rest)
  | ['\\'] => none
  | '\\'::c::rest => (unquote rest).map fun (s,after) => (c::s,after)
  | c::rest => (unquote rest).map fun (s,after) => (c::s,after)

def elements : ℕ → List Char → Option (List (List Char))
  | n + 1,'"'::text =>
      match unquote text with
      | some (s,[']']) => some [s]
      | some (s,','::rest) => (elements n rest).map (s :: ·)
      | _ => none
  | _,_ => none

def read : List Char → Option (Option (List (List Char)))
  | ['n','u','l','l'] => some none
  | ['[',']'] => some (some [])
  | '['::text => (elements text.length text).map some
  | _ => none

theorem unquoteQuoted (s after : List Char) :
    unquote (s.flatMap escape ++ '"' :: after) = some (s,after) := by
  induction s with
  | nil => rfl
  | cons c rest ih =>
    by_cases special : c = '"' ∨ c = '\\'
    · simp only [List.flatMap_cons,escape,if_pos special,List.cons_append,List.nil_append]
      rw [unquote,ih]
      rfl
    · obtain ⟨quotes,slash⟩ := not_or.mp special
      simp only [List.flatMap_cons,escape,if_neg special,List.cons_append,List.nil_append]
      rw [unquote,ih]
      · rfl
      · exact fun same => quotes same
      · intro same
        exact absurd same slash
      · intro d tail same
        exact absurd same slash

theorem elementsBody {strings : List (List Char)} (some_string : strings ≠ []) {n : ℕ}
    (enough : strings.length ≤ n) : elements n (body strings) = some strings := by
  induction strings generalizing n with
  | nil => contradiction
  | cons s rest ih =>
    obtain ⟨m,rfl⟩ : ∃ m, n = m + 1 := ⟨n - 1,by simp at enough; omega⟩
    cases rest with
    | nil => simp [body,quote,elements,unquoteQuoted]
    | cons t rest =>
      have tail := ih (List.cons_ne_nil t rest) (Nat.le_of_succ_le_succ enough)
      simp [body,quote,elements,unquoteQuoted,tail]

theorem bodyLength (strings : List (List Char)) : strings.length ≤ (body strings).length := by
  induction strings with
  | nil => simp
  | cons s rest ih =>
    cases rest with
    | nil => simp [body]
    | cons t rest =>
      simp only [body,List.length_append,List.length_cons] at ih ⊢
      omega

theorem readWrite (strings : Option (List (List Char))) : read (write strings) = some strings := by
  cases strings with
  | none => rfl
  | some strings =>
    cases strings with
    | nil => rfl
    | cons s rest =>
      have parsed := elementsBody (List.cons_ne_nil s rest) (bodyLength (s::rest))
      have opened : ∃ text, body (s::rest) = '"' :: text := by
        cases rest with
        | nil => exact ⟨_,rfl⟩
        | cons t rest => exact ⟨_,rfl⟩
      obtain ⟨text,opened⟩ := opened
      rw [opened,List.length_cons] at parsed
      simp [write,opened,read,parsed]

end MoltenPour.JsonStrings
