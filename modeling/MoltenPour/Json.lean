import MoltenPour.JsonTokens
import Mathlib.Data.List.TakeWhile

/-! JSON values, their compact text, and the reader of RFC 8259's grammar. A value is
read back as it was written, whatever it holds and whatever follows it. -/
namespace MoltenPour.Json
open JsonTokens

inductive Value where
  | null
  | bool (value : Bool)
  | number (numeral : Numeral)
  | string (text : String)
  | array (items : List Value)
  | object (members : List (String × Value))

section Text
variable (e : Escaping)

mutual

def text : Value → List Char
  | .null => ['n','u','l','l']
  | .bool true => ['t','r','u','e']
  | .bool false => ['f','a','l','s','e']
  | .number n => n.text
  | .string s => quoted e s
  | .array [] => ['[',']']
  | .array (v::rest) => '[' :: (text v ++ itemsText rest)
  | .object [] => ['\x7b','\x7d']
  | .object ((name,v)::rest) => '\x7b' :: (quoted e name ++ ':' :: (text v ++ membersText rest))

def itemsText : List Value → List Char
  | [] => [']']
  | v::rest => ',' :: (text v ++ itemsText rest)

def membersText : List (String × Value) → List Char
  | [] => ['\x7d']
  | (name,v)::rest => ',' :: (quoted e name ++ ':' :: (text v ++ membersText rest))

end

end Text

def isSpace (c : Char) : Bool := c = ' ' || c = '\t' || c = '\n' || c = '\r'

def skip (text : List Char) : List Char := text.dropWhile isSpace

def keyword (word : List Char) (v : Value) (text : List Char) : Option (Value × List Char) :=
  if word.isPrefixOf text then some (v,text.drop word.length) else none

/- The fuel bounds the values that are read, each of a character at least. -/
mutual

def scanValue : ℕ → List Char → Option (Value × List Char)
  | 0,_ => none
  | n + 1,text =>
    match skip text with
    | [] => none
    | c::rest =>
      if c = '"' then (scanString rest).map fun (s,rest) => (.string s,rest)
      else if c = '[' then
        if (skip rest).head? = some ']' then some (.array [],(skip rest).tail)
        else do
          let (v,rest) ← scanValue n rest
          let (items,rest) ← scanItems n rest
          some (.array (v::items),rest)
      else if c = '\x7b' then
        if (skip rest).head? = some '\x7d' then some (.object [],(skip rest).tail)
        else do
          let (member,rest) ← scanMember n rest
          let (members,rest) ← scanMembers n rest
          some (.object (member::members),rest)
      else if c = 'n' then keyword ['u','l','l'] .null rest
      else if c = 't' then keyword ['r','u','e'] (.bool true) rest
      else if c = 'f' then keyword ['a','l','s','e'] (.bool false) rest
      else (scanNumeral (c::rest)).map fun (n,rest) => (.number n,rest)

def scanItems : ℕ → List Char → Option (List Value × List Char)
  | 0,_ => none
  | n + 1,text =>
    match skip text with
    | [] => none
    | c::rest =>
      if c = ']' then some ([],rest)
      else if c = ',' then do
        let (v,rest) ← scanValue n rest
        let (items,rest) ← scanItems n rest
        some (v::items,rest)
      else none

def scanMember : ℕ → List Char → Option ((String × Value) × List Char)
  | 0,_ => none
  | n + 1,text =>
    if (skip text).head? = some '"' then do
      let (name,rest) ← scanString (skip text).tail
      if (skip rest).head? = some ':' then do
        let (v,rest) ← scanValue n (skip rest).tail
        some ((name,v),rest)
      else none
    else none

def scanMembers : ℕ → List Char → Option (List (String × Value) × List Char)
  | 0,_ => none
  | n + 1,text =>
    match skip text with
    | [] => none
    | c::rest =>
      if c = '\x7d' then some ([],rest)
      else if c = ',' then do
        let (member,rest) ← scanMember n rest
        let (members,rest) ← scanMembers n rest
        some (member::members,rest)
      else none

end

def parse (text : List Char) : Option Value :=
  match scanValue text.length text with
  | some (v,rest) => if skip rest = [] then some v else none
  | none => none

theorem Value.byParts {P : Value → Prop} (null : P .null) (bool : ∀ b, P (.bool b))
    (number : ∀ n, P (.number n)) (string : ∀ s, P (.string s))
    (array : ∀ items, (∀ v ∈ items, P v) → P (.array items))
    (object : ∀ members, (∀ m ∈ members, P m.2) → P (.object members)) : ∀ v, P v
  | .null => null
  | .bool b => bool b
  | .number n => number n
  | .string s => string s
  | .array items => array items fun v _ => byParts null bool number string array object v
  | .object members => object members fun m _ => byParts null bool number string array object m.2
decreasing_by
  · have smaller := List.sizeOf_lt_of_mem (by assumption : v ∈ items)
    simp only [Value.array.sizeOf_spec]
    omega
  · have smaller := List.sizeOf_lt_of_mem (by assumption : m ∈ members)
    have part : sizeOf m.2 < sizeOf m := by
      cases m
      simp
    simp only [Value.object.sizeOf_spec]
    omega

section RoundTrip
variable (e : Escaping)

def Reads (v : Value) : Prop := ∀ n rest, (text e v).length ≤ n + 1 → Stopped rest →
  scanValue (n + 1) (text e v ++ rest) = some (v,rest)

theorem skipNone {c : Char} (printed : isSpace c = false) (rest : List Char) : skip (c::rest) = c::rest := by
  simp [skip,printed]

theorem stoppedAt {c : Char} (mark : c = ',' ∨ c = ']' ∨ c = '\x7d') (rest : List Char) : Stopped (c::rest) := by
  rintro d ⟨⟩
  rcases mark with rfl | rfl | rfl <;> decide

theorem itemsStop (items : List Value) (rest : List Char) : Stopped (itemsText e items ++ rest) := by
  cases items with
  | nil => exact stoppedAt (.inr (.inl rfl)) rest
  | cons v items => exact stoppedAt (.inl rfl) _

theorem membersStop (members : List (String × Value)) (rest : List Char) :
    Stopped (membersText e members ++ rest) := by
  cases members with
  | nil => exact stoppedAt (.inr (.inr rfl)) rest
  | cons m members => exact stoppedAt (.inl rfl) _

theorem numeralOpens (n : Numeral) : ∃ c rest, n.text = c::rest ∧ (c = '-' ∨ c.isDigit = true) := by
  obtain ⟨negative,mantissa,places,exponent⟩ := n
  cases negative with
  | true => exact ⟨'-',_,rfl,.inl rfl⟩
  | false =>
    obtain ⟨c,rest,digits⟩ := List.exists_cons_of_ne_nil
      (Nat.toDigits_ne_nil (n := mantissa / 10 ^ places) (b := 10))
    refine ⟨c,rest ++ Numeral.fractionText places (mantissa % 10 ^ places) ++ Numeral.exponentText exponent,?_,
      .inr (digitsOf c (digits ▸ List.mem_cons_self))⟩
    simp only [Numeral.text,Bool.false_eq_true,if_false,digits,List.nil_append,List.cons_append]

theorem numeralMark {c : Char} (opening : c = '-' ∨ c.isDigit = true) :
    isSpace c = false ∧ c ∉ ['"','[',']','\x7b','n','t','f'] := by
  rcases opening with rfl | digit
  · decide
  · constructor
    · by_contra space
      simp only [isSpace,Bool.or_eq_true,decide_eq_true_eq,Bool.not_eq_false] at space
      rcases space with ((rfl | rfl) | rfl) | rfl <;> exact absurd digit (by decide)
    · intro mark
      simp only [List.mem_cons,List.not_mem_nil,or_false] at mark
      rcases mark with rfl | rfl | rfl | rfl | rfl | rfl | rfl <;> exact absurd digit (by decide)

theorem opens (v : Value) : ∃ c rest, text e v = c::rest ∧ isSpace c = false ∧ c ≠ ']' := by
  cases v with
  | null => exact ⟨_,_,rfl,rfl,by decide⟩
  | bool b => cases b <;> exact ⟨_,_,rfl,rfl,by decide⟩
  | number n =>
    obtain ⟨c,rest,same,opening⟩ := numeralOpens n
    obtain ⟨printed,apart⟩ := numeralMark opening
    exact ⟨c,rest,same,printed,fun bracket => apart (by simp [bracket])⟩
  | string s => exact ⟨_,_,rfl,rfl,by decide⟩
  | array items => cases items <;> exact ⟨_,_,rfl,rfl,by decide⟩
  | object members =>
    cases members with
    | nil => exact ⟨_,_,rfl,rfl,by decide⟩
    | cons m members => exact ⟨_,_,rfl,rfl,by decide⟩

theorem readsEnough {v : Value} (reads : Reads e v) {n : ℕ} {rest : List Char}
    (room : (text e v).length ≤ n) (stopped : Stopped rest) :
    scanValue n (text e v ++ rest) = some (v,rest) := by
  cases n with
  | zero =>
    obtain ⟨c,tail,same,-⟩ := opens e v
    simp [same] at room
  | succ n => exact reads n rest room stopped

theorem itemsRead {items : List Value} (each : ∀ v ∈ items, Reads e v) {n : ℕ} {rest : List Char}
    (room : (itemsText e items).length ≤ n) :
    scanItems n (itemsText e items ++ rest) = some (items,rest) := by
  induction items generalizing n with
  | nil =>
    obtain ⟨m,rfl⟩ : ∃ m, n = m + 1 := ⟨n - 1,by simp [itemsText] at room; omega⟩
    simp [itemsText,scanItems,skipNone (show isSpace ']' = false from rfl)]
  | cons v items ih =>
    simp only [itemsText,List.length_cons,List.length_append] at room
    obtain ⟨m,rfl⟩ : ∃ m, n = m + 1 := ⟨n - 1,by omega⟩
    have first := readsEnough e (each v List.mem_cons_self) (n := m) (by omega) (itemsStop e items rest)
    have more := ih (fun u mem => each u (List.mem_cons_of_mem v mem)) (n := m) (by omega)
    simp [itemsText,scanItems,skipNone (show isSpace ',' = false from rfl),first,more]

theorem quotedLength (s : String) : 2 ≤ (quoted e s).length := by simp [quoted]

theorem memberRead (name : String) {v : Value} (reads : Reads e v) {n : ℕ} {rest : List Char}
    (room : (text e v).length < n) (stopped : Stopped rest) :
    scanMember n (quoted e name ++ ':' :: (text e v ++ rest)) = some ((name,v),rest) := by
  obtain ⟨m,rfl⟩ : ∃ m, n = m + 1 := ⟨n - 1,by omega⟩
  have value := readsEnough e reads (Nat.le_of_lt_succ room) stopped
  have named := stringRead e name (':' :: (text e v ++ rest))
  simp [quoted,scanMember,skipNone (show isSpace '"' = false from rfl),named,
    skipNone (show isSpace ':' = false from rfl),value]

theorem membersRead {members : List (String × Value)} (each : ∀ m ∈ members, Reads e m.2) {n : ℕ}
    {rest : List Char} (room : (membersText e members).length ≤ n) :
    scanMembers n (membersText e members ++ rest) = some (members,rest) := by
  induction members generalizing n with
  | nil =>
    obtain ⟨m,rfl⟩ : ∃ m, n = m + 1 := ⟨n - 1,by simp [membersText] at room; omega⟩
    simp [membersText,scanMembers,skipNone (show isSpace '\x7d' = false from rfl)]
  | cons member members ih =>
    obtain ⟨name,v⟩ := member
    have named := quotedLength e name
    simp only [membersText,List.length_cons,List.length_append] at room
    obtain ⟨m,rfl⟩ : ∃ m, n = m + 1 := ⟨n - 1,by omega⟩
    have reads : Reads e v := each (name,v) List.mem_cons_self
    have first := memberRead e name reads (n := m) (by omega) (membersStop e members rest)
    have more := ih (fun u mem => each u (List.mem_cons_of_mem _ mem)) (n := m) (by omega)
    simp [membersText,scanMembers,skipNone (show isSpace ',' = false from rfl),first,more]

theorem valueRead (v : Value) : Reads e v := by
  induction v using Value.byParts with
  | null =>
    intro n rest room stopped
    simp [text,scanValue,skipNone (show isSpace 'n' = false from rfl),keyword]
  | bool b =>
    intro n rest room stopped
    cases b with
    | true => simp [text,scanValue,skipNone (show isSpace 't' = false from rfl),keyword]
    | false => simp [text,scanValue,skipNone (show isSpace 'f' = false from rfl),keyword]
  | number numeral =>
    intro n rest room stopped
    have scanned := scanText numeral stopped
    obtain ⟨c,tail,same,opening⟩ := numeralOpens numeral
    obtain ⟨printed,apart⟩ := numeralMark opening
    simp only [List.mem_cons,List.not_mem_nil,or_false,not_or] at apart
    rw [same,List.cons_append] at scanned
    rw [text,same,List.cons_append,scanValue,skipNone printed]
    simp [apart,scanned]
  | string s =>
    intro n rest room stopped
    have read := stringRead e s rest
    simp [text,quoted,scanValue,skipNone (show isSpace '"' = false from rfl),read]
  | array items ih =>
    intro n rest room stopped
    cases items with
    | nil => simp [text,scanValue,skipNone (show isSpace '[' = false from rfl),skipNone (show isSpace ']' = false from rfl)]
    | cons v items =>
      simp only [text,List.length_cons,List.length_append] at room
      have first := readsEnough e (ih v List.mem_cons_self) (n := n) (by omega) (itemsStop e items rest)
      have more : scanItems n (itemsText e items ++ rest) = some (items,rest) :=
        itemsRead e (fun u mem => ih u (List.mem_cons_of_mem v mem)) (by omega)
      obtain ⟨c,tail,same,printed,apart⟩ := opens e v
      rw [same,List.cons_append] at first
      simp [text,scanValue,skipNone (show isSpace '[' = false from rfl),same,skipNone printed,apart,first,more]
  | object members ih =>
    intro n rest room stopped
    cases members with
    | nil => simp [text,scanValue,skipNone (show isSpace '\x7b' = false from rfl),skipNone (show isSpace '\x7d' = false from rfl)]
    | cons member members =>
      obtain ⟨name,v⟩ := member
      have named := quotedLength e name
      simp only [text,List.length_cons,List.length_append] at room
      have reads : Reads e v := ih (name,v) List.mem_cons_self
      have first := memberRead e name reads (n := n) (by omega) (membersStop e members rest)
      have more : scanMembers n (membersText e members ++ rest) = some (members,rest) :=
        membersRead e (fun u mem => ih u (List.mem_cons_of_mem _ mem)) (by omega)
      rw [quoted,List.cons_append,List.append_assoc] at first
      simp only [List.cons_append,List.nil_append] at first
      simp [text,quoted,scanValue,skipNone (show isSpace '\x7b' = false from rfl),
        skipNone (show isSpace '"' = false from rfl),more,first]

theorem parseText (v : Value) {spaces : List Char} (blank : skip spaces = []) :
    parse (text e v ++ spaces) = some v := by
  have stopped : Stopped spaces := by
    intro c head
    have space := List.dropWhile_eq_nil_iff.mp blank c (List.mem_of_head? head)
    simp only [isSpace,Bool.or_eq_true,decide_eq_true_eq] at space
    rcases space with ((rfl | rfl) | rfl) | rfl <;> decide
  have read := readsEnough e (valueRead e v) (n := (text e v ++ spaces).length) (by simp) stopped
  rw [parse,read]
  simp [blank]

end RoundTrip
end MoltenPour.Json
