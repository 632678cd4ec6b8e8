import MoltenPour.Bytes

/-! The path of a URL, as bytes: percent-encoding, the segments between slashes, and
the lexical cleaning of path.Clean. A name is a piece that cleaning leaves alone. -/
namespace MoltenPour.UrlPath
open Bytes

def slash : UInt8 := 47
def dot : UInt8 := 46
def percent : UInt8 := 37

section Escapes

def hexDigit (n : ℕ) : UInt8 := UInt8.ofNat (if n < 10 then 48 + n else 55 + n)

def hexValue (b : UInt8) : Option ℕ :=
  if 48 ≤ b ∧ b ≤ 57 then some (b.toNat - 48)
  else if 65 ≤ b ∧ b ≤ 70 then some (b.toNat - 55)
  else if 97 ≤ b ∧ b ≤ 102 then some (b.toNat - 87)
  else none

def escapeByte (b : UInt8) : Text := [percent,hexDigit (b.toNat / 16),hexDigit (b.toNat % 16)]

def escape (plain : UInt8 → Bool) (text : Text) : Text :=
  text.flatMap fun b => if plain b then [b] else escapeByte b

def unescape : Text → Option Text
  | [] => some []
  | b::rest =>
      if b = percent then
        match rest with
        | high::low::rest => do
            let high ← hexValue high
            let low ← hexValue low
            let text ← unescape rest
            some (UInt8.ofNat (16 * high + low)::text)
        | _ => none
      else (unescape rest).map (b::·)

theorem hexRead {n : ℕ} (digit : n < 16) : hexValue (hexDigit n) = some n := by
  have each : ∀ n : Fin 16, hexValue (hexDigit n) = some n.val := by decide
  exact each ⟨n,digit⟩

theorem hexPlain {n : ℕ} (digit : n < 16) : hexDigit n ≠ slash ∧ hexDigit n ≠ dot := by
  have each : ∀ n : Fin 16, hexDigit n ≠ slash ∧ hexDigit n ≠ dot := by decide
  exact each ⟨n,digit⟩

theorem unescapeByte (b : UInt8) (rest : Text) :
    unescape (escapeByte b ++ rest) = (unescape rest).map (b::·) := by
  have byte := b.toNat_lt
  have high : hexValue (hexDigit (b.toNat / 16)) = some (b.toNat / 16) := hexRead (by omega)
  have low : hexValue (hexDigit (b.toNat % 16)) = some (b.toNat % 16) := hexRead (by omega)
  have whole : UInt8.ofNat (16 * (b.toNat / 16) + b.toNat % 16) = b := by
    rw [Nat.div_add_mod,UInt8.ofNat_toNat]
  calc unescape (escapeByte b ++ rest)
      = (unescape rest).bind fun text =>
          some (UInt8.ofNat (16 * (b.toNat / 16) + b.toNat % 16)::text) := by
        simp only [escapeByte,List.cons_append,List.nil_append]
        rw [unescape,if_pos rfl,high,low]
        rfl
    _ = (unescape rest).map (b::·) := by
        rw [whole]
        cases unescape rest <;> rfl

theorem unescapePlain {b : UInt8} (other : b ≠ percent) (rest : Text) :
    unescape (b::rest) = (unescape rest).map (b::·) := by
  rw [unescape.eq_def]
  exact if_neg other

theorem unescapeEscape {plain : UInt8 → Bool} (escaped : plain percent = false) (text : Text) :
    unescape (escape plain text) = some text := by
  induction text with
  | nil => rfl
  | cons b rest ih =>
    have more : escape plain (b::rest) = (if plain b then [b] else escapeByte b) ++ escape plain rest := rfl
    rw [more]
    cases kept : plain b with
    | true =>
      have other : b ≠ percent := fun same => by simp [← same,kept] at escaped
      rw [if_pos rfl,List.singleton_append,unescapePlain other,ih]
      rfl
    | false =>
      rw [if_neg Bool.false_ne_true,unescapeByte,ih]
      rfl

theorem escapePlain {plain : UInt8 → Bool} (marked : plain slash = false) (text : Text) :
    slash ∉ escape plain text := by
  intro mem
  obtain ⟨b,-,here⟩ := List.mem_flatMap.mp mem
  cases kept : plain b with
  | true =>
    rw [if_pos kept,List.mem_singleton] at here
    rw [← here,marked] at kept
    contradiction
  | false =>
    have byte := b.toNat_lt
    rw [kept] at here
    simp only [Bool.false_eq_true,if_false,escapeByte,List.mem_cons,List.not_mem_nil,or_false] at here
    obtain mark | high | low := here
    · exact absurd mark (by decide)
    · exact (hexPlain (by omega : b.toNat / 16 < 16)).1 high.symm
    · exact (hexPlain (by omega : b.toNat % 16 < 16)).1 low.symm

end Escapes

section Cleaning

def rooted (pieces : List Text) : Text :=
  if pieces = [] then [slash] else pieces.flatMap (slash::·)

def climb (above : List Text) (piece : Text) : List Text :=
  if piece = [] ∨ piece = [dot] then above
  else if piece = [dot,dot] then above.dropLast
  else above ++ [piece]

def resolve (pieces : List Text) : List Text := pieces.foldl climb []

def clean (path : Text) : Text := rooted (resolve (path.splitOn slash))

structure Name (piece : Text) : Prop where
  some : piece ≠ []
  here : piece ≠ [dot]
  above : piece ≠ [dot,dot]
  whole : slash ∉ piece

theorem climbName {above : List Text} {piece : Text} (name : Name piece) :
    climb above piece = above ++ [piece] := by
  simp [climb,name.some,name.here,name.above]

theorem resolveNames {pieces above : List Text} (names : ∀ piece ∈ pieces, Name piece) :
    pieces.foldl climb above = above ++ pieces := by
  induction pieces generalizing above with
  | nil => simp
  | cons piece rest ih =>
    rw [List.foldl_cons,climbName (names piece List.mem_cons_self),
      ih fun p mem => names p (List.mem_cons_of_mem piece mem),List.append_assoc,List.singleton_append]

theorem resolvedNames {pieces above : List Text} (whole : ∀ piece ∈ pieces, slash ∉ piece)
    (names : ∀ piece ∈ above, Name piece) : ∀ piece ∈ pieces.foldl climb above, Name piece := by
  induction pieces generalizing above with
  | nil => exact names
  | cons piece rest ih =>
    refine ih (fun p mem => whole p (List.mem_cons_of_mem piece mem)) fun p mem => ?_
    unfold climb at mem
    split at mem
    case isTrue => exact names p mem
    case isFalse proper =>
      split at mem
      case isTrue => exact names p (List.mem_of_mem_dropLast mem)
      case isFalse lower =>
        cases List.mem_append.mp mem with
        | inl old => exact names p old
        | inr new =>
          cases List.mem_singleton.mp new
          exact ⟨fun none => proper (.inl none),fun here => proper (.inr here),lower,
            whole _ List.mem_cons_self⟩

theorem splitWhole (path : Text) : ∀ piece ∈ path.splitOn slash, slash ∉ piece := by
  induction path with
  | nil => simp [slash]
  | cons b rest ih =>
    rw [List.splitOn_cons_eq_if_modifyHead]
    split
    case isTrue same =>
      intro piece mem
      cases List.mem_cons.mp mem with
      | inl empty => simp [empty]
      | inr later => exact ih piece later
    case isFalse other =>
      have some := List.splitOn_ne_nil slash rest
      cases split : rest.splitOn slash with
      | nil => exact absurd split some
      | cons head more =>
        rw [split] at ih
        intro piece mem
        cases List.mem_cons.mp mem with
        | inl first =>
          have here := ih head List.mem_cons_self
          simp only [beq_iff_eq] at other
          rw [first]
          simp [here,Ne.symm other]
        | inr later => exact ih piece (List.mem_cons_of_mem head later)

theorem splitRooted {pieces : List Text} (some : pieces ≠ []) (whole : ∀ piece ∈ pieces, slash ∉ piece) :
    (rooted pieces).splitOn slash = []::pieces := by
  rw [rooted,if_neg some]
  clear some
  induction pieces with
  | nil => simp
  | cons piece rest ih =>
    have tail := ih fun p mem => whole p (List.mem_cons_of_mem piece mem)
    rw [List.flatMap_cons,List.cons_append,List.splitOn_cons_eq_if_modifyHead,if_pos (by simp)]
    cases rest with
    | nil => simp [List.splitOn_eq_singleton (whole piece List.mem_cons_self)]
    | cons next rest =>
      rw [List.flatMap_cons,List.cons_append] at tail ⊢
      rw [List.splitOn_append_cons_self_of_not_mem (whole piece List.mem_cons_self)]
      rw [List.splitOn_cons_eq_if_modifyHead,if_pos (by simp)] at tail
      rw [(List.cons.inj tail).2]

theorem cleanRooted {pieces : List Text} (some : pieces ≠ []) (names : ∀ piece ∈ pieces, Name piece) :
    clean (rooted pieces) = rooted pieces := by
  rw [clean,splitRooted some fun piece mem => (names piece mem).whole,resolve,List.foldl_cons]
  exact congrArg rooted (resolveNames names)

theorem rootedSlash {pieces : List Text} (some : pieces ≠ []) :
    rooted pieces ++ [slash] = rooted (pieces ++ [[]]) := by
  simp [rooted,some]

theorem cleanSlash {pieces : List Text} (some : pieces ≠ []) (names : ∀ piece ∈ pieces, Name piece) :
    clean (rooted pieces ++ [slash]) = rooted pieces := by
  have whole : ∀ piece ∈ pieces ++ [[]], slash ∉ piece := by
    intro piece mem
    cases List.mem_append.mp mem with
    | inl name => exact (names piece name).whole
    | inr last => simp [List.mem_singleton.mp last]
  rw [clean,rootedSlash some,splitRooted (by simp) whole,resolve,List.foldl_cons,List.foldl_append]
  have climbed : pieces.foldl climb (climb [] []) = pieces := resolveNames names
  rw [climbed]
  rfl

theorem rootedOpen {pieces : List Text} (some : pieces ≠ []) (names : ∀ piece ∈ pieces, Name piece) :
    (rooted pieces).getLast? ≠ .some slash := by
  obtain ⟨init,last,rfl⟩ := (List.eq_nil_or_concat pieces).resolve_left some
  have name := names last (by simp)
  have closes : rooted (init.concat last) = init.flatMap (slash::·) ++ [slash] ++ last := by simp [rooted]
  rw [closes,List.getLast?_append_of_ne_nil _ name.some]
  exact fun ends => name.whole (List.mem_of_getLast? ends)

theorem rootedHead (pieces : List Text) : (rooted pieces).head? = some slash := by
  cases pieces with
  | nil => rfl
  | cons piece rest => simp [rooted]

theorem rootedLong {pieces : List Text} (some : pieces ≠ []) (names : ∀ piece ∈ pieces, Name piece) :
    rooted pieces ≠ [slash] := by
  intro root
  have opened := rootedOpen some names
  rw [root] at opened
  exact opened rfl

def cleanPath (path : Text) : Text :=
  let path := if path.head? = some slash then path else slash::path
  if path.getLast? = some slash ∧ clean path ≠ [slash] then clean path ++ [slash] else clean path

inductive Cleaned : Text → Prop where
  | root : Cleaned [slash]
  | leaf {pieces} (some : pieces ≠ []) (names : ∀ piece ∈ pieces, Name piece) : Cleaned (rooted pieces)
  | tree {pieces} (some : pieces ≠ []) (names : ∀ piece ∈ pieces, Name piece) : Cleaned (rooted pieces ++ [slash])

theorem cleanNames (path : Text) : ∃ pieces, clean path = rooted pieces ∧ ∀ piece ∈ pieces, Name piece :=
  ⟨_,rfl,resolvedNames (splitWhole path) nofun⟩

theorem cleanedPath (path : Text) : Cleaned (cleanPath path) := by
  unfold cleanPath
  generalize (if path.head? = some slash then path else slash::path) = absolute
  obtain ⟨pieces,cleaned,names⟩ := cleanNames absolute
  simp only [cleaned]
  by_cases none : pieces = []
  · subst none
    rw [if_neg fun ends => ends.2 rfl]
    exact .root
  · split
    · exact .tree none names
    · exact .leaf none names

theorem cleanedAgain {path : Text} (cleaned : Cleaned path) : cleanPath path = path := by
  cases cleaned with
  | root => decide
  | @leaf pieces some names =>
    have head : (rooted pieces).head? = .some slash := rootedHead pieces
    simp [cleanPath,head,rootedOpen some names,cleanRooted some names]
  | @tree pieces some names =>
    have head : (rooted pieces ++ [slash]).head? = .some slash := by simp [rootedHead pieces]
    simp [cleanPath,head,rootedLong some names,cleanSlash some names]

end Cleaning

section Segments

/- A segment that is not properly escaped is taken as it stands. -/
def unescaped (piece : Text) : Text := (unescape piece).getD piece

def closed : List Text → List Text
  | [] => []
  | [last] => [if last = [] then [slash] else unescaped last]
  | piece::rest => unescaped piece::closed rest

/- What follows the slash a path begins with, cut at the others; a slash that ends it is
a segment of its own. -/
def segments : Text → List Text
  | [] => []
  | _::path => closed (path.splitOn slash)

theorem segmentsRooted {pieces : List Text} (some : pieces ≠ []) (whole : ∀ piece ∈ pieces, slash ∉ piece) :
    segments (rooted pieces) = closed pieces := by
  have split := splitRooted some whole
  have head := rootedHead pieces
  obtain ⟨tail,rest⟩ : ∃ tail, rooted pieces = slash::tail := by
    cases path : rooted pieces with
    | nil => simp [path] at head
    | cons b tail =>
      rw [path,List.head?_cons,Option.some.injEq] at head
      exact ⟨tail,by rw [head]⟩
  rw [rest,List.splitOn_cons_eq_if_modifyHead,if_pos (by simp)] at split
  rw [rest,segments,(List.cons.inj split).2]

theorem segmentsLeaf {pieces : List Text} (some : pieces ≠ []) (names : ∀ piece ∈ pieces, Name piece) :
    segments (rooted pieces) = pieces.map unescaped := by
  rw [segmentsRooted some fun piece mem => (names piece mem).whole]
  clear some
  induction pieces with
  | nil => rfl
  | cons piece rest ih =>
    have tail := ih fun p mem => names p (List.mem_cons_of_mem piece mem)
    cases rest with
    | nil => simp [closed,(names piece List.mem_cons_self).some]
    | cons next rest => exact congrArg (unescaped piece::·) tail

theorem closedSlash (pieces : List Text) : closed (pieces ++ [[]]) = pieces.map unescaped ++ [[slash]] := by
  induction pieces with
  | nil => rfl
  | cons piece rest ih =>
    cases rest with
    | nil => rfl
    | cons next rest => exact congrArg (unescaped piece::·) ih

theorem segmentsSlash (path : Text) :
    segments (slash::path ++ [slash]) = (path.splitOn slash).map unescaped ++ [[slash]] := by
  have split : (path ++ [slash]).splitOn slash = path.splitOn slash ++ [[]] := by
    induction path with
    | nil => decide
    | cons b rest ih =>
      rw [List.cons_append,List.splitOn_cons_eq_if_modifyHead,List.splitOn_cons_eq_if_modifyHead,ih]
      split
      · rfl
      · cases pieces : rest.splitOn slash with
        | nil => exact absurd pieces (List.splitOn_ne_nil slash rest)
        | cons first more => rfl
  rw [List.cons_append,segments,split,closedSlash]

end Segments

end MoltenPour.UrlPath
