import MoltenPour.UrlPath

/-! net/http's ServeMux without hosts. Patterns with the request's method come before
those with none; at each segment a literal comes before a wildcard, and a wildcard
before a pattern that ends there in a slash and takes the rest. -/
namespace MoltenPour.ServeMux
open Bytes UrlPath

inductive Segment where
  | literal (text : Text)
  | wildcard
  | rest
  deriving DecidableEq

structure Pattern (H : Type) where
  method : Option String
  segments : List Segment
  handler : H
  deriving DecidableEq

inductive Found (H : Type) where
  | redirect (path : Text)
  | serve (handler : H) (values : List Text)
  | notAllowed
  | notFound
  deriving DecidableEq

section Matching
variable {H : Type}

abbrev Candidate (H : Type) := List Segment × Pattern H

def after (segment : Segment) : Candidate H → Option (Candidate H)
  | (first::more,pattern) => if first = segment then some (more,pattern) else none
  | ([],_) => none

def matchPath : List Text → List (Candidate H) → List Text → Option (Pattern H × List Text)
  | [],candidates,values => (candidates.find? fun c => c.1 = []).map fun c => (c.2,values)
  | segment::more,candidates,values =>
      (matchPath more (candidates.filterMap (after (.literal segment))) values).or <|
      (if segment = [slash] then none
        else matchPath more (candidates.filterMap (after .wildcard)) (values ++ [segment])).or <|
      (candidates.find? fun c => c.1 = [.rest]).map fun c => (c.2,values)

def under (mux : List (Pattern H)) (method : Option String) : List (Candidate H) :=
  (mux.filter fun p => p.method = method).map fun p => (p.segments,p)

def lookup (mux : List (Pattern H)) (method : String) (path : Text) : Option (Pattern H × List Text) :=
  (matchPath (segments path) (under mux (some method)) []).or <|
  (if method = "HEAD" then matchPath (segments path) (under mux (some "GET")) [] else none).or <|
  matchPath (segments path) (under mux none) []

def exactMatch (path : Text) : Option (Pattern H × List Text) → Bool
  | none => false
  | some (pattern,_) =>
      if pattern.segments.getLast? ≠ some .rest then true
      else path.getLast? = some slash ∧ pattern.segments.length = path.count slash

def allows (mux : List (Pattern H)) (path : Text) : Bool :=
  mux.any fun p => p.method.isSome ∧
    ((matchPath (segments path) (under mux p.method) []).isSome ∨
      path.getLast? ≠ some slash ∧ (matchPath (segments (path ++ [slash])) (under mux p.method) []).isSome)

/- CONNECT requests are not canonicalized. -/
def canonical (method : String) (escapedPath : Text) : Text :=
  if method = "CONNECT" then escapedPath else cleanPath escapedPath

def findHandler (mux : List (Pattern H)) (method : String) (escapedPath : Text) : Found H :=
  let path := canonical method escapedPath
  let found := lookup mux method path
  if exactMatch path found = false ∧ path.getLast? ≠ some slash ∧
      exactMatch (path ++ [slash]) (lookup mux method (path ++ [slash])) then
    .redirect (cleanPath (unescaped escapedPath) ++ [slash])
  else if path ≠ escapedPath then .redirect path
  else match found with
    | some (pattern,values) => .serve pattern.handler values
    | none => if allows mux path then .notAllowed else .notFound

inductive Matches : List Segment → List Text → List Text → Prop where
  | done : Matches [] [] []
  | literal {segments path values text} (more : Matches segments path values) :
      Matches (.literal text::segments) (text::path) values
  | wildcard {segments path values text} (open_ : text ≠ [slash]) (more : Matches segments path values) :
      Matches (.wildcard::segments) (text::path) (text::values)
  | rest {path} (some : path ≠ []) : Matches [.rest] path []

theorem afterMem {segment : Segment} {candidates : List (Candidate H)} {c : Candidate H} :
    c ∈ candidates.filterMap (after segment) ↔ (segment::c.1,c.2) ∈ candidates := by
  rw [List.mem_filterMap]
  constructor
  · rintro ⟨⟨segments,pattern⟩,mem,cut⟩
    cases segments with
    | nil => cases cut
    | cons first more =>
      by_cases same : first = segment
      · subst same
        rw [after,if_pos rfl] at cut
        cases cut
        exact mem
      · rw [after,if_neg same] at cut
        cases cut
  · exact fun mem => ⟨_,mem,by simp [after]⟩

theorem matchSound {path : List Text} {candidates : List (Candidate H)} {values all : List Text}
    {pattern : Pattern H} (found : matchPath path candidates values = some (pattern,all)) :
    ∃ segments own, (segments,pattern) ∈ candidates ∧ all = values ++ own ∧ Matches segments path own := by
  induction path generalizing candidates values with
  | nil =>
    obtain ⟨⟨segments,found⟩,first,same⟩ := Option.map_eq_some_iff.mp found
    cases same
    have ended : segments = [] := by simpa using List.find?_some first
    subst ended
    exact ⟨[],[],List.mem_of_find?_eq_some first,by simp,.done⟩
  | cons segment more ih =>
    rw [matchPath,Option.or_eq_some_iff] at found
    cases found with
    | inl literal =>
      obtain ⟨segments,own,mem,same,matched⟩ := ih literal
      exact ⟨_,own,afterMem.mp mem,same,.literal matched⟩
    | inr found =>
      rw [Option.or_eq_some_iff] at found
      obtain wild | ⟨-,last⟩ := found.2
      · split at wild
        · cases wild
        · rename_i open_
          obtain ⟨segments,own,mem,same,matched⟩ := ih wild
          exact ⟨_,segment::own,afterMem.mp mem,by simp [same],.wildcard open_ matched⟩
      · obtain ⟨⟨segments,found⟩,first,same⟩ := Option.map_eq_some_iff.mp last
        cases same
        have ended : segments = [.rest] := by simpa using List.find?_some first
        subst ended
        exact ⟨_,[],List.mem_of_find?_eq_some first,by simp,.rest (by simp)⟩

theorem matchComplete {path : List Text} {candidates : List (Candidate H)} {segments : List Segment}
    {pattern : Pattern H} {own : List Text} (mem : (segments,pattern) ∈ candidates)
    (matched : Matches segments path own) (values : List Text) :
    (matchPath path candidates values).isSome = true := by
  induction path generalizing candidates segments own values with
  | nil =>
    cases matched with
    | done =>
      rw [matchPath,Option.isSome_map,List.find?_isSome]
      exact ⟨_,mem,by simp⟩
    | rest some => contradiction
  | cons segment more ih =>
    rw [matchPath,Option.isSome_or,Option.isSome_or]
    cases matched with
    | literal matched =>
      rw [ih (afterMem.mpr mem) matched values]
      rfl
    | wildcard open_ matched =>
      rw [if_neg open_,ih (afterMem.mpr mem) matched]
      simp
    | rest some =>
      have last : (candidates.find? fun c => c.1 = [.rest]).isSome = true :=
        List.find?_isSome.mpr ⟨_,mem,by simp⟩
      simp [last]

theorem literalFirst {path values : List Text} {segment : Text} {candidates : List (Candidate H)}
    (found : (matchPath path (candidates.filterMap (after (.literal segment))) values).isSome = true) :
    matchPath (segment::path) candidates values =
      matchPath path (candidates.filterMap (after (.literal segment))) values := by
  obtain ⟨result,found⟩ := Option.isSome_iff_exists.mp found
  rw [matchPath,found,Option.some_or]

theorem canonicalClean {method : String} {path : Text} (cleaned : cleanPath path = path) :
    canonical method path = path := by
  rw [canonical,cleaned,ite_self]

theorem serveFound {mux : List (Pattern H)} {method : String} {path : Text} {pattern : Pattern H}
    {values : List Text} (cleaned : cleanPath path = path)
    (found : lookup mux method path = some (pattern,values))
    (exact : exactMatch path (some (pattern,values)) = true) :
    findHandler mux method path = .serve pattern.handler values := by
  simp [findHandler,canonicalClean cleaned,found,exact]

theorem lookupSound {mux : List (Pattern H)} {method : String} {path : Text} {pattern : Pattern H}
    {values : List Text} (found : lookup mux method path = some (pattern,values)) :
    pattern ∈ mux ∧ Matches pattern.segments (segments path) values ∧
      (pattern.method = some method ∨ method = "HEAD" ∧ pattern.method = some "GET" ∨ pattern.method = none) := by
  have sound : ∀ wanted : Option String, matchPath (segments path) (under mux wanted) [] = some (pattern,values) →
      pattern ∈ mux ∧ Matches pattern.segments (segments path) values ∧ pattern.method = wanted := by
    intro wanted matched
    obtain ⟨own,all,mem,same,matches_⟩ := matchSound matched
    obtain ⟨p,listed,pair⟩ := List.mem_map.mp mem
    cases pair
    cases same
    rw [List.mem_filter,decide_eq_true_eq] at listed
    exact ⟨listed.1,matches_,listed.2⟩
  rw [lookup,Option.or_eq_some_iff,Option.or_eq_some_iff] at found
  obtain own | ⟨-,head | ⟨-,any⟩⟩ := found
  · obtain ⟨mem,matched,method⟩ := sound _ own
    exact ⟨mem,matched,.inl method⟩
  · split at head
    case isTrue isHead =>
      obtain ⟨mem,matched,method⟩ := sound _ head
      exact ⟨mem,matched,.inr (.inl ⟨isHead,method⟩)⟩
    case isFalse => cases head
  · obtain ⟨mem,matched,method⟩ := sound _ any
    exact ⟨mem,matched,.inr (.inr method)⟩

inductive Routed (mux : List (Pattern H)) (method : String) (path : Text) : Found H → Prop where
  | redirect {target} : Routed mux method path (.redirect target)
  | serve {pattern values} (found : lookup mux method (canonical method path) = some (pattern,values)) :
      Routed mux method path (.serve pattern.handler values)
  | notAllowed (none : lookup mux method (canonical method path) = none)
      (other : allows mux (canonical method path) = true) : Routed mux method path .notAllowed
  | notFound (none : lookup mux method (canonical method path) = none) : Routed mux method path .notFound

theorem routed (mux : List (Pattern H)) (method : String) (path : Text) :
    Routed mux method path (findHandler mux method path) := by
  unfold findHandler
  dsimp only
  split
  · exact .redirect
  · split
    · exact .redirect
    · split
      case h_1 found => exact .serve found
      case h_2 none =>
        split
        case isTrue other => exact .notAllowed none other
        case isFalse => exact .notFound none

end Matching
end MoltenPour.ServeMux
