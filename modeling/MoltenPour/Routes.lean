import MoltenPour.ServeMux
import MoltenPour.Handlers

/-! (*Server).Routes (api/httpapi/server.go): which handler a method and a path come
to, with and without the app's files mounted, and the requests app/pour/api.ts sends. -/
namespace MoltenPour.Routes
open Bytes Pour Handlers UrlPath ServeMux

inductive Endpoint where
  | mint | list | get | config | health | ready | noSuchEndpoint | staticHandler
  deriving DecidableEq, Repr

def literal (text : String) : Segment := .literal (ascii text)

def apiRoutes : List (Pattern Endpoint) := [
  ⟨some "POST",[literal "api",literal "pours"],.mint⟩,
  ⟨some "GET",[literal "api",literal "pours"],.list⟩,
  ⟨some "GET",[literal "api",literal "pours",.wildcard],.get⟩,
  ⟨some "GET",[literal "api",literal "config"],.config⟩,
  ⟨some "GET",[literal "api",literal "health"],.health⟩,
  ⟨some "GET",[literal "api",literal "ready"],.ready⟩,
  ⟨none,[literal "api",.rest],.noSuchEndpoint⟩]

def routes (staticDir : Bool) : List (Pattern Endpoint) :=
  if staticDir then apiRoutes ++ [⟨none,[.rest],.staticHandler⟩] else apiRoutes

section Client

def plain (b : UInt8) : Bool :=
  (65 ≤ b ∧ b ≤ 90) ∨ (97 ≤ b ∧ b ≤ 122) ∨ (48 ≤ b ∧ b ≤ 57) ∨ b ∈ ascii "-_.!~*'()"

def encodeURIComponent (text : String) : Text := escape plain (utf8 text)

def fetched {K : Type} : Ask K → String × Text
  | .mint _ => ("POST",ascii "/api/pours")
  | .list => ("GET",ascii "/api/pours")
  | .get id => ("GET",ascii "/api/pours/" ++ encodeURIComponent id)

inductive Reaches {K : Type} : Found Endpoint → Ask K → Prop where
  | mint (body : Except String (Request K)) : Reaches (.serve .mint []) (.mint body)
  | list : Reaches (.serve .list []) .list
  | get (id : String) : Reaches (.serve .get [utf8 id]) (.get id)

end Client

theorem encodedName {id : String} (some : utf8 id ≠ []) (here : utf8 id ≠ [dot]) (above : utf8 id ≠ [dot,dot]) :
    Name (encodeURIComponent id) := by
  have marked : plain percent = false := by decide
  have back := unescapeEscape marked (utf8 id)
  refine ⟨fun empty => some ?_,fun same => here ?_,fun same => above ?_,escapePlain (by decide) _⟩
  · rw [encodeURIComponent] at empty
    rw [empty] at back
    simpa [unescape] using back.symm
  · rw [encodeURIComponent] at same
    rw [same] at back
    exact (Option.some.inj back).symm
  · rw [encodeURIComponent] at same
    rw [same] at back
    exact (Option.some.inj back).symm

theorem apiNames : ∀ text ∈ ["api","pours"], Name (ascii text) ∧ unescaped (ascii text) = ascii text := by
  intro text mem
  simp only [List.mem_cons,List.not_mem_nil,or_false] at mem
  obtain rfl | rfl := mem
  · exact ⟨⟨by decide,by decide,by decide,by decide⟩,by decide⟩
  · exact ⟨⟨by decide,by decide,by decide,by decide⟩,by decide⟩

theorem underGet (staticDir : Bool) : under (routes staticDir) (some "GET") = under apiRoutes (some "GET") := by
  cases staticDir <;> rfl

theorem leafCleaned {pieces : List Text} (some : pieces ≠ []) (names : ∀ piece ∈ pieces, Name piece) :
    cleanPath (rooted pieces) = rooted pieces := cleanedAgain (.leaf some names)

theorem twoLiterals {path values : List Text} {first second : Text} {candidates left : List (Candidate Endpoint)}
    (narrowed : (candidates.filterMap (after (.literal first))).filterMap (after (.literal second)) = left)
    (found : (matchPath path left values).isSome = true) :
    matchPath (first::second::path) candidates values = matchPath path left values := by
  subst narrowed
  have inner := literalFirst found
  rw [literalFirst (by rw [inner]; exact found),inner]

def mintRoute : Pattern Endpoint := ⟨some "POST",[literal "api",literal "pours"],.mint⟩
def listRoute : Pattern Endpoint := ⟨some "GET",[literal "api",literal "pours"],.list⟩
def getRoute : Pattern Endpoint := ⟨some "GET",[literal "api",literal "pours",.wildcard],.get⟩

theorem mintFound (staticDir : Bool) {path : Text} (read : segments path = [ascii "api",ascii "pours"]) :
    lookup (routes staticDir) "POST" path = some (mintRoute,[]) := by
  have posts : under (routes staticDir) (some "POST") = [(mintRoute.segments,mintRoute)] := by
    cases staticDir <;> rfl
  have narrowed : ([(mintRoute.segments,mintRoute)].filterMap (after (literal "api"))).filterMap
      (after (literal "pours")) = [([],mintRoute)] := by decide
  have found : matchPath [] [([],mintRoute)] [] = some (mintRoute,[]) := rfl
  rw [lookup,posts,read,twoLiterals narrowed (by rw [found]; rfl),found,Option.some_or]

theorem getNarrowed : ((under apiRoutes (some "GET")).filterMap (after (literal "api"))).filterMap
    (after (literal "pours")) = [([],listRoute),([.wildcard],getRoute)] := by decide

theorem listFound (staticDir : Bool) {path : Text} (read : segments path = [ascii "api",ascii "pours"]) :
    lookup (routes staticDir) "GET" path = some (listRoute,[]) := by
  have found : matchPath [] [([],listRoute),([.wildcard],getRoute)] [] = some (listRoute,[]) := rfl
  rw [lookup,underGet,read,twoLiterals getNarrowed (by rw [found]; rfl),found,Option.some_or]

theorem getFound (staticDir : Bool) {path value : Text} (own : value ≠ [slash])
    (read : segments path = [ascii "api",ascii "pours",value]) :
    lookup (routes staticDir) "GET" path = some (getRoute,[value]) := by
  have found : matchPath [value] [([],listRoute),([.wildcard],getRoute)] [] = some (getRoute,[value]) := by
    simp [matchPath,after,own]
  rw [lookup,underGet,read,twoLiterals getNarrowed (by rw [found]; rfl),found,Option.some_or]

theorem poursNames : ∀ piece ∈ [ascii "api",ascii "pours"], Name piece := by
  simp only [List.mem_cons,List.not_mem_nil,or_false,forall_eq_or_imp,forall_eq]
  exact ⟨(apiNames "api" (by simp)).1,(apiNames "pours" (by simp)).1⟩

theorem poursPath : ascii "/api/pours" = rooted [ascii "api",ascii "pours"] := by decide

theorem poursRead : segments (rooted [ascii "api",ascii "pours"]) = [ascii "api",ascii "pours"] := by
  rw [segmentsLeaf (by simp) poursNames,List.map_cons,List.map_cons,List.map_nil,
    (apiNames "api" (by simp)).2,(apiNames "pours" (by simp)).2]

theorem getPath (id : String) :
    ascii "/api/pours/" ++ encodeURIComponent id = rooted [ascii "api",ascii "pours",encodeURIComponent id] := by
  have split : ascii "/api/pours/" = slash::ascii "api" ++ slash::ascii "pours" ++ [slash] := by decide
  simp [rooted,split]

theorem getArrives (staticDir : Bool) {id : String} (name : Name (encodeURIComponent id))
    (own : utf8 id ≠ [slash]) :
    findHandler (routes staticDir) "GET" (ascii "/api/pours/" ++ encodeURIComponent id) =
      .serve .get [utf8 id] := by
  have back : unescaped (encodeURIComponent id) = utf8 id := by
    rw [unescaped,encodeURIComponent,unescapeEscape (by decide)]
    rfl
  have names : ∀ piece ∈ [ascii "api",ascii "pours",encodeURIComponent id], Name piece := by
    simp only [List.mem_cons,List.not_mem_nil,or_false,forall_eq_or_imp,forall_eq]
    exact ⟨(apiNames "api" (by simp)).1,(apiNames "pours" (by simp)).1,name⟩
  have read : segments (rooted [ascii "api",ascii "pours",encodeURIComponent id]) =
      [ascii "api",ascii "pours",utf8 id] := by
    rw [segmentsLeaf (by simp) names,List.map_cons,List.map_cons,List.map_cons,List.map_nil,back,
      (apiNames "api" (by simp)).2,(apiNames "pours" (by simp)).2]
  rw [getPath]
  exact serveFound (leafCleaned (by simp) names) (getFound staticDir own read) rfl

theorem callsArrive {K : Type} (staticDir : Bool) (ask : Ask K)
    (named : ∀ id, ask = .get id → id ∉ ["",".","..","/"]) :
    Reaches (findHandler (routes staticDir) (fetched ask).1 (fetched ask).2) ask := by
  have clean := leafCleaned (by simp) poursNames
  cases ask with
  | mint body =>
    rw [fetched,poursPath,serveFound clean (mintFound staticDir poursRead) rfl]
    exact .mint body
  | list =>
    rw [fetched,poursPath,serveFound clean (listFound staticDir poursRead) rfl]
    exact .list
  | get id =>
    have other : ∀ text : String, utf8 id = utf8 text → id = text := fun text same => utf8Inj same
    have named := named id rfl
    simp only [List.mem_cons,List.not_mem_nil,or_false,not_or] at named
    have name : Name (encodeURIComponent id) :=
      encodedName (fun same => named.1 (other "" same)) (fun same => named.2.1 (other "." same))
        fun same => named.2.2.1 (other ".." same)
    rw [fetched,getArrives staticDir name fun same => named.2.2.2 (other "/" same)]
    exact .get id

theorem slashedArrives :
    Reaches (findHandler (routes true) "GET" (ascii "/api/pours/" ++ encodeURIComponent "a/b")) (.get "a/b" : Ask ℕ) :=
  callsArrive true (.get "a/b") (by rintro _ ⟨⟩; decide)

section Owned

def Owned (path : Text) : Prop := (segments path).head? = some (ascii "api")

instance (path : Text) : Decidable (Owned path) := by unfold Owned; infer_instance

theorem underMethod (method : String) : under (routes true) (some method) = under (routes false) (some method) := by
  have other : (none : Option String) ≠ some method := nofun
  simp [under,routes,List.filter_append,other]

def catchAll : Pattern Endpoint := ⟨none,[literal "api",.rest],.noSuchEndpoint⟩

theorem underOwned (staticDir : Bool) {path : List Text} (some : path ≠ []) :
    matchPath (ascii "api"::path) (under (routes staticDir) none) [] =
      matchPath path [([.rest],catchAll)] [] ∧ (matchPath path [([.rest],catchAll)] []).isSome = true := by
  -- Below /api the catch-all is in the way of the app's files, whatever the method.
  have narrowed : (under (routes staticDir) none).filterMap (after (literal "api")) = [([.rest],catchAll)] := by
    cases staticDir <;> decide
  have found := matchComplete (List.mem_singleton.mpr (rfl : ([.rest],catchAll) = ([.rest],catchAll))) (.rest some) []
  refine ⟨?_,found⟩
  rw [literalFirst]
  · exact congrArg (fun c => matchPath path c []) narrowed
  · exact (congrArg (fun c => (matchPath path c []).isSome) narrowed).trans found

theorem ownedFound (method : String) {path : Text} {rest : List Text} (some : rest ≠ [])
    (read : segments path = ascii "api"::rest) :
    lookup (routes true) method path = lookup (routes false) method path ∧
      ∃ found, lookup (routes false) method path = .some found := by
  obtain ⟨mounted,-⟩ := underOwned true some
  obtain ⟨alone,found⟩ := underOwned false some
  obtain ⟨result,found⟩ := Option.isSome_iff_exists.mp found
  simp only [lookup,read,underMethod,mounted,alone,found,true_and]
  cases matchPath (ascii "api"::rest) (under (routes false) (.some method)) [] with
  | some own => exact ⟨own,rfl⟩
  | none =>
    cases (if method = "HEAD" then matchPath (ascii "api"::rest) (under (routes false) (.some "GET")) [] else none) with
    | some own => exact ⟨own,rfl⟩
    | none => exact ⟨result,rfl⟩

theorem ownedSlash {path : Text} : Owned (slash::path ++ [slash]) ↔ Owned (slash::path) := by
  have bare : unescaped [] ≠ ascii "api" := by decide
  have bar : [slash] ≠ ascii "api" := by decide
  rw [Owned,Owned,segmentsSlash,segments]
  cases pieces : path.splitOn slash with
  | nil => exact absurd pieces (List.splitOn_ne_nil slash path)
  | cons first more =>
    cases more with
    | nil =>
      by_cases empty : first = []
      · simp [closed,empty,bare,bar]
      · simp [closed,empty]
    | cons next more => simp [closed]

theorem apiMatched {pattern : Pattern Endpoint} (api : pattern ∈ apiRoutes) {path values : List Text}
    (matched : Matches pattern.segments path values) : path.head? = some (ascii "api") := by
  have every : ∀ pattern ∈ apiRoutes, pattern.segments.head? = some (literal "api") := by decide
  have opens := every pattern api
  generalize pattern.segments = segments at opens matched
  cases matched with
  | literal =>
    cases opens
    rfl
  | _ => cases opens

theorem routePlace {staticDir : Bool} {pattern : Pattern Endpoint} (listed : pattern ∈ routes staticDir) :
    pattern ∈ apiRoutes ∨ staticDir = true ∧ pattern = ⟨none,[.rest],.staticHandler⟩ := by
  cases staticDir with
  | false => exact .inl listed
  | true =>
    cases List.mem_append.mp listed with
    | inl api => exact .inl api
    | inr app => exact .inr ⟨rfl,List.mem_singleton.mp app⟩

theorem apiShape {pattern : Pattern Endpoint} (api : pattern ∈ apiRoutes) : pattern = catchAll ∨
    ∃ text more, pattern.segments = literal "api"::.literal text::more ∧ text ≠ [slash] := by
  simp only [apiRoutes,List.mem_cons,List.not_mem_nil,or_false] at api
  obtain rfl | rfl | rfl | rfl | rfl | rfl | rfl := api
  · exact .inr ⟨ascii "pours",[],rfl,by decide⟩
  · exact .inr ⟨ascii "pours",[],rfl,by decide⟩
  · exact .inr ⟨ascii "pours",[.wildcard],rfl,by decide⟩
  · exact .inr ⟨ascii "config",[],rfl,by decide⟩
  · exact .inr ⟨ascii "health",[],rfl,by decide⟩
  · exact .inr ⟨ascii "ready",[],rfl,by decide⟩
  · exact .inl rfl

theorem slashCaught {pattern : Pattern Endpoint} (api : pattern ∈ apiRoutes) {values : List Text}
    (matched : Matches pattern.segments [ascii "api",[slash]] values) : pattern = catchAll := by
  cases apiShape api with
  | inl same => exact same
  | inr other =>
    obtain ⟨text,more,segments,differs⟩ := other
    rw [segments] at matched
    cases matched with
    | literal matched =>
      cases matched
      contradiction

theorem bareUnmatched {pattern : Pattern Endpoint} (api : pattern ∈ apiRoutes) {values : List Text} :
    ¬ Matches pattern.segments [ascii "api"] values := by
  intro matched
  cases apiShape api with
  | inl same =>
    subst same
    cases matched with
    | literal matched =>
      cases matched
      contradiction
  | inr other =>
    obtain ⟨text,more,segments,-⟩ := other
    rw [segments] at matched
    cases matched with
    | literal matched => cases matched

theorem pieceOf {path piece : Text} (split : path.splitOn slash = [piece]) : path = piece := by
  have joined : [slash].intercalate (path.splitOn slash) = path := List.intercalate_splitOn slash
  rw [split,List.intercalate_singleton] at joined
  exact joined.symm

theorem bareSpelled {path : Text} (read : segments (slash::path) = [ascii "api"]) :
    slash ∉ path ∧ segments (slash::path ++ [slash]) = [ascii "api",[slash]] := by
  rw [segments] at read
  rw [segmentsSlash]
  cases pieces : path.splitOn slash with
  | nil => exact absurd pieces (List.splitOn_ne_nil slash path)
  | cons first more =>
    rw [pieces] at read
    cases more with
    | nil =>
      have whole := splitWhole path first (by simp [pieces])
      by_cases empty : first = []
      · subst empty
        exact absurd read (by decide)
      · rw [closed,if_neg empty] at read
        rw [pieceOf pieces]
        exact ⟨whole,by simpa using List.cons.inj read |>.1⟩
    | cons next more =>
      have long : closed (next::more) ≠ [] := by cases more <;> simp [closed]
      exact absurd (List.cons.inj read).2 long

theorem bareRedirects (staticDir : Bool) (method : String) {path given : Text}
    (cleaned : canonical method given = slash::path) (read : segments (slash::path) = [ascii "api"]) :
    findHandler (routes staticDir) method given = .redirect (cleanPath (unescaped given) ++ [slash]) := by
  obtain ⟨whole,closes⟩ := bareSpelled read
  have open_ : (slash::path).getLast? ≠ some slash := by
    intro ends
    cases path with
    | nil => exact absurd read (by decide)
    | cons b rest =>
      rw [List.getLast?_cons_cons] at ends
      exact whole (List.mem_of_getLast? ends)
  have inexact : exactMatch (slash::path) (lookup (routes staticDir) method (slash::path)) = false := by
    cases found : lookup (routes staticDir) method (slash::path) with
    | none => rfl
    | some result =>
      obtain ⟨pattern,values⟩ := result
      obtain ⟨listed,matched,-⟩ := lookupSound found
      rw [read] at matched
      cases routePlace listed with
      | inl api => exact absurd matched (bareUnmatched api)
      | inr app => simp [exactMatch,app.2,open_]
  have more : [[slash]] ≠ ([] : List Text) := by simp
  obtain ⟨same,⟨pattern,values⟩,found⟩ := ownedFound method more closes
  obtain ⟨listed,matched,-⟩ := lookupSound found
  rw [closes] at matched
  cases slashCaught listed matched
  have both : lookup (routes staticDir) method (slash::path ++ [slash]) = some (catchAll,values) := by
    cases staticDir with
    | false => exact found
    | true => exact same.trans found
  have exact_ : exactMatch (slash::path ++ [slash]) (some (catchAll,values)) = true := by
    have count : (slash::path ++ [slash]).count slash = 2 := by
      simp [List.count_eq_zero_of_not_mem whole]
    have ends : (slash::path ++ [slash]).getLast? = some slash := List.getLast?_concat ..
    simp only [exactMatch,count,ends]
    rfl
  unfold findHandler
  dsimp only
  rw [cleaned,both,if_pos ⟨inexact,open_,exact_⟩]

theorem cleanedSlash (given : Text) : (cleanPath given).head? = some slash := by
  have cleaned := cleanedPath given
  generalize cleanPath given = path at cleaned
  cases cleaned with
  | root => rfl
  | @leaf pieces => exact rootedHead pieces
  | @tree pieces =>
    rw [List.head?_append,rootedHead pieces]
    rfl

/- CONNECT comes with an authority alone, or with a path that is taken as it stands. -/
def Absolute (method : String) (path : Text) : Prop := method = "CONNECT" → path = [] ∨ path.head? = some slash

theorem canonicalSlash {method : String} {given : Text} (absolute : Absolute method given) :
    method = "CONNECT" ∧ given = [] ∨ ∃ path, canonical method given = slash::path := by
  unfold canonical
  split
  case isTrue connect =>
    cases absolute connect with
    | inl empty => exact .inl ⟨connect,empty⟩
    | inr led => exact .inr (List.head?_eq_some_iff.mp led)
  case isFalse => exact .inr (List.head?_eq_some_iff.mp (cleanedSlash given))

theorem authorityLeft (staticDir : Bool) : (∃ target, findHandler (routes staticDir) "CONNECT" [] = .redirect target) ∨
    findHandler (routes staticDir) "CONNECT" [] = if staticDir then .serve .staticHandler [] else .notFound := by
  cases staticDir with
  | false => exact .inr (by decide)
  | true => exact .inl ⟨[slash,slash],by decide⟩

theorem closedLong {path : Text} {rest : List Text}
    (closes : segments (slash::path ++ [slash]) = ascii "api"::rest) : rest ≠ [] := by
  have some := List.length_pos_iff.mpr (List.splitOn_ne_nil slash path)
  have length := congrArg List.length closes
  rw [segmentsSlash] at length
  simp only [List.length_append,List.length_map,List.length_cons,List.length_nil] at length
  intro none
  rw [none,List.length_nil] at length
  omega

theorem ownedAlike (method : String) {given : Text} (absolute : Absolute method given)
    (owned : Owned (canonical method given)) :
    findHandler (routes true) method given = findHandler (routes false) method given ∧
      ((∃ target, findHandler (routes false) method given = .redirect target) ∨
        ∃ endpoint values, findHandler (routes false) method given = .serve endpoint values ∧
          endpoint ≠ .staticHandler) := by
  obtain ⟨rfl,rfl⟩ | ⟨path,cleaned⟩ := canonicalSlash absolute
  · exact absurd owned (by decide)
  rw [cleaned] at owned
  obtain ⟨rest,read⟩ := List.head?_eq_some_iff.mp owned
  obtain ⟨more,closes⟩ := List.head?_eq_some_iff.mp (ownedSlash.mpr owned)
  by_cases bare : rest = []
  · subst bare
    rw [bareRedirects true method cleaned read,bareRedirects false method cleaned read]
    exact ⟨rfl,.inl ⟨_,rfl⟩⟩
  · obtain ⟨same,⟨pattern,values⟩,found⟩ := ownedFound method bare read
    obtain ⟨slashSame,-⟩ := ownedFound method (closedLong closes) closes
    constructor
    · unfold findHandler
      dsimp only
      rw [cleaned,same,slashSame,found]
    · have outcome := routed (routes false) method given
      generalize findHandler (routes false) method given = left at outcome
      cases outcome with
      | redirect => exact .inl ⟨_,rfl⟩
      | @serve pattern values found =>
        have others : ∀ pattern ∈ apiRoutes, pattern.handler ≠ .staticHandler := by decide
        exact .inr ⟨_,_,rfl,others pattern (lookupSound found).1⟩
      | notAllowed none =>
        rw [cleaned,found] at none
        contradiction
      | notFound none =>
        rw [cleaned,found] at none
        contradiction

theorem allowsOwned (staticDir : Bool) {path : Text} (allowed : allows (routes staticDir) (slash::path) = true) :
    Owned (slash::path) := by
  have matched : ∀ (path : Text) (pattern : Pattern Endpoint), pattern.method.isSome = true →
      (matchPath (segments path) (under (routes staticDir) pattern.method) []).isSome = true → Owned path := by
    intro path pattern method found
    obtain ⟨⟨other,values⟩,found⟩ := Option.isSome_iff_exists.mp found
    obtain ⟨own,all,mem,-,matched⟩ := matchSound found
    obtain ⟨p,listed,pair⟩ := List.mem_map.mp mem
    cases pair
    rw [List.mem_filter,decide_eq_true_eq] at listed
    cases routePlace listed.1 with
    | inl api => exact apiMatched api matched
    | inr app =>
      rw [← listed.2,app.2] at method
      contradiction
  obtain ⟨pattern,-,allowed⟩ := List.any_eq_true.mp allowed
  obtain ⟨method,here | ⟨-,closed⟩⟩ := of_decide_eq_true allowed
  · exact matched _ pattern method here
  · exact ownedSlash.mp (matched _ pattern method closed)

theorem unownedLeft (staticDir : Bool) (method : String) {given : Text} (absolute : Absolute method given)
    (unowned : ¬ Owned (canonical method given)) :
    (∃ target, findHandler (routes staticDir) method given = .redirect target) ∨
      findHandler (routes staticDir) method given =
        if staticDir then .serve .staticHandler [] else .notFound := by
  obtain ⟨rfl,rfl⟩ | ⟨path,cleaned⟩ := canonicalSlash absolute
  · exact authorityLeft staticDir
  have outcome := routed (routes staticDir) method given
  generalize findHandler (routes staticDir) method given = left at outcome
  cases outcome with
  | redirect => exact .inl ⟨_,rfl⟩
  | @serve pattern values found =>
    obtain ⟨listed,matched,-⟩ := lookupSound found
    cases routePlace listed with
    | inl api => exact absurd (apiMatched api matched) unowned
    | inr app =>
      obtain ⟨rfl,rfl⟩ := app
      cases matched
      exact .inr rfl
  | notAllowed none other =>
    rw [cleaned] at other unowned
    exact absurd (allowsOwned staticDir other) unowned
  | notFound none =>
    cases staticDir with
    | false => exact .inr rfl
    | true =>
      have some : segments (canonical method given) ≠ [] := by
        rw [cleaned,segments]
        cases pieces : path.splitOn slash with
        | nil => exact absurd pieces (List.splitOn_ne_nil slash path)
        | cons first more => cases more <;> simp [closed]
      have mounted : ([.rest],(⟨.none,[.rest],.staticHandler⟩ : Pattern Endpoint)) ∈ under (routes true) .none := by
        decide
      have found := matchComplete mounted (.rest some) []
      rw [lookup,Option.or_eq_none_iff,Option.or_eq_none_iff] at none
      rw [none.2.2] at found
      contradiction

end Owned

theorem apiApart (method : String) (path : Text) (absolute : Absolute method path) :
    if Owned (canonical method path) then
      findHandler (routes true) method path = findHandler (routes false) method path ∧
      ((∃ target, findHandler (routes false) method path = .redirect target) ∨
        ∃ endpoint values, findHandler (routes false) method path = .serve endpoint values ∧
          endpoint ≠ .staticHandler)
    else ∀ staticDir, (∃ target, findHandler (routes staticDir) method path = .redirect target) ∨
      findHandler (routes staticDir) method path = if staticDir then .serve .staticHandler [] else .notFound := by
  by_cases owned : Owned (canonical method path)
  · rw [if_pos owned]
    exact ownedAlike method absolute owned
  · rw [if_neg owned]
    exact fun staticDir => unownedLeft staticDir method absolute owned

theorem connectApart : (∀ staticDir,
    (∃ target, findHandler (routes staticDir) "CONNECT" (ascii "//api/pours") = .redirect target) ∨
      findHandler (routes staticDir) "CONNECT" (ascii "//api/pours") =
        if staticDir then .serve .staticHandler [] else .notFound) ∧
    findHandler (routes true) "CONNECT" (ascii "/api//pours") =
      findHandler (routes false) "CONNECT" (ascii "/api//pours") := by
  have unowned := apiApart "CONNECT" (ascii "//api/pours") fun _ => .inr (by decide)
  have owned := apiApart "CONNECT" (ascii "/api//pours") fun _ => .inr (by decide)
  rw [if_neg (by decide)] at unowned
  rw [if_pos (by decide)] at owned
  exact ⟨unowned,owned.1⟩

end MoltenPour.Routes
