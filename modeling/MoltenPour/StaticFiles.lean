import MoltenPour.UrlPath

/-! staticHandler (api/httpapi/static.go): the built app under one directory, with
http.FileServer and http.ServeFile as documented. The tree says which absolute names
are regular files and which are directories. -/
namespace MoltenPour.StaticFiles
open Bytes UrlPath

structure Tree where
  regular : List Text → Bool
  directory : List Text → Bool
  apart : ∀ name, regular name = true → directory name = false
  parent : ∀ name file, regular (name ++ [file]) = true → directory name = true

inductive Reply where
  | file (name : List Text)
  | listing (name : List Text)
  | redirect
  | notFound
  | badPath
  | notDirectory
  deriving DecidableEq

def indexHtml : Text := ascii "index.html"
def assets : Text := ascii "/assets/"
def immutable : String := "public, max-age=31536000, immutable"
def noCache : String := "no-cache"

def Reply.isError : Reply → Bool
  | .notFound | .badPath | .notDirectory => true
  | _ => false

/- serveError drops the Cache-Control that was set for the file. -/
def served (cacheControl : String) (reply : Reply) : Option String × Reply :=
  (if reply.isError then none else some cacheControl,reply)

def base (path : Text) : Text :=
  let last := ((path.reverse.dropWhile (· = slash)).takeWhile (· ≠ slash)).reverse
  if path = [] then [dot] else if last = [] then [slash] else last

def join (dir : List Text) (name : Text) : List Text := (name.splitOn slash).foldl climb dir

section Handler
variable (tree : Tree) (dir : List Text)

def fileExists (clean : Text) : Bool :=
  let clean := if clean = [slash] then slash::indexHtml else clean
  tree.regular (join dir clean)

/- http.FileServer of the directory: an index page is asked for by its directory, a
directory with a slash at the end and a file without one. -/
def fileServer (urlPath : Text) : Reply :=
  let url := if urlPath.head? = some slash then urlPath else slash::urlPath
  let name := join dir (clean url)
  if (slash::indexHtml).isSuffixOf url then .redirect
  else if tree.directory name then
    if url.getLast? ≠ some slash then .redirect
    else if tree.regular (name ++ [indexHtml]) then .file (name ++ [indexHtml])
    else .listing name
  else if tree.regular name then
    if url.getLast? ≠ some slash then .file name
    else if base url = [slash] ∨ base url = [dot] then .notDirectory
    else .redirect
  else .notFound

def containsDotDot (urlPath : Text) : Bool :=
  (urlPath.splitOnP fun b => b = slash ∨ b = 92).any fun part => part = [dot,dot]

def serveIndex (urlPath : Text) : Reply :=
  if containsDotDot urlPath then .badPath
  else if (slash::indexHtml).isSuffixOf urlPath then .redirect
  else if tree.directory (dir ++ [indexHtml]) then
    if urlPath.getLast? ≠ some slash then .redirect
    else if tree.regular (dir ++ [indexHtml,indexHtml]) then .file (dir ++ [indexHtml,indexHtml])
    else .listing (dir ++ [indexHtml])
  else if tree.regular (dir ++ [indexHtml]) then .file (dir ++ [indexHtml])
  else .notFound

def staticHandler (method : String) (urlPath : Text) : Option String × Reply :=
  let clean := clean (slash::urlPath)
  let cacheControl := if assets.isPrefixOf clean then immutable else noCache
  if (method = "GET" ∨ method = "HEAD") ∧ fileExists tree dir clean = false then
    if assets.isPrefixOf clean then (some noCache,.notFound)
    else served cacheControl (serveIndex tree dir urlPath)
  else served cacheControl (fileServer tree dir urlPath)

end Handler

theorem cleanOpened (path : Text) : clean (slash::path) = clean path := by
  rw [clean,clean,List.splitOn_cons_eq_if_modifyHead,if_pos (by simp)]
  rfl

theorem joinRooted (dir : List Text) {pieces : List Text} (names : ∀ piece ∈ pieces, Name piece) :
    join dir (rooted pieces) = dir ++ pieces := by
  cases pieces with
  | nil =>
    have root : (rooted []).splitOn slash = [[],[]] := by decide
    rw [join,root]
    simp [climb]
  | cons piece rest =>
    rw [join,splitRooted (by simp) fun p mem => (names p mem).whole,List.foldl_cons]
    exact resolveNames names

theorem indexName : Name indexHtml := ⟨by decide,by decide,by decide,by decide⟩

theorem joinIndex (dir : List Text) : join dir (slash::indexHtml) = dir ++ [indexHtml] := by
  have page : slash::indexHtml = rooted [indexHtml] := by simp [rooted]
  rw [page]
  exact joinRooted dir (by simpa using indexName)

def UnderAssets (pieces : List Text) : Prop := ∃ more, more ≠ [] ∧ pieces = ascii "assets"::more

theorem assetsIff {pieces : List Text} (names : ∀ piece ∈ pieces, Name piece) :
    assets.isPrefixOf (rooted pieces) = true ↔ UnderAssets pieces := by
  have whole : ∀ piece ∈ pieces, slash ∉ piece := fun piece mem => (names piece mem).whole
  have opens : assets = slash::ascii "assets" ++ [slash] := by decide
  rw [List.isPrefixOf_iff_prefix]
  constructor
  · rintro ⟨rest,path⟩
    have some : pieces ≠ [] := by
      rintro rfl
      have length := congrArg List.length path
      rw [opens] at length
      simp [rooted] at length
    have split := splitRooted some whole
    rw [← path,opens,List.append_assoc,List.cons_append,List.splitOn_cons_eq_if_modifyHead,if_pos (by simp),
      List.singleton_append,List.splitOn_append_cons_self_of_not_mem (by decide)] at split
    exact ⟨_,List.splitOn_ne_nil slash rest,(List.cons.inj split).2.symm⟩
  · rintro ⟨more,some,rfl⟩
    cases more with
    | nil => contradiction
    | cons next more =>
      rw [rooted,if_neg (by simp),opens]
      exact ⟨next ++ more.flatMap (slash::·),by simp⟩

section Answers
variable (tree : Tree) (dir : List Text)

theorem existsRooted {path : Text} {pieces : List Text} (names : ∀ piece ∈ pieces, Name piece)
    (cleaned : clean path = rooted pieces) :
    fileExists tree dir (clean path) = tree.regular (dir ++ if pieces = [] then [indexHtml] else pieces) := by
  rw [fileExists,cleaned]
  by_cases root : pieces = []
  · subst root
    rw [if_pos (by rfl),if_pos rfl,joinIndex]
  · rw [if_neg (rootedLong root names),if_neg root,joinRooted dir names]

theorem existsServed {urlPath : Text} {pieces : List Text} (cleaned : clean urlPath = rooted pieces)
    (names : ∀ piece ∈ pieces, Name piece) (found : fileExists tree dir (clean urlPath) = true) :
    fileServer tree dir urlPath = .redirect ∨ fileServer tree dir urlPath = .notDirectory ∨
      ∃ below, fileServer tree dir urlPath = .file (dir ++ below) ∧
        tree.regular (dir ++ below) = true ∧ (below = pieces ∨ pieces = [] ∧ below = [indexHtml]) := by
  rw [existsRooted tree dir names cleaned] at found
  unfold fileServer
  dsimp only
  have same : clean (if urlPath.head? = some slash then urlPath else slash::urlPath) = rooted pieces := by
    split
    · exact cleaned
    · rw [cleanOpened,cleaned]
  generalize (if urlPath.head? = some slash then urlPath else slash::urlPath) = url at same
  rw [same,joinRooted dir names]
  by_cases root : pieces = []
  · subst root
    have page : tree.regular (dir ++ [indexHtml]) = true := found
    rw [List.append_nil,if_pos (tree.parent dir indexHtml page)]
    split
    · exact .inl rfl
    · split
      · exact .inl rfl
      · exact .inr (.inr ⟨_,rfl,page,.inr ⟨rfl,rfl⟩⟩)
  · have file : tree.regular (dir ++ pieces) = true := by rwa [if_neg root] at found
    rw [tree.apart _ file,file]
    split
    · exact .inl rfl
    · simp only [Bool.false_eq_true,if_false,if_true]
      split
      · exact .inr (.inr ⟨pieces,rfl,file,.inl rfl⟩)
      · split
        · exact .inr (.inl rfl)
        · exact .inl rfl

end Answers

inductive Kept (pieces : List Text) : String → Prop where
  | immutable (under : UnderAssets pieces) : Kept pieces immutable
  | noCache (elsewhere : ¬ UnderAssets pieces) : Kept pieces noCache

inductive Answered (tree : Tree) (dir : List Text) (pieces : List Text) : Option String × Reply → Prop where
  | found {cacheControl below} (kept : Kept pieces cacheControl) (there : tree.regular (dir ++ below) = true)
      (named : below = pieces ∨ pieces = [] ∧ below = [indexHtml]) :
      Answered tree dir pieces (some cacheControl,.file (dir ++ below))
  | fallback (there : tree.regular (dir ++ [indexHtml]) = true) (missing : tree.regular (dir ++ pieces) = false)
      (elsewhere : ¬ UnderAssets pieces) : Answered tree dir pieces (some noCache,.file (dir ++ [indexHtml]))
  | redirect {cacheControl} (kept : Kept pieces cacheControl)
      (there : UnderAssets pieces → tree.regular (dir ++ pieces) = true) :
      Answered tree dir pieces (some cacheControl,.redirect)
  | missing (under : UnderAssets pieces) (missing : tree.regular (dir ++ pieces) = false) :
      Answered tree dir pieces (some noCache,.notFound)
  | error {reply} (error : reply.isError = true) : Answered tree dir pieces (none,reply)

theorem underNamed {pieces : List Text} (under : UnderAssets pieces) : pieces ≠ [] := by
  rintro rfl
  obtain ⟨more,-,same⟩ := under
  cases same

theorem keptSorted {pieces : List Text} (names : ∀ piece ∈ pieces, Name piece) :
    Kept pieces (if assets.isPrefixOf (rooted pieces) then immutable else noCache) := by
  split
  case isTrue under => exact .immutable ((assetsIff names).mp under)
  case isFalse elsewhere => exact .noCache fun under => elsewhere ((assetsIff names).mpr under)

theorem indexServed (tree : Tree) (dir : List Text) {pieces : List Text} (urlPath : Text)
    (page : tree.directory (dir ++ [indexHtml]) = false) (elsewhere : ¬ UnderAssets pieces)
    (missing : tree.regular (dir ++ if pieces = [] then [indexHtml] else pieces) = false) :
    Answered tree dir pieces (served noCache (serveIndex tree dir urlPath)) := by
  unfold serveIndex
  split
  · exact .error rfl
  · split
    · exact .redirect (.noCache elsewhere) fun under => absurd under elsewhere
    · rw [page]
      simp only [Bool.false_eq_true,if_false]
      split
      case isTrue there =>
        refine .fallback there ?_ elsewhere
        by_cases root : pieces = []
        · rw [if_pos root,there] at missing
          contradiction
        · rwa [if_neg root] at missing
      case isFalse => exact .error rfl

theorem onlyBuilt (tree : Tree) (dir : List Text) (page : tree.directory (dir ++ [indexHtml]) = false)
    (method : String) (urlPath : Text) (asked : method = "GET" ∨ method = "HEAD") :
    ∃ pieces, clean (slash::urlPath) = rooted pieces ∧ (∀ piece ∈ pieces, Name piece) ∧
      Answered tree dir pieces (staticHandler tree dir method urlPath) := by
  obtain ⟨pieces,cleaned,names⟩ := cleanNames (slash::urlPath)
  refine ⟨pieces,cleaned,names,?_⟩
  have plain := (cleanOpened urlPath).symm.trans cleaned
  have kept := keptSorted names
  unfold staticHandler
  dsimp only
  cases found : fileExists tree dir (clean (slash::urlPath)) with
  | true =>
    rw [if_neg (by simp),cleaned]
    obtain redirect | odd | ⟨below,file,there,named⟩ :=
      existsServed tree dir plain names (by rw [← cleanOpened]; exact found)
    · rw [redirect]
      refine .redirect kept fun under => ?_
      rw [existsRooted tree dir names cleaned,if_neg (underNamed under)] at found
      exact found
    · rw [odd]
      exact .error rfl
    · rw [file]
      exact .found kept there named
  | false =>
    rw [existsRooted tree dir names cleaned] at found
    rw [if_pos ⟨asked,rfl⟩,cleaned]
    split
    case isTrue inside =>
      have under := (assetsIff names).mp inside
      rw [if_neg (underNamed under)] at found
      exact .missing under found
    case isFalse outside =>
      exact indexServed tree dir urlPath page (fun under => outside ((assetsIff names).mpr under)) found

def build : Tree where
  regular name := name = [indexHtml] ∨ name = [ascii "assets",ascii "index.js"]
  directory name := name = [] ∨ name = [ascii "assets"]
  apart := by
    intro name
    simp only [decide_eq_true_eq,decide_eq_false_iff_not]
    rintro (rfl | rfl) <;> decide
  parent := by
    intro name file
    simp only [decide_eq_true_eq]
    rintro (page | script)
    · have top : name ++ [file] = [] ++ [indexHtml] := page
      exact .inl (List.append_inj' top rfl).1
    · have below : name ++ [file] = [ascii "assets"] ++ [ascii "index.js"] := script
      exact .inr (List.append_inj' below rfl).1

theorem scriptSentOn : ∃ pieces, clean (slash::ascii "/assets/index.js/") = rooted pieces ∧
    (∀ piece ∈ pieces, Name piece) ∧ Answered build [] pieces (some immutable,.redirect) :=
  onlyBuilt build [] (by decide) "GET" (ascii "/assets/index.js/") (.inl rfl)

end MoltenPour.StaticFiles
