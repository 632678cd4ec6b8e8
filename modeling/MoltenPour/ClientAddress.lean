import MoltenPour.Runs
import MoltenPour.Bytes

/-! api/session/clientip.go: whose request it is. A text is its bytes, and net/netip
whatever it parses and contains. With a list of proxies the address is read off the
entries from the right, and nothing to the left of the first one unlisted matters. -/
namespace MoltenPour.ClientAddress
open Runs Bytes

structure Netip where
  Addr : Type
  Prefix : Type
  parseAddr : Text → Option Addr
  unmap : Addr → Addr
  text : Addr → Text
  contains : Prefix → Addr → Bool

structure Request where
  remoteAddr : Text
  forwardedFor : List Text

structure Manager (net : Netip) where
  trustProxy : Bool
  proxies : List net.Prefix

section Strings

def comma : UInt8 := 44
def colon : UInt8 := 58
def opening : UInt8 := 91
def closing : UInt8 := 93

def spaces : List Text :=
  [[9],[10],[11],[12],[13],[32],[194,133],[194,160],[225,154,128],
    [226,128,128],[226,128,129],[226,128,130],[226,128,131],[226,128,132],[226,128,133],[226,128,134],
    [226,128,135],[226,128,136],[226,128,137],[226,128,138],[226,128,168],[226,128,169],[226,128,175],
    [226,129,159],[227,128,128]]

def dropSpaces (spaces : List Text) : ℕ → Text → Text
  | 0,text => text
  | n+1,text =>
      match spaces.find? fun space => space.isPrefixOf text with
      | none => text
      | some space => dropSpaces spaces n (text.drop space.length)

def trimLeft (spaces : List Text) (text : Text) : Text := dropSpaces spaces text.length text

def trimSpace (text : Text) : Text :=
  (trimLeft (spaces.map List.reverse) (trimLeft spaces text).reverse).reverse

def lastIndex (b : UInt8) (text : Text) : Option ℕ :=
  (text.reverse.idxOf? b).map fun i => text.length - 1 - i

def splitHostPort (hostport : Text) : Option (Text × Text) :=
  match lastIndex colon hostport with
  | none => none
  | some i =>
      if hostport.head? = some opening then
        match hostport.idxOf? closing with
        | none => none
        | some bracket =>
            if bracket + 1 = i ∧ opening ∉ hostport.drop 1 ∧ closing ∉ hostport.drop (bracket + 1) then
              some ((hostport.take bracket).drop 1,hostport.drop (i + 1))
            else none
      else if colon ∈ hostport.take i ∨ opening ∈ hostport ∨ closing ∈ hostport then none
      else some (hostport.take i,hostport.drop (i + 1))

end Strings

section Address
variable {net : Netip}

def peerAddr (net : Netip) (r : Request) : Option net.Addr :=
  let host := match splitHostPort r.remoteAddr with
    | some (host,_) => host
    | none => r.remoteAddr
  (net.parseAddr host).map net.unmap

def inProxies (m : Manager net) (a : net.Addr) : Bool := m.proxies.any fun p => net.contains p a

def fromProxy (m : Manager net) (r : Request) : Bool :=
  m.trustProxy || match peerAddr net r with
    | some a => inProxies m a
    | none => false

def peer (net : Netip) (r : Request) : Text :=
  match peerAddr net r with
  | some a => net.text a
  | none => r.remoteAddr

def hops (r : Request) : List Text := r.forwardedFor.flatMap fun h => h.splitOn comma

def walk (m : Manager net) (peer : Text) : List Text → Text
  | [] => peer
  | hop::rest =>
      match net.parseAddr (trimSpace hop) with
      | none => peer
      | some a =>
          if m.trustProxy || !inProxies m (net.unmap a) then net.text (net.unmap a) else walk m peer rest

def clientIP (m : Manager net) (r : Request) : Text :=
  if !fromProxy m r then peer net r else walk m (peer net r) (hops r).reverse

def listed (m : Manager net) (entry : Text) : Bool :=
  match net.parseAddr (trimSpace entry) with
  | some a => inProxies m (net.unmap a)
  | none => false

def deciding (m : Manager net) : List Text → List Text
  | [] => []
  | entry::rest =>
      match deciding m rest with
      | [] => if listed m entry then [] else entry::rest
      | last => last

/- A proxy adds an entry to the last line of the header, or a line to the header. -/
inductive Forwarded (lines : List Text) (entry : Text) : List Text → Prop where
  | entry {front line} (there : lines = front ++ [line]) :
      Forwarded lines entry (front ++ [line ++ comma::entry])
  | line : Forwarded lines entry (lines ++ [entry])

variable {m : Manager net}

theorem hopsForwarded {lines after : List Text} {entry remoteAddr : Text} (single : comma ∉ entry)
    (forwarded : Forwarded lines entry after) : hops ⟨remoteAddr,after⟩ = hops ⟨remoteAddr,lines⟩ ++ [entry] := by
  have alone : entry.splitOn comma = [entry] := List.splitOn_eq_singleton single
  cases forwarded with
  | entry there =>
    subst there
    simp [hops,List.splitOn_append_cons_self,alone]
  | line => simp [hops,alone]

theorem hopsRelayed {lines after entries : List Text} {remoteAddr : Text}
    (single : ∀ e ∈ entries, comma ∉ e) (relayed : Run Forwarded lines entries after) :
    hops ⟨remoteAddr,after⟩ = hops ⟨remoteAddr,lines⟩ ++ entries := by
  induction relayed with
  | rest => simp
  | next before now ih =>
    rw [hopsForwarded (single _ (by simp)) now,ih fun e mem => single e (by simp [mem]),List.append_assoc]

theorem walkListed (off : m.trustProxy = false) {p hop : Text} (proxy : listed m hop = true) (rest : List Text) :
    walk m p (hop::rest) = walk m p rest := by
  unfold listed at proxy
  rw [walk]
  cases parsed : net.parseAddr (trimSpace hop) with
  | none => simp [parsed] at proxy
  | some a =>
    rw [parsed] at proxy
    simp [off,proxy]

theorem walkUnlisted {p hop : Text} (other : listed m hop = false) (rest : List Text) :
    walk m p (hop::rest) = walk m p [hop] := by
  unfold listed at other
  rw [walk,walk]
  cases parsed : net.parseAddr (trimSpace hop) with
  | none => rfl
  | some a =>
    rw [parsed] at other
    simp [other]

theorem walkPast (off : m.trustProxy = false) (p : Text) {front : List Text}
    (all : ∀ e ∈ front, listed m e = true) (rest : List Text) : walk m p (front ++ rest) = walk m p rest := by
  induction front with
  | nil => rfl
  | cons e front ih =>
    obtain ⟨here,later⟩ := List.forall_mem_cons.mp all
    exact (walkListed off here (front ++ rest)).trans (ih later)

theorem decidingSplit (m : Manager net) (entries : List Text) : ∃ front, entries = front ++ deciding m entries ∧
    (deciding m entries = [] → ∀ e ∈ entries, listed m e = true) ∧
    ∀ {last rest}, deciding m entries = last::rest → listed m last = false ∧ ∀ e ∈ rest, listed m e = true := by
  induction entries with
  | nil => exact ⟨[],rfl,by simp,by simp [deciding]⟩
  | cons e rest ih =>
    obtain ⟨front,split,all,first⟩ := ih
    rw [deciding]
    cases found : deciding m rest with
    | cons last more =>
      have known := first found
      refine ⟨e::front,?_,by simp,fun same => by cases same; exact known⟩
      rw [found] at split
      exact congrArg (List.cons e) split
    | nil =>
      have all := all found
      cases here : listed m e with
      | true => exact ⟨e::rest,by simp,fun _ => List.forall_mem_cons.mpr ⟨here,all⟩,by simp⟩
      | false => exact ⟨[],rfl,by simp,fun same => by cases same; exact ⟨here,all⟩⟩

theorem walkDeciding (off : m.trustProxy = false) (p : Text) (entries : List Text) :
    walk m p entries.reverse = walk m p ((deciding m entries).take 1) := by
  obtain ⟨front,split,all,first⟩ := decidingSplit m entries
  cases found : deciding m entries with
  | nil =>
    have past := walkPast off p (fun e mem => all found e (List.mem_reverse.mp mem)) []
    rwa [List.append_nil] at past
  | cons last rest =>
    obtain ⟨other,proxies⟩ := first found
    rw [found] at split
    have past := walkPast off p (fun e mem => proxies e (List.mem_reverse.mp mem)) (last::front.reverse)
    rw [split,List.reverse_append,List.reverse_cons,List.append_assoc]
    exact past.trans (walkUnlisted other front.reverse)

theorem decidingRelayed (sent : List Text) {visitor : Text} (other : listed m visitor = false)
    {proxies : List Text} (all : ∀ e ∈ proxies, listed m e = true) :
    deciding m (sent ++ visitor::proxies) = visitor::proxies := by
  have none : deciding m proxies = [] := by
    induction proxies with
    | nil => rfl
    | cons e rest ih =>
      obtain ⟨here,later⟩ := List.forall_mem_cons.mp all
      rw [deciding,ih later,here]
      rfl
  induction sent with
  | nil =>
    rw [List.nil_append,deciding,none,other]
    rfl
  | cons first rest ih => rw [List.cons_append,deciding,ih]

theorem clientDecided (off : m.trustProxy = false) (r : Request) : clientIP m r =
    if fromProxy m r then walk m (peer net r) ((deciding m (hops r)).take 1) else peer net r := by
  rw [clientIP,walkDeciding off]
  cases fromProxy m r <;> rfl

end Address

theorem visitorCannotChoose {net : Netip} (m : Manager net) (off : m.trustProxy = false) :
    (∀ r : Request, (∀ a, peerAddr net r = some a → inProxies m a = false) → clientIP m r = peer net r) ∧
    (∀ (remoteAddr : Text) (sent after : List Text) (visitor : Text) (proxies : List Text) (v a : net.Addr),
      peerAddr net ⟨remoteAddr,after⟩ = some a → inProxies m a = true →
      comma ∉ visitor → net.parseAddr (trimSpace visitor) = some v → inProxies m (net.unmap v) = false →
      (∀ e ∈ proxies, comma ∉ e ∧ listed m e = true) → Run Forwarded sent (visitor::proxies) after →
      clientIP m ⟨remoteAddr,after⟩ = net.text (net.unmap v)) ∧
    ∀ r r' : Request, peerAddr net r = peerAddr net r' → peer net r = peer net r' →
      deciding m (hops r) = deciding m (hops r') → clientIP m r = clientIP m r' := by
  refine ⟨fun r unlisted => ?direct,
    fun remoteAddr sent after visitor proxies v a near trusted single valid outside relays relayed => ?relayed,
    fun r r' same shown suffix => ?same⟩
  case direct =>
    have untrusted : fromProxy m r = false := by
      unfold fromProxy
      rw [off,Bool.false_or]
      cases near : peerAddr net r with
      | none => rfl
      | some a => exact unlisted a near
    rw [clientDecided off,untrusted]
    rfl
  case relayed =>
    have believed : fromProxy m ⟨remoteAddr,after⟩ = true := by
      unfold fromProxy
      rw [near]
      exact (congrArg _ trusted).trans (Bool.or_true _)
    have other : listed m visitor = false := by
      unfold listed
      rw [valid]
      exact outside
    have alone : ∀ e ∈ visitor::proxies, comma ∉ e :=
      List.forall_mem_cons.mpr ⟨single,fun e mem => (relays e mem).1⟩
    rw [clientDecided off,believed,hopsRelayed alone relayed,decidingRelayed _ other fun e mem => (relays e mem).2]
    simp [walk,valid,outside]
  case same =>
    have trust : fromProxy m r = fromProxy m r' := by
      unfold fromProxy
      rw [same]
    rw [clientDecided off,clientDecided off,trust,shown,suffix]

section Dotted

def octet (digits : Text) : Option ℕ :=
  if digits = [] ∨ 3 < digits.length ∨ (1 < digits.length ∧ digits.head? = some 48) ∨
      digits.any fun b => b < 48 || 57 < b then none
  else
    let n := digits.foldl (fun n b => n * 10 + (b.toNat - 48)) 0
    if n ≤ 255 then some n else none

/- net/netip on IPv4 alone. -/
def dotted : Netip where
  Addr := List ℕ
  Prefix := List ℕ × ℕ
  parseAddr := fun text => ((text.splitOn 46).mapM octet).filter fun a => a.length = 4
  unmap := id
  text := fun a => [46].intercalate (a.map fun n => (Nat.toDigits 10 n).map fun c => c.toNat.toUInt8)
  contains := fun p a =>
    let value := fun a : List ℕ => a.foldl (fun n b => n * 256 + b) 0
    value a / 2 ^ (32 - p.2) == value p.1 / 2 ^ (32 - p.2)

instance : DecidableEq dotted.Addr := inferInstanceAs (DecidableEq (List ℕ))

def behind : Manager dotted := ⟨false,[([172,16,0,0],12)]⟩

theorem spoofedLoses : clientIP behind ⟨ascii "172.16.3.4:80",
    [ascii "198.51.100.1",ascii "1.1.1.1,, junk, 203.0.113.7",ascii "172.16.9.9"]⟩ = ascii "203.0.113.7" := by
  have first : Forwarded [ascii "198.51.100.1",ascii "1.1.1.1,, junk"] (ascii " 203.0.113.7")
      [ascii "198.51.100.1",ascii "1.1.1.1,, junk, 203.0.113.7"] :=
    .entry (show _ = [ascii "198.51.100.1"] ++ [ascii "1.1.1.1,, junk"] from rfl)
  have second : Forwarded [ascii "198.51.100.1",ascii "1.1.1.1,, junk, 203.0.113.7"] (ascii "172.16.9.9")
      [ascii "198.51.100.1",ascii "1.1.1.1,, junk, 203.0.113.7",ascii "172.16.9.9"] := .line
  have relayed := (Run.single first).join (Run.single second)
  exact (visitorCannotChoose behind rfl).2.1 (ascii "172.16.3.4:80") _ _ _ _ [203,0,113,7] [172,16,3,4]
    (by decide +kernel) (by decide +kernel) (by decide +kernel) (by decide +kernel) (by decide +kernel)
    (by decide +kernel) relayed

end Dotted
end MoltenPour.ClientAddress
