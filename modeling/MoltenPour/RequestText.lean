import MoltenPour.AnswerText
import MoltenPour.Bytes

/-! The body mintPour posts and what api/httpapi/server.go decodes: JSON.stringify on one
side, a decoder that knows the fields of pour.Request on the other. -/
namespace MoltenPour.RequestText
open NumberFormat BinaryFormat Bytes Artifact Pour Store Handlers AnswerText
open JsonTokens (Numeral Escaping)
open Json (Value)

def jsEscaping : Escaping where
  coded c := c.toNat < 32
  controls c control := by simp [control]
  narrow c coded := by
    have control : c.toNat < 32 := by simpa using coded
    omega

def stringifyNumber : Num Double → Value
  | .fin x => .number (.ofRounded 53 x.val)
  | _ => .null

def stringifyTelemetry (t : Telemetry Double) : Value :=
  .object [("dropletsLanded",stringifyNumber t.dropletsLanded),("peakVelocity",stringifyNumber t.peakVelocity),
    ("tiltEnergy",stringifyNumber t.tiltEnergy),("holdMs",stringifyNumber t.holdMs)]

def requestJson (req : Request Double) : Value :=
  .object [("tierIndex",stringifyNumber req.tierIndex),("timestampMs",stringifyNumber req.timestampMs),
    ("telemetry",stringifyTelemetry req.telemetry)]

def stringify (req : Request Double) : List Char := Json.text jsEscaping (requestJson req)

/- encoding/json's foldName: two letters outside ASCII fold to one inside. -/
def foldRune (c : Char) : Char :=
  if c.toNat = 0x17F then 'S' else if c.toNat = 0x212A then 'K' else c.toUpper

def foldName (name : String) : List Char := name.toList.map foldRune

def fieldOf (fields : List String) (name : String) : Option String :=
  if name ∈ fields then some name else fields.find? fun field => foldName field = foldName name

def requestFields : List String := ["tierIndex","timestampMs","telemetry"]

def telemetryFields : List String := ["dropletsLanded","peakVelocity","tiltEnergy","holdMs"]

def decodeInt (old : ℤ) : Value → Option ℤ
  | .null => some old
  | .number n =>
      let value : ℤ := if n.negative then -n.mantissa else n.mantissa
      if n.places = 0 ∧ n.exponent = none ∧ -2 ^ 63 ≤ value ∧ value < 2 ^ 63 then some value else none
  | _ => none

/- strconv.ParseFloat: out of range is what comes to 2 ^ 1024 when it is rounded. -/
def decodeFloat (old : Num Double) : Value → Option (Num Double)
  | .null => some old
  | .number n =>
      let x : Double := Format.literal n.value
      if |x.val| < 2 ^ 1024 then some (.fin x) else none
  | _ => none

def setTelemetry (t : Telemetry Double) (member : String × Value) : Option (Telemetry Double) := do
  let field ← fieldOf telemetryFields member.1
  if field = "dropletsLanded" then
    let dropletsLanded ← decodeFloat t.dropletsLanded member.2
    some { t with dropletsLanded }
  else if field = "peakVelocity" then
    let peakVelocity ← decodeFloat t.peakVelocity member.2
    some { t with peakVelocity }
  else if field = "tiltEnergy" then
    let tiltEnergy ← decodeFloat t.tiltEnergy member.2
    some { t with tiltEnergy }
  else
    let holdMs ← decodeFloat t.holdMs member.2
    some { t with holdMs }

def decodeTelemetry (old : Telemetry Double) : Value → Option (Telemetry Double)
  | .null => some old
  | .object members => members.foldlM setTelemetry old
  | _ => none

def setRequest (req : Request Double) (member : String × Value) : Option (Request Double) := do
  let field ← fieldOf requestFields member.1
  if field = "tierIndex" then
    let tierIndex ← decodeInt req.tierIndex member.2
    some { req with tierIndex }
  else if field = "timestampMs" then
    let timestampMs ← decodeInt req.timestampMs member.2
    some { req with timestampMs }
  else
    let telemetry ← decodeTelemetry req.telemetry member.2
    some { req with telemetry }

def zeroRequest : Request Double := ⟨0,0,⟨0,0,0,0⟩⟩

def unmarshal : Value → Option (Request Double)
  | .null => some zeroRequest
  | .object members => members.foldlM setRequest zeroRequest
  | _ => none

def limit : ℕ := 65536

def readable (body : Text) : List Char × Bool := (runes (body.take limit),body.length ≤ limit)

/- Whether a value ends where it does: null only at what follows it, or with the body. -/
def ended : Value → List Char → Bool → Bool
  | .null,rest,whole => rest ≠ [] ∨ whole
  | _,_,_ => true

def decode (body : Text) : Option (Request Double) := do
  let (text,whole) := readable body
  let (v,rest) ← Json.scanValue text.length text
  if ended v rest whole then unmarshal v else none

def posted (req : Request Double) : Text := utf8 (String.ofList (stringify req))

/- The report as it arrives: what is not finite was null, and left its field at zero. -/
def arrived : Num Double → Num Double
  | .fin x => .fin x
  | _ => 0

def received (req : Request Double) : Request Double :=
  { req with telemetry := ⟨arrived req.telemetry.dropletsLanded,arrived req.telemetry.peakVelocity,
    arrived req.telemetry.tiltEnergy,arrived req.telemetry.holdMs⟩ }

def Ranged (x : Num Double) : Prop := ∀ v, x = .fin v → v.val ≠ 0 →
  (2 : ℚ) ^ (-1074 : ℤ) ≤ |v.val| ∧ |v.val| < 2 ^ 1024

structure Held (req : Request Double) : Prop where
  tier : |req.tierIndex| < 2 ^ 53
  timestamp : |req.timestampMs| < 2 ^ 53
  droplets : Ranged req.telemetry.dropletsLanded
  velocity : Ranged req.telemetry.peakVelocity
  tilt : Ranged req.telemetry.tiltEnergy
  hold : Ranged req.telemetry.holdMs

section Numbers

theorem wholeStringified {n : ℤ} (small : |n| < 2 ^ 53) :
    stringifyNumber (n : Num Double) = .number (.ofInt n) := by
  have fits : BinaryRounding.Fits 53 (n : ℚ) := BinaryRounding.fitsInt 53 small.le
  have exact : (Rounded.of 53 (n : ℚ)).val = n := BinaryRounding.roundOfFits (by decide) fits
  have short : |n| < 10 ^ 21 := small.trans (by norm_num)
  exact congrArg Value.number ((congrArg _ exact).trans (JsonTokens.roundedWhole (by decide) small short))

theorem wholeDecoded {n : ℤ} (small : |n| < 2 ^ 53) (old : ℤ) :
    decodeInt old (.number (.ofInt n)) = some n := by
  obtain ⟨low,high⟩ := abs_lt.mp small
  have value : (if decide (n < 0) = true then -(n.natAbs : ℤ) else n.natAbs) = n := by
    simp only [decide_eq_true_eq]
    split <;> omega
  unfold decodeInt Numeral.ofInt
  dsimp only
  rw [value,if_pos ⟨rfl,rfl,by omega,by omega⟩]

theorem floatDecoded {x : Num Double} (ranged : Ranged x) :
    decodeFloat (.fin 0) (stringifyNumber x) = some (arrived x) := by
  cases x with
  | fin x =>
    have read : (Format.literal (Numeral.ofRounded 53 x.val).value : Double) = x := Num.fin.inj (floatRead x)
    have below : |x.val| < 2 ^ 1024 := by
      by_cases none : x.val = 0
      · rw [none,abs_zero]
        positivity
      · exact (ranged x rfl none).2
    simp only [stringifyNumber,decodeFloat,read,if_pos below,arrived]
  | nan => exact congrArg some Num.zeroFin.symm
  | inf s => exact congrArg some Num.zeroFin.symm

theorem wholeLength {n : ℤ} (small : |n| < 2 ^ 53) : (Numeral.ofInt n).text.length ≤ 60 := by
  have bound : n.natAbs < 10 ^ 16 := by
    zify
    exact small.trans (by norm_num)
  have digits := JsonTokens.digitsLength (by decide) bound
  have plain : (⟨false,n.natAbs,0,none⟩ : Numeral).text = Nat.toDigits 10 n.natAbs := by
    simp [Numeral.text,Numeral.fractionText,Numeral.exponentText]
  have signed := JsonTokens.signLength ⟨false,n.natAbs,0,none⟩ (decide (n < 0))
  rw [plain] at signed
  exact signed.trans (by omega)

theorem floatLength {x : Double} (ranged : Ranged (.fin x)) : (Numeral.ofRounded 53 x.val).text.length ≤ 60 := by
  unfold Numeral.ofRounded
  split
  case isTrue => decide
  case isFalse some_value =>
    obtain ⟨low,high⟩ := ranged x rfl some_value
    have positive : 0 < |x.val| := abs_pos.mpr some_value
    obtain ⟨digits,after,before⟩ :=
      ShortestDecimal.shortestSize (by decide) (ShortestDecimal.fitsAbs x.fits) positive
    have under : Int.log 10 |x.val| < 309 := by
      apply (Int.lt_zpow_iff_log_lt (by decide) positive).mp
      have top : 2 ^ 1024 < 10 ^ 309 := by decide +kernel
      exact high.trans (by exact_mod_cast top)
    have above : -324 ≤ Int.log 10 |x.val| := by
      apply (Int.zpow_le_iff_le_log (by decide) positive).mp
      have bottom : 2 ^ 1074 ≤ 10 ^ 324 := by decide +kernel
      refine le_trans ?_ low
      rw [zpow_neg,zpow_neg]
      exact inv_anti₀ (by positivity) (by exact_mod_cast bottom)
    have most : ShortestDecimal.mostDigits 53 = 17 := by decide +kernel
    rw [most] at digits after
    have bound := JsonTokens.layoutLength (by decide) digits (by decide : 0 < 3) (by omega)
    have signed := JsonTokens.signLength (Numeral.layout (ShortestDecimal.shortest 53 |x.val|)) (decide (x.val < 0))
    exact signed.trans (by omega)

theorem numberLength {x : Num Double} (ranged : Ranged x) :
    (Json.text jsEscaping (stringifyNumber x)).length ≤ 60 := by
  cases x with
  | fin x => exact floatLength ranged
  | nan => exact (by decide : 4 ≤ 60)
  | inf s => exact (by decide : 4 ≤ 60)

end Numbers

section Arrives
variable {req : Request Double} (held : Held req)
include held

theorem requestLength : (stringify req).length ≤ 16384 := by
  have tier := wholeLength held.tier
  have timestamp := wholeLength held.timestamp
  have droplets := numberLength held.droplets
  have velocity := numberLength held.velocity
  have tilt := numberLength held.tilt
  have hold := numberLength held.hold
  have keys : (["tierIndex","timestampMs","telemetry","dropletsLanded","peakVelocity","tiltEnergy","holdMs"].map
      fun name => (JsonTokens.quoted jsEscaping name).length) = [11,13,11,16,14,12,8] := by decide +kernel
  simp only [List.map_cons,List.map_nil,List.cons.injEq] at keys
  simp only [stringify,requestJson,stringifyTelemetry,wholeStringified held.tier,wholeStringified held.timestamp,
    Json.text,Json.membersText,List.length_cons,List.length_append,List.length_nil,keys]
  omega

theorem postedWhole : readable (posted req) = (stringify req,true) := by
  have bytes := utf8Length (stringify req)
  have length := requestLength held
  have fits : (posted req).length ≤ limit := by
    unfold posted limit
    omega
  rw [readable,List.take_of_length_le fits,posted,runesRead,← posted,decide_eq_true fits]

theorem telemetryDecoded :
    decodeTelemetry ⟨.fin 0,.fin 0,.fin 0,.fin 0⟩ (stringifyTelemetry req.telemetry) = some
      (received req).telemetry := by
  simp [stringifyTelemetry,decodeTelemetry,setTelemetry,fieldOf,telemetryFields,floatDecoded held.droplets,
    floatDecoded held.velocity,floatDecoded held.tilt,floatDecoded held.hold,received]

theorem requestDecoded : decode (posted req) = some (received req) := by
  have read := Json.valueRead jsEscaping (requestJson req)
  have scanned : Json.scanValue (stringify req).length (stringify req ++ []) = some (requestJson req,[]) :=
    Json.readsEnough jsEscaping read le_rfl (by simp [JsonTokens.Stopped])
  rw [List.append_nil] at scanned
  have fields : unmarshal (requestJson req) = some (received req) := by
    simp [requestJson,unmarshal,setRequest,fieldOf,requestFields,wholeStringified held.tier,wholeStringified held.timestamp,
      wholeDecoded held.tier,wholeDecoded held.timestamp,zeroRequest,telemetryDecoded held,received]
  simp only [decode,postedWhole held,scanned,bind,Option.bind,ended,requestJson,if_true]
  exact fields

end Arrives

section First

theorem countRanged {n : ℕ} (small : n < 2 ^ 53) : Ranged (Num.literal (n : ℕ)) := by
  rintro v ⟨⟩ some_value
  have fits : BinaryRounding.Fits 53 ((n : ℤ) : ℚ) :=
    BinaryRounding.fitsInt 53 (by rw [Nat.abs_cast]; exact_mod_cast small.le)
  have exact : (Rounded.of 53 (n : ℚ)).val = n := BinaryRounding.roundOfFits (by decide) fits
  have value : (Format.literal (n : ℚ) : Double).val = n := exact
  rw [value] at some_value ⊢
  have least : (1 : ℚ) ≤ n := by exact_mod_cast Nat.one_le_iff_ne_zero.mpr (by exact_mod_cast some_value)
  have bottom : (2 : ℚ) ^ (-1074 : ℤ) ≤ 1 := zpow_le_one_of_nonpos₀ one_le_two (by decide)
  have top : n < 2 ^ 1024 := small.trans (by decide +kernel)
  rw [abs_of_nonneg (Nat.cast_nonneg n)]
  exact ⟨bottom.trans least,by exact_mod_cast top⟩

def firstRequest : Request Double := ⟨2,1785628800000,⟨7,.nan,3,900⟩⟩

theorem firstHeld : Held firstRequest :=
  ⟨by decide,by decide,countRanged (n := 7) (by decide),fun v same => by contradiction,
    countRanged (n := 3) (by decide),countRanged (n := 900) (by decide)⟩

example : String.ofList (stringify firstRequest) = "\x7b\"tierIndex\":2,\"timestampMs\":1785628800000,\"telemetry\":" ++
    "\x7b\"dropletsLanded\":7,\"peakVelocity\":null,\"tiltEnergy\":3,\"holdMs\":900\x7d\x7d" := by
  decide +kernel

end First

section Mints

theorem takeArrived (key : String) (x most : Num Double) (violations : Option (List String)) :
    ServerPipeline.take key (arrived x) most violations = ServerPipeline.take key x most violations := by
  cases x with
  | fin x => rfl
  | nan => rfl
  | inf s => rfl

theorem receivedMints (req : Request Double) (position : ℕ) (ownerId : String) (now : Time) :
    mint (received req) position ownerId now = mint req position ownerId now := by
  have clamps : ∀ tierIndex wallClockMs,
      ServerPipeline.clampTelemetry (received req).telemetry tierIndex wallClockMs =
        ServerPipeline.clampTelemetry req.telemetry tierIndex wallClockMs := by
    intro tierIndex wallClockMs
    simp only [ServerPipeline.clampTelemetry,received,takeArrived]
  unfold mint
  simp only [clamps]
  rfl

variable (B : Backend Double) (cfg : Config) (visit : Visit) (cookie : Option String)

theorem receivedHandled (req : Request Double) (s : B.State) :
    handle B cfg visit cookie (.mint (.ok (received req))) s =
      handle B cfg visit cookie (.mint (.ok req)) s := by
  have minted : ∀ ownerId, (⟨ownerId,received req,visit.now⟩ : Posted Double).mint =
      (⟨ownerId,req,visit.now⟩ : Posted Double).mint := fun ownerId =>
    funext fun position => receivedMints req position ownerId visit.now
  have keyed : ∀ ownerId, (⟨ownerId,received req,visit.now⟩ : Posted Double).key =
      (⟨ownerId,req,visit.now⟩ : Posted Double).key := fun _ => rfl
  simp only [handle,handleMint,minted,keyed]
  rfl

end Mints

section Accepted

def Within (x : Num Double) : Prop := ∃ v, x = .fin v ∧ |v.val| < 2 ^ 1024

def Finite (t : Telemetry Double) : Prop := ∀ key, Within (t.claim key)

structure Wellformed (req : Request Double) : Prop where
  tier : -2 ^ 63 ≤ req.tierIndex ∧ req.tierIndex < 2 ^ 63
  timestamp : -2 ^ 63 ≤ req.timestampMs ∧ req.timestampMs < 2 ^ 63
  telemetry : Finite req.telemetry

def Known (fields : List String) (v : Value) : Prop :=
  ∀ members, v = .object members → ∀ member ∈ members, ∃ field ∈ fields, foldName member.1 = foldName field

structure Named (v : Value) : Prop where
  fields : Known requestFields v
  reports : ∀ members, v = .object members → ∀ member ∈ members,
    foldName member.1 = foldName "telemetry" → Known telemetryFields member.2

theorem fieldKnown {fields : List String} {name field : String} (set : fieldOf fields name = some field) :
    field ∈ fields ∧ foldName name = foldName field := by
  unfold fieldOf at set
  split at set
  case isTrue exact =>
    cases set
    exact ⟨exact,rfl⟩
  case isFalse =>
    have folded := List.find?_some set
    exact ⟨List.mem_of_find?_eq_some set,(of_decide_eq_true folded).symm⟩

theorem foldKeeps {S M : Type} {f : S → M → Option S} {P : S → Prop}
    (one : ∀ {s m t}, P s → f s m = some t → P t) {members : List M} {s t : S} (start : P s)
    (all : members.foldlM f s = some t) : P t ∧ ∀ m ∈ members, ∃ s t, P s ∧ f s m = some t := by
  induction members generalizing s with
  | nil =>
    cases all
    exact ⟨start,by simp⟩
  | cons m rest ih =>
    obtain ⟨u,first,later⟩ := Option.bind_eq_some_iff.mp all
    obtain ⟨kept,taken⟩ := ih (one start first) later
    exact ⟨kept,List.forall_mem_cons.mpr ⟨⟨s,u,start,first⟩,taken⟩⟩

theorem intDecoded {old n : ℤ} {v : Value} (start : -2 ^ 63 ≤ old ∧ old < 2 ^ 63)
    (decoded : decodeInt old v = some n) : -2 ^ 63 ≤ n ∧ n < 2 ^ 63 := by
  unfold decodeInt at decoded
  split at decoded
  case h_1 =>
    cases decoded
    exact start
  case h_2 numeral =>
    dsimp only at decoded
    generalize (if numeral.negative = true then -(numeral.mantissa : ℤ) else numeral.mantissa) = value at decoded
    split at decoded
    case isTrue whole =>
      cases decoded
      exact whole.2.2
    case isFalse => contradiction
  case h_3 => contradiction

theorem floatFinite {old x : Num Double} {v : Value} (start : Within old)
    (decoded : decodeFloat old v = some x) : Within x := by
  unfold decodeFloat at decoded
  split at decoded
  case h_1 =>
    cases decoded
    exact start
  case h_2 numeral =>
    dsimp only at decoded
    split at decoded
    case isTrue below =>
      cases decoded
      exact ⟨_,rfl,below⟩
    case isFalse => contradiction
  case h_3 => contradiction

example : decodeFloat 0 (.number ⟨false,1,0,some 400⟩) = none := by decide +kernel

theorem telemetrySet {t u : Telemetry Double} {member : String × Value} (finite : Finite t)
    (set : setTelemetry t member = some u) : Finite u := by
  simp only [setTelemetry,bind,Option.bind_eq_some_iff] at set
  obtain ⟨field,-,set⟩ := set
  split_ifs at set
  all_goals
    obtain ⟨x,decoded,same⟩ := Option.bind_eq_some_iff.mp set
    cases same
  · have new := floatFinite (finite .dropletsLanded) decoded
    exact fun | .dropletsLanded => new | .peakVelocity => finite .peakVelocity
              | .tiltEnergy => finite .tiltEnergy | .holdMs => finite .holdMs
  · have new := floatFinite (finite .peakVelocity) decoded
    exact fun | .dropletsLanded => finite .dropletsLanded | .peakVelocity => new
              | .tiltEnergy => finite .tiltEnergy | .holdMs => finite .holdMs
  · have new := floatFinite (finite .tiltEnergy) decoded
    exact fun | .dropletsLanded => finite .dropletsLanded | .peakVelocity => finite .peakVelocity
              | .tiltEnergy => new | .holdMs => finite .holdMs
  · have new := floatFinite (finite .holdMs) decoded
    exact fun | .dropletsLanded => finite .dropletsLanded | .peakVelocity => finite .peakVelocity
              | .tiltEnergy => finite .tiltEnergy | .holdMs => new

theorem telemetryKnown {t u : Telemetry Double} {member : String × Value} (set : setTelemetry t member = some u) :
    ∃ field ∈ telemetryFields, foldName member.1 = foldName field := by
  simp only [setTelemetry,bind,Option.bind_eq_some_iff] at set
  obtain ⟨field,here,-⟩ := set
  exact ⟨field,fieldKnown here⟩

theorem telemetryAccepted {t u : Telemetry Double} {v : Value} (finite : Finite t)
    (decoded : decodeTelemetry t v = some u) : Finite u ∧ Known telemetryFields v := by
  unfold decodeTelemetry at decoded
  split at decoded
  case h_1 =>
    cases decoded
    exact ⟨finite,fun members same => by contradiction⟩
  case h_2 members =>
    obtain ⟨kept,taken⟩ := foldKeeps telemetrySet finite decoded
    refine ⟨kept,fun others same member mem => ?_⟩
    cases same
    obtain ⟨t,u,-,set⟩ := taken member mem
    exact telemetryKnown set
  case h_3 => contradiction

theorem requestSet {r s : Request Double} {member : String × Value} (formed : Wellformed r)
    (set : setRequest r member = some s) : Wellformed s ∧
      (∃ field ∈ requestFields, foldName member.1 = foldName field) ∧
      (foldName member.1 = foldName "telemetry" → Known telemetryFields member.2) := by
  simp only [setRequest,bind,Option.bind_eq_some_iff] at set
  obtain ⟨field,here,set⟩ := set
  have known := fieldKnown here
  refine and_left_comm.mpr ⟨⟨field,known⟩,?_⟩
  split_ifs at set with tier timestamp
  all_goals
    obtain ⟨x,decoded,same⟩ := Option.bind_eq_some_iff.mp set
    cases same
  · refine ⟨⟨intDecoded formed.tier decoded,formed.timestamp,formed.telemetry⟩,fun folded => ?_⟩
    rw [tier] at known
    exact absurd (known.2.symm.trans folded) (by decide +kernel)
  · refine ⟨⟨formed.tier,intDecoded formed.timestamp decoded,formed.telemetry⟩,fun folded => ?_⟩
    rw [timestamp] at known
    exact absurd (known.2.symm.trans folded) (by decide +kernel)
  · obtain ⟨finite,names⟩ := telemetryAccepted formed.telemetry decoded
    exact ⟨⟨formed.tier,formed.timestamp,finite⟩,fun _ => names⟩

theorem acceptedBodies {body : Text} {req : Request Double} (accepted : decode body = some req) :
    Wellformed req ∧
      ∃ v rest, Json.scanValue (readable body).1.length (readable body).1 = some (v,rest) ∧ Named v := by
  obtain ⟨⟨v,rest⟩,scanned,accepted⟩ := Option.bind_eq_some_iff.mp accepted
  have zero : Wellformed zeroRequest := by
    refine ⟨by decide,by decide,fun key => ⟨0,?_,?_⟩⟩
    · cases key <;> exact Num.zeroFin
    · decide +kernel
  replace accepted := (Option.ite_none_right_eq_some.mp accepted).2
  unfold unmarshal at accepted
  split at accepted
  case h_1 =>
    cases accepted
    exact ⟨zero,_,rest,scanned,fun members same => by contradiction,fun members same => by contradiction⟩
  case h_2 members =>
    obtain ⟨formed,taken⟩ := foldKeeps (fun formed set => (requestSet formed set).1) zero accepted
    have named : ∀ member ∈ members, (∃ field ∈ requestFields, foldName member.1 = foldName field) ∧
        (foldName member.1 = foldName "telemetry" → Known telemetryFields member.2) := by
      intro member mem
      obtain ⟨r,s,formed,set⟩ := taken member mem
      exact (requestSet formed set).2
    refine ⟨formed,_,rest,scanned,fun others same => ?_,fun others same => ?_⟩
    all_goals cases same
    · exact fun member mem => (named member mem).1
    · exact fun member mem => (named member mem).2
  case h_3 => contradiction

theorem firstAccepted : Wellformed (received firstRequest) ∧ ∃ v rest,
    Json.scanValue (readable (posted firstRequest)).1.length (readable (posted firstRequest)).1 = some (v,rest) ∧
      Named v :=
  acceptedBodies (requestDecoded firstHeld)

end Accepted
end MoltenPour.RequestText
