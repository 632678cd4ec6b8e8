import MoltenPour.Json
import MoltenPour.CarriedAnswers
import MoltenPour.BinaryFormat

/-! The bytes between api/httpapi/server.go and app/pour/api.ts: what writeJSON sends
and what the browser makes of it. The doubles are those of `Rounded 53`, where no
numeral is past the range. -/
namespace MoltenPour.AnswerText
open NumberFormat BinaryFormat Artifact Pour Store Handlers MintDelivery
open JsonTokens (Numeral Escaping)
open Json (Value)

abbrev Double := Rounded 53

/- encoding/json writes HTML's own characters and the two line separators as units. -/
def goEscaping : Escaping where
  coded c := c.toNat < 32 || c = '<' || c = '>' || c = '&' || c.toNat = 0x2028 || c.toNat = 0x2029
  controls c control := by simp [control]
  narrow c coded := by
    simp only [Bool.or_eq_true,decide_eq_true_eq] at coded
    rcases coded with ((((control | rfl) | rfl) | rfl) | separator) | separator
    · omega
    all_goals first | decide | omega

def marshalInt (n : ℤ) : Value := .number (.ofInt n)

def marshalFloat : Num Double → Option Value
  | .fin x => some (.number (.ofRounded 53 x.val))
  | _ => none

def marshalTelemetry (t : Telemetry Double) : Option Value := do
  let dropletsLanded ← marshalFloat t.dropletsLanded
  let peakVelocity ← marshalFloat t.peakVelocity
  let tiltEnergy ← marshalFloat t.tiltEnergy
  let holdMs ← marshalFloat t.holdMs
  some (.object [("dropletsLanded",dropletsLanded),("peakVelocity",peakVelocity),
    ("tiltEnergy",tiltEnergy),("holdMs",holdMs)])

def marshalRecord (r : Record Double) : Option Value := do
  let telemetry ← marshalTelemetry r.telemetry
  let rarityScore ← marshalFloat r.rarityScore
  let massGrams ← marshalFloat r.massGrams
  let violations : Value := match r.violations with
    | none => .null
    | some names => .array (names.map .string)
  some (.object [("id",.string r.id),("ledgerPosition",marshalInt r.ledgerPosition),
    ("tierIndex",marshalInt r.tierIndex),("amountCents",marshalInt r.amountCents),
    ("timestampMs",marshalInt r.timestampMs),("telemetry",telemetry),("violations",violations),
    ("seed",marshalInt r.seed.toNat),("rarity",.string r.rarity.text),("rarityScore",rarityScore),
    ("serial",.string r.serial),("batch",.string r.batch),("massGrams",massGrams),
    ("issued",.string r.issued)])

def marshalBody : Body Double → Option Value
  | .record rec => marshalRecord rec
  | .records recs => (recs.mapM marshalRecord).map .array
  | .error message => some (.object [("error",.string message)])

/- An encoder that fails has written nothing. -/
def writeJSON (body : Body Double) : List Char :=
  match marshalBody body with
  | some v => Json.text goEscaping v ++ ['\n']
  | none => []

structure PourRecord where
  id : String
  ledgerPosition : Num Double
  tierIndex : Num Double
  amountCents : Num Double
  timestampMs : Num Double
  telemetry : Telemetry Double
  violations : List String
  seed : Num Double
  rarity : Rarity
  rarityScore : Num Double
  serial : String
  batch : String
  massGrams : Num Double
  issued : String

def bad (field : String) : ApiError :=
  ⟨.server,0,"The ledger returned a malformed record (" ++ field ++ ")."⟩

/- The last of the members of one name is the object's property. -/
def property (members : List (String × Value)) (name : String) : Option Value :=
  (members.reverse.find? fun member => member.1 = name).map Prod.snd

def stringField (members : List (String × Value)) (field : String) : Except ApiError String :=
  match property members field with
  | some (.string s) => .ok s
  | _ => .error (bad field)

def numberField (members : List (String × Value)) (scope field : String) :
    Except ApiError (Num Double) :=
  match property members field with
  | some (.number n) =>
      if (Num.literal n.value : Num Double).isFinite then .ok (Num.literal n.value)
      else .error (bad (scope ++ field))
  | _ => .error (bad (scope ++ field))

def RARITIES : List Rarity := [.common,.uncommon,.rare,.singular]

def rarityField (members : List (String × Value)) : Except ApiError Rarity :=
  match property members "rarity" with
  | some (.string s) =>
      match RARITIES.find? fun r => r.text = s with
      | some r => .ok r
      | none => .error (bad "rarity")
  | _ => .error (bad "rarity")

def violationOf : Value → Option String
  | .string s => some s
  | _ => none

def violationsField (members : List (String × Value)) : Except ApiError (List String) :=
  match property members "violations" with
  | some (.array items) =>
      match items.mapM violationOf with
      | some names => .ok names
      | none => .error (bad "violations")
  | _ => .error (bad "violations")

def objectField (members : List (String × Value)) (field : String) :
    Except ApiError (List (String × Value)) :=
  match property members field with
  | some (.object t) => .ok t
  | _ => .error (bad field)

def assertPourRecord : Value → Except ApiError PourRecord
  | .object x => do
      let id ← stringField x "id"
      let serial ← stringField x "serial"
      let batch ← stringField x "batch"
      let issued ← stringField x "issued"
      let ledgerPosition ← numberField x "" "ledgerPosition"
      let tierIndex ← numberField x "" "tierIndex"
      let amountCents ← numberField x "" "amountCents"
      let timestampMs ← numberField x "" "timestampMs"
      let seed ← numberField x "" "seed"
      let rarityScore ← numberField x "" "rarityScore"
      let massGrams ← numberField x "" "massGrams"
      let rarity ← rarityField x
      let violations ← violationsField x
      let t ← objectField x "telemetry"
      let dropletsLanded ← numberField t "telemetry." "dropletsLanded"
      let peakVelocity ← numberField t "telemetry." "peakVelocity"
      let tiltEnergy ← numberField t "telemetry." "tiltEnergy"
      let holdMs ← numberField t "telemetry." "holdMs"
      .ok { id,serial,batch,issued,ledgerPosition,tierIndex,amountCents,timestampMs,seed,rarityScore,
            massGrams,rarity,violations
            telemetry := ⟨dropletsLanded,peakVelocity,tiltEnergy,holdMs⟩ }
  | _ => .error (bad "record")

def jsonBody (status : ℕ) (text : List Char) : Except ApiError Value :=
  match Json.parse text with
  | some v => .ok v
  | none => .error ⟨.server,status,"The ledger returned an unreadable answer."⟩

def readRecord (status : ℕ) (text : List Char) : Except ApiError PourRecord := do
  let record ← jsonBody status text
  assertPourRecord record

def readRecords (status : ℕ) (text : List Char) : Except ApiError (List PourRecord) := do
  let list ← jsonBody status text
  match list with
  | .array items => items.mapM assertPourRecord
  | _ => .error ⟨.server,0,"The ledger returned a malformed listing."⟩

def serverMessage (text : List Char) : Option String :=
  match Json.parse text with
  | some (.object members) =>
      match property members "error" with
      | some (.string message) => if message = "" then none else some message
      | _ => none
  | _ => none

def failureFor (status : ℕ) (text : List Char) : ApiError :=
  let code := if status = 409 then .conflict else if status ≥ 500 then .server else .client
  ⟨code,status,(serverMessage text).getD (FALLBACK code)⟩

def shown (r : Record Double) : PourRecord where
  id := r.id
  ledgerPosition := (r.ledgerPosition : ℤ)
  tierIndex := r.tierIndex
  amountCents := r.amountCents
  timestampMs := r.timestampMs
  telemetry := r.telemetry
  violations := r.violations.getD []
  seed := (r.seed.toNat : ℤ)
  rarity := r.rarity
  rarityScore := r.rarityScore
  serial := r.serial
  batch := r.batch
  massGrams := r.massGrams
  issued := r.issued

section Record

theorem floatRead (x : Double) :
    (Num.literal (Numeral.ofRounded 53 x.val).value : Num Double) = .fin x :=
  congrArg Num.fin (Rounded.ext (JsonTokens.roundedReads (NeZero.pos 53) x.fits))

theorem finiteFloat {x : Num Double} (finite : x.isFinite = true) :
    ∃ n : Numeral, marshalFloat x = some (.number n) ∧ (Num.literal n.value : Num Double) = x := by
  obtain ⟨value,rfl⟩ := Num.finiteExists finite
  exact ⟨_,rfl,floatRead value⟩

theorem violationsRead (names : List String) : (names.map Value.string).mapM violationOf = some names := by
  induction names with
  | nil => rfl
  | cons name rest ih => simp [List.mapM_cons,violationOf,ih]

theorem rarityRead (r : Rarity) :
    RARITIES.find? (fun other => other.text = r.text) = some r := by
  cases r <;> decide

theorem recordRead {r : Record Double} (certified : Certified r) :
    ∃ v, marshalRecord r = some v ∧ assertPourRecord v = .ok (shown r) := by
  obtain ⟨names,listed⟩ := Option.ne_none_iff_exists'.mp certified.violations
  obtain ⟨drops,someDrops,readDrops⟩ := finiteFloat certified.telemetry.droplets
  obtain ⟨speed,someSpeed,readSpeed⟩ := finiteFloat certified.telemetry.velocity
  obtain ⟨tilt,someTilt,readTilt⟩ := finiteFloat certified.telemetry.tilt
  obtain ⟨hold,someHold,readHold⟩ := finiteFloat certified.telemetry.holdFinite
  obtain ⟨score,someScore,readScore⟩ := finiteFloat certified.score
  obtain ⟨mass,someMass,readMass⟩ := finiteFloat certified.mass
  have telemetry : marshalTelemetry r.telemetry = some (.object [("dropletsLanded",.number drops),
      ("peakVelocity",.number speed),("tiltEnergy",.number tilt),("holdMs",.number hold)]) := by
    simp only [marshalTelemetry,someDrops,someSpeed,someTilt,someHold,bind,Option.bind]
  refine ⟨_,by simp only [marshalRecord,telemetry,someScore,someMass,listed,bind,Option.bind]; rfl,?_⟩
  simp only [assertPourRecord,stringField,numberField,rarityField,violationsField,objectField,property,marshalInt,
    List.reverse_cons,List.reverse_nil,List.nil_append,List.cons_append,List.find?_cons,String.reduceEq,decide_false,
    decide_true,Option.map_some,violationsRead,rarityRead,Num.literalFinite,if_true,bind,Except.bind]
  simp only [shown,listed,Option.getD_some,JsonTokens.ofIntValue,readDrops,readSpeed,readTilt,readHold,readScore,
    readMass]
  rfl

end Record

section Answer

theorem parseWritten {body : Body Double} {v : Value} (made : marshalBody body = some v) :
    Json.parse (writeJSON body) = some v := by
  rw [writeJSON,made]
  exact Json.parseText goEscaping v rfl

structure Heard (res : Response Double) : Prop where
  record : ∀ rec, res.body = .record rec → readRecord res.status (writeJSON res.body) = .ok (shown rec)
  records : ∀ recs, res.body = .records recs →
    readRecords res.status (writeJSON res.body) = .ok (recs.map shown)
  failure : failureFor res.status (writeJSON res.body) = MintDelivery.failureFor res

theorem recordsRead {recs : List (Record Double)} (certified : ∀ r ∈ recs, Certified r) :
    ∃ items, recs.mapM marshalRecord = some items ∧ items.mapM assertPourRecord = .ok (recs.map shown) := by
  induction recs with
  | nil => exact ⟨[],rfl,rfl⟩
  | cons r rest ih =>
    obtain ⟨items,made,read⟩ := ih fun s mem => certified s (List.mem_cons_of_mem r mem)
    obtain ⟨v,first,same⟩ := recordRead (certified r List.mem_cons_self)
    refine ⟨v::items,by simp [List.mapM_cons,first,made],?_⟩
    simp only [List.mapM_cons,same,read,bind,Except.bind,List.map_cons]
    rfl

theorem recordSilent {r : Record Double} {v : Value} (made : marshalRecord r = some v) :
    ∃ members, v = .object members ∧ property members "error" = none := by
  simp only [marshalRecord,bind,Option.bind_eq_some_iff] at made
  obtain ⟨telemetry,-,score,-,mass,-,made⟩ := made
  cases made
  refine ⟨_,rfl,?_⟩
  simp [property]

theorem messageRead (res : Response Double) :
    serverMessage (writeJSON res.body) = MintDelivery.serverMessage res := by
  obtain ⟨status,cookie,retry,body⟩ := res
  cases body with
  | error message =>
    rw [serverMessage,parseWritten rfl]
    simp [property,MintDelivery.serverMessage]
  | record rec =>
    cases made : marshalBody (.record rec) with
    | none => simp [writeJSON,made,serverMessage,MintDelivery.serverMessage]; rfl
    | some v =>
      obtain ⟨members,rfl,silent⟩ := recordSilent made
      simp [serverMessage,parseWritten made,silent,MintDelivery.serverMessage]
  | records recs =>
    cases made : marshalBody (.records recs) with
    | none => simp [writeJSON,made,serverMessage,MintDelivery.serverMessage]; rfl
    | some v =>
      obtain ⟨items,-,rfl⟩ := Option.map_eq_some_iff.mp made
      simp [serverMessage,parseWritten made,MintDelivery.serverMessage]

example : String.ofList (writeJSON (.error "1 < 2")) = "\x7b\"error\":\"1 \\u003c 2\"\x7d\n" := by
  decide +kernel

theorem certifiedHeard {res : Response Double} (certified : ∀ rec ∈ res.records, Certified rec) : Heard res := by
  refine ⟨?record,?records,?failure⟩
  case record =>
    intro rec body
    obtain ⟨v,made,read⟩ := recordRead (certified rec (by simp [Response.records,body]))
    rw [body,readRecord,jsonBody,parseWritten (show marshalBody (.record rec) = some v from made)]
    exact read
  case records =>
    intro recs body
    have listed : ∀ rec ∈ recs, Certified rec := fun rec mem =>
      certified rec (by simpa [Response.records,body] using mem)
    obtain ⟨items,made,read⟩ := recordsRead listed
    have encoded : marshalBody (.records recs) = some (.array items) := by simp [marshalBody,made]
    rw [body,readRecords,jsonBody,parseWritten encoded]
    exact read
  case failure => rw [failureFor,MintDelivery.failureFor,messageRead]

end Answer

open CarriedAnswers MintedRecords

theorem everyAnswerHeard (kind : LedgerDurability.StoreKind) (cfg : Config) (jar : ℕ → Option String)
    (events : List (Event Double)) :
    let w := reach (kind.backend (K := Double)) cfg jar events
    (∀ a ∈ w.answers, Heard a.res) ∧
      ∀ n call res, w.calls n = some call → call.progress = .resolved res → Heard res := by
  intro w
  obtain ⟨agrees,refines,shelf,only⟩ := LedgerDurability.kindHolds (K := Double) kind
  have sound := refines.sound (@reachRecords Double _ _ _ _ cfg _ refines jar events)
  have vouched := @reachVouched Double _ _ _ cfg _ _ refines shelf only jar events
  have heard : ∀ {browser ask res}, Vouched cfg.sign w browser ask res → Heard res := fun good =>
    certifiedHeard fun rec mem => sound.certified rec (good.stored rec mem)
  refine ⟨fun a mem => ?_,fun n call res made resolved => heard (vouched.resolved n call res made resolved)⟩
  obtain ⟨call,-,-,good⟩ := vouched.answers a mem
  exact heard good

end MoltenPour.AnswerText
