import MoltenPour.DeliverySteps
import MoltenPour.LedgerDurability

/-! The ledger behind the network: it holds the records that were minted, in the
order their requests were handled, and a handled request is all that moves it. -/
namespace MoltenPour.MintedRecords
open NumberFormat Pour KeyedLog Store Session Handlers MintDelivery DeliverySteps

variable {K : Type} [LinearOrder K] [Zero K] [Format K] {B : Backend K} {cfg : Config}

def records (w : World B) : List (Record K) := w.minted.map Prod.snd

def ofPour (browser : ℕ) (timestampMs : ℤ) (taken : ℕ × Record K) : Bool :=
  taken.1 = browser ∧ taken.2.timestampMs = timestampMs

inductive Booked (cfg : Config) (w : World B) : Event K → World B → Prop where
  | idle {event t} (ledger : t.ledger = w.ledger) (minted : t.minted = w.minted)
      (other : ∀ place visit, event ≠ .handle place visit) : Booked cfg w event t
  | missing {place visit} (nothing : w.requests[place]? = none) :
      Booked cfg w (.handle place visit) w
  | handled {place visit m} (here : w.requests[place]? = some m) :
      Booked cfg w (.handle place visit) (w.handle cfg place m visit)

theorem stepBooked (w : World B) (event : Event K) : Booked cfg w event (step cfg w event) := by
  generalize after : step cfg w event = t
  have moved : Moved cfg w event t := after ▸ stepMoved w event
  cases moved with
  | idle nothing nobody =>
    cases event with
    | handle place visit => exact .missing (nobody place visit rfl)
    | _ => exact .idle rfl rfl (by simp)
  | handled here => exact .handled here
  | _ => exact .idle rfl rfl (by simp)

section Handling
variable {w : World B} {place : ℕ} {m : Sent K} {visit : Visit}

theorem handledLog {s : B.State} {log log' : List (Record K)} {ask : Ask K} {cookie : Option String}
    {minted : Option (Record K)} (handled : Handled B cfg visit cookie ask s log minted log') :
    log' = log ++ minted.toList := by
  cases handled with
  | fresh => rfl
  | quiet => exact (List.append_nil log).symm

theorem handleRecords : records (w.handle cfg place m visit) =
    records w ++ (handle B cfg visit m.cookie m.ask w.ledger).1.minted.toList := by
  unfold records World.handle
  dsimp only
  generalize (handle B cfg visit m.cookie m.ask w.ledger).1.minted = minted
  cases minted <;> simp

end Handling

section Growing
variable {w t : World B} {event : Event K}

theorem recordsPrefix (moved : Moved cfg w event t) : records w <+: records t := by
  cases moved with
  | handled here =>
    rw [handleRecords]
    exact List.prefix_append _ _
  | _ => exact List.prefix_rfl

theorem recordsKept (moved : Moved cfg w event t) {rec : Record K} (stored : rec ∈ records w) :
    rec ∈ records t := (recordsPrefix moved).subset stored

theorem recordsStay {rec : Record K} (stored : rec ∈ records w) (events : List (Event K)) :
    rec ∈ records (events.foldl (step cfg) w) := by
  induction events generalizing w with
  | nil => exact stored
  | cons event rest ih => exact ih (recordsKept (stepMoved w event) stored)

end Growing

section Ledger
variable {agrees : B.State → List (Record K) → Prop} (refines : Refines B agrees)
include refines

theorem stepRecords {w : World B} (agreed : agrees w.ledger (records w)) {event : Event K} :
    agrees (step cfg w event).ledger (records (step cfg w event)) := by
  generalize after : step cfg w event = t
  have booked : Booked cfg w event t := after ▸ stepBooked w event
  cases booked with
  | idle ledger minted =>
    rw [records,ledger,minted]
    exact agreed
  | missing => exact agreed
  | handled here =>
    obtain ⟨log,handled,next⟩ := handleStep refines agreed cfg _ _ _
    rw [handleRecords,← handledLog handled]
    exact next

theorem reachRecords (jar : ℕ → Option String) (events : List (Event K)) :
    agrees (reach B cfg jar events).ledger (records (reach B cfg jar events)) := by
  induction events using List.reverseRecOn with
  | nil => exact refines.start
  | append_singleton seen event ih =>
    rw [reach,List.foldl_append]
    exact stepRecords refines ih

theorem recordsListed {w : World B} (agreed : agrees w.ledger (records w)) (ownerId : String) :
    B.list noFaults ownerId w.ledger =
      .ok ((records w).filter fun r => r.ownerId = ownerId).reverse := by
  have answer := (refines.serve (.list ownerId) agreed).1
  simp only [Backend.serve,ledger] at answer
  cases listed : B.list noFaults ownerId w.ledger with
  | error err => simp [listed,listedOf] at answer
  | ok recs =>
    rw [listed] at answer
    exact congrArg Except.ok (Answer.listed.inj answer)

end Ledger
end MoltenPour.MintedRecords
