import MoltenPour.MemoryLedger
import MoltenPour.SqliteLedger

/-! The memory store and the SQLite store are one ledger: both refine the same
list of records, so they answer every sequence of operations alike. -/
namespace MoltenPour.StoreAgreement
open NumberFormat Pour KeyedLog Store Runs MemoryLedger SqliteLedger
variable {K : Type} [LinearOrder K] [Zero K] [Format K]

theorem ledgerAnswers {B : Backend K} {agrees : B.State → List (Record K) → Prop}
    (refines : Refines B agrees) (ops : List (Op K)) :
    answers (B.serve noFaults) B.empty ops = answers ledger [] ops :=
  answersEqual (fun {op _ _} agreed => refines.serve op agreed) ops refines.start

structure Shown (answer : Answer K) : Prop where
  violations : ∀ r ∈ answer.records, r.violations ≠ none
  newestFirst : answer.records.Pairwise fun a b => b.ledgerPosition < a.ledgerPosition

omit [LinearOrder K] [Zero K] [Format K] in
theorem shownOne {answer : Answer K} {r : Record K} (one : answer.records = [r])
    (violations : r.violations ≠ none) : Shown answer := by
  constructor
  · rw [one]
    simpa using violations
  · rw [one]
    exact List.pairwise_singleton ..

omit [LinearOrder K] [Zero K] [Format K] in
theorem shownFailed (err : PourError) : Shown (.failed err : Answer K) := by
  constructor
  · simp [Answer.records]
  · exact List.Pairwise.nil

theorem ledgerShown {log : List (Record K)} (sound : Sound log) (op : Op K) :
    Shown (ledger op log).1 := by
  cases op with
  | append posted =>
    simp only [ledger]
    generalize done : append log posted.call = result
    obtain ⟨o,log'⟩ := result
    cases appendCases done with
    | fresh free made => exact shownOne rfl (mintCertified made).violations
    | replay stored => exact shownOne rfl (sound.certified _ stored).violations
    | conflict => exact shownFailed .conflict
    | refused => exact shownFailed _
  | get id ownerId =>
    simp only [ledger]
    cases found : log.find? fun r => r.id = id ∧ r.ownerId = ownerId with
    | none => exact shownFailed .notFound
    | some r =>
      exact shownOne rfl (sound.certified r (List.mem_of_find?_eq_some found)).violations
  | list ownerId =>
    constructor
    · intro r mem
      exact (sound.certified r (List.mem_of_mem_filter (List.mem_reverse.mp mem))).violations
    · exact List.pairwise_reverse.mpr ((placesIncrease sound.kept).filter _)

theorem storesAgree (json : Codec) (ops : List (Op K)) :
    answers (memory.serve noFaults) memory.empty ops =
      answers ((sqlite json).serve noFaults) (sqlite json).empty ops ∧
    ∀ answer ∈ answers (memory.serve noFaults) memory.empty ops,
      (∀ r ∈ answer.records, r.violations ≠ none) ∧
      answer.records.Pairwise fun a b => b.ledgerPosition < a.ledgerPosition := by
  have left := ledgerAnswers (memoryRefines (K := K)) ops
  have right := ledgerAnswers (sqliteRefines json) ops
  refine ⟨left.trans right.symm,?_⟩
  rw [left]
  have shown : ∀ answer ∈ answers ledger ([] : List (Record K)) ops, Shown answer :=
    answersAll (fun {op _} sound => ⟨ledgerShown sound op,soundServe sound op⟩) ops soundEmpty
  exact fun answer mem => ⟨(shown answer mem).violations,(shown answer mem).newestFirst⟩

end MoltenPour.StoreAgreement
