import Mathlib.Tactic

/-! Programs that change a state and may panic, with what a deferred function does
about it: run on the way out, or recover. What was changed before a panic stays. -/
namespace MoltenPour.Panics

abbrev Go (P S A : Type) := ExceptT P (StateM S) A

variable {P S A B : Type}

def Go.outcome (body : Go P S A) (s : S) : Except P A × S := body.run.run s

def caught : Except P Unit × S → Except P (Option P) × S
  | (.ok _,s) => (.ok none,s)
  | (.error v,s) => (.ok (some v),s)

/- recover() in a deferred function: the panic, where there was one. -/
def recovered (body : Go P S Unit) : Go P S (Option P) := ExceptT.mk fun s => caught (body.outcome s)

def deferred (body cleanup : Go P S Unit) : Go P S Unit := do
  match ← recovered body with
  | none => cleanup
  | some v => do
      cleanup
      throw v

variable {body cleanup : Go P S Unit} {s t u : S} {v : P}

theorem bindOk {program : Go P S A} {a : A} (done : program.outcome s = (.ok a,t)) (next : A → Go P S B) :
    (program >>= next).outcome s = (next a).outcome t := by
  have split : (program >>= next).outcome s =
      (fun result => ExceptT.bindCont next result.1 result.2) (program.outcome s) := rfl
  rw [split,done]
  rfl

theorem recoveredOk (done : body.outcome s = (.ok (),t)) : (recovered body).outcome s = (.ok none,t) :=
  congrArg caught done

theorem recoveredError (failed : body.outcome s = (.error v,t)) :
    (recovered body).outcome s = (.ok (some v),t) := congrArg caught failed

theorem deferredOk (done : body.outcome s = (.ok (),t)) :
    (deferred body cleanup).outcome s = cleanup.outcome t := bindOk (recoveredOk done) _

theorem deferredError (failed : body.outcome s = (.error v,t)) (cleaned : cleanup.outcome t = (.ok (),u)) :
    (deferred body cleanup).outcome s = (.error v,u) :=
  (bindOk (recoveredError failed) _).trans (bindOk cleaned _)

theorem forMOk {I : Type} {act : I → Go P S Unit} {effect : I → S → S}
    (each : ∀ i s, (act i).outcome s = (.ok (),effect i s)) (items : List I) (s : S) :
    (items.forM act).outcome s = (.ok (),items.foldl (fun s i => effect i s) s) := by
  induction items generalizing s with
  | nil => rfl
  | cons i rest ih => exact (bindOk (each i s) _).trans (ih (effect i s))

end MoltenPour.Panics
