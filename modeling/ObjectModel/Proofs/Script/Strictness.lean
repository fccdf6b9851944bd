import ObjectModel.Proofs.Realm.Strictness
import ObjectModel.Proofs.Script.Run

/-!
Strictness is conservative: where nothing was passed over without it, it changes nothing.
-/

namespace ObjectModel.Script.Program

open Realm

variable {p : Program} {r : Realm Session}

theorem Neutral.composed_outcome (hneutral : p.Neutral) {e : Expr} (he : e.Neutral)
    (r : Realm Session) : Composed False (p.outcome e) r :=
  Program.composed_outcome (fun f hf e he => .inr (hneutral.functions f hf e he)) (.inr he) r

theorem runStep_strict (hneutral : p.Neutral) {e : Expr} (he : e.Neutral) :
    (p.runStep e r).2.strict = r.strict := by
  rw [runStep_snd]
  exact (hneutral.composed_outcome he r.fresh).strict_eq

theorem runStep_strictly (hneutral : p.Neutral) {e : Expr} (he : e.Neutral)
    (hstrict : r.strict = .bool false) (hmark : ¬ (p.runStep e r).2.Marked) :
    p.runStep e r.strictly = ((p.runStep e r).1, (p.runStep e r).2.strictly) := by
  rw [runStep_snd] at hmark
  have hfresh : r.strictly.fresh = r.fresh.strictly := rfl
  have houtcome := (hneutral.composed_outcome he r.fresh).strictly hstrict hmark
  rw [← hfresh] at houtcome
  cases h : p.outcome e r.fresh with
  | ok outcome r' =>
    rw [h] at houtcome
    rw [runStep_ok houtcome, runStep_ok h]
    rfl
  | error failure r' =>
    rw [h] at houtcome
    rw [runStep_error houtcome, runStep_error h]
    rfl

theorem runFrom_strictly (hneutral : p.Neutral) {steps : List Expr}
    (hsteps : ∀ e ∈ steps, e.Neutral) (hstrict : r.strict = .bool false)
    (hmark : ¬ (p.runFrom steps r).2.Marked) :
    p.runFrom steps r.strictly = ((p.runFrom steps r).1, (p.runFrom steps r).2.strictly) := by
  induction steps generalizing r with
  | nil => rfl
  | cons e rest ih =>
    rw [List.forall_mem_cons] at hsteps
    have hmark' : ¬ (p.runStep e r).2.Marked :=
      fun h => hmark ((p.runFrom_follows rest _).marked h)
    have hstrict' : (p.runStep e r).2.strict = .bool false := by
      rw [runStep_strict hneutral hsteps.1, hstrict]
    have hrest := ih hsteps.2 hstrict' hmark
    simp only [runFrom, runStep_strictly hneutral hsteps.1 hstrict hmark', hrest]

theorem runFrom_withStrict (p : Program) (strict : Bool) (steps : List Expr) (r : Realm Session) :
    { p with strict }.runFrom steps r = p.runFrom steps r := by
  induction steps generalizing r with
  | nil => rfl
  | cons e rest ih =>
    have hstep : { p with strict }.runStep e r = p.runStep e r := rfl
    simp only [runFrom, hstep, ih]

/--
If a program that is not about strictness passes over no refusal in a realm that is not strict, it
gives the same answers in a strict one and leaves the same realm, but for the strictness.
-/
theorem run_strictly (hneutral : p.Neutral) (hstrict : p.strict = false)
    (hmark : ¬ p.run.2.Marked) :
    { p with strict := true }.run.1 = p.run.1 ∧
      { p with strict := true }.run.2 = p.run.2.strictly := by
  have hstart : p.start.strict = .bool false := congrArg Value.bool hstrict
  have hrun : { p with strict := true }.run = p.runFrom p.steps p.start.strictly :=
    p.runFrom_withStrict true p.steps p.start.strictly
  rw [hrun, runFrom_strictly hneutral hneutral.steps hstart hmark]
  exact ⟨rfl, rfl⟩

def storing : Program where
  steps := [
    .bind "proto" (.operation (.createObject none)),
    .operation (.defineOwn (.variable "proto") (.literal (.str "x"))
      (.accessor none (some (.literal (.function "store"))) none none)),
    .bind "o" (.operation (.createObject (some (.variable "proto")))),
    .operation (.set (.variable "o") (.literal (.str "x")) (.literal (.int 1)) none),
    .operation (.delete (.variable "o") (.literal (.str "kept")))]
  functions := [
    ("store", [.operation (.set .this (.literal (.str "kept")) (.arg 0) none)])]
  logged := true

theorem run_strictly_storing :
    storing.Neutral ∧ storing.strict = false ∧ ¬ storing.run.2.Marked ∧
      { storing with strict := true }.run.1 = storing.run.1 ∧
      { storing with strict := true }.run.2 = storing.run.2.strictly := by
  have hsteps : storing.steps.all (Expr.checkNeutral 3) := by decide
  have hfunctions : storing.functions.all fun f => f.2.all (Expr.checkNeutral 3) := by decide
  have hneutral : storing.Neutral := neutral_of_checkNeutral hsteps hfunctions
  have hmark : ¬ storing.run.2.Marked := by decide +kernel
  exact ⟨hneutral, rfl, hmark, run_strictly hneutral rfl hmark⟩

end ObjectModel.Script.Program
