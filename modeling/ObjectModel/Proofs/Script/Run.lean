import ObjectModel.Proofs.Steps.Evaluation

/-!
A run as one computation after the other. Whatever a program does, the realm that it leaves follows
from the one that it started in.
-/

namespace ObjectModel

namespace Realm

def fresh (r : Realm Script.Session) : Realm Script.Session :=
  { r with client := { r.client with notes := [] } }

end Realm

namespace Script

open Realm

theorem composedCaller_callFunction (functions : Functions) (depth : Nat) :
    ComposedCaller True (callFunction functions (eval functions depth)) := by
  intro name this args r
  have heval (e : Expr) (r : Realm Session) :
      Steps (terms True False) Value.Within (eval functions depth e) r :=
    steps_eval (fun _ _ _ _ => .inl trivial) depth (.inl trivial) r
  have hsteps : Steps (terms True False) Value.Within
      (callFunction functions (eval functions depth) name this args) r :=
    steps_callFunction (fun _ _ e _ => heval e) name this args r nofun
  exact hsteps.composed id composedCaller_barred

namespace Program

variable {aware closed : Prop} {p : Program}

def outcome (p : Program) (e : Expr) : ScriptM Outcome := do
  return .value (← answer (← eval p.functions depthLimit e))

def report (p : Program) (start : Nat) (outcome : Outcome) (r : Realm Session) : Answer where
  outcome := outcome
  notes := r.client.notes
  log := if p.logged then some (logLines r.trace start) else none

theorem runStep_ok {e : Expr} {r r' : Realm Session} {outcome : Outcome}
    (h : p.outcome e r.fresh = .ok outcome r') :
    p.runStep e r = (p.report r.trace.size outcome r', r') := by
  unfold Program.outcome fresh at h
  simp only [runStep, h]
  rfl

theorem runStep_error {e : Expr} {r r' : Realm Session} {failure : Failure}
    (h : p.outcome e r.fresh = .error failure r') :
    p.runStep e r =
      (p.report r.trace.size (.failure failure.kind failure.message?) r', r') := by
  unfold Program.outcome fresh at h
  simp only [runStep, h]
  rfl

theorem runStep_snd (p : Program) (e : Expr) (r : Realm Session) :
    (p.runStep e r).2 = ending (p.outcome e r.fresh) := by
  cases h : p.outcome e r.fresh with
  | ok outcome r' =>
    rw [runStep_ok h]
    rfl
  | error failure r' =>
    rw [runStep_error h]
    rfl

theorem runFrom_append (p : Program) (first second : List Expr) (r : Realm Session) :
    (p.runFrom (first ++ second) r).2 = (p.runFrom second (p.runFrom first r).2).2 := by
  induction first generalizing r with
  | nil => rfl
  | cons e rest ih => exact ih (p.runStep e r).2

theorem steps_outcome (hfunctions : ∀ f ∈ p.functions, ∀ e ∈ f.2, aware ∨ e.Neutral)
    {e : Expr} (he : aware ∨ e.Neutral) (r : Realm Session) :
    Steps (terms aware closed) Plain (p.outcome e) r := by
  unfold outcome
  exact .bind (steps_eval hfunctions depthLimit he _) fun v _ _ _ =>
    .map (steps_answer v _) fun _ _ _ => trivial

theorem composed_outcome (hfunctions : ∀ f ∈ p.functions, ∀ e ∈ f.2, aware ∨ e.Neutral)
    {e : Expr} (he : aware ∨ e.Neutral) (r : Realm Session) :
    Composed aware (p.outcome e) r := by
  have hsteps : Steps (terms aware False) Plain (p.outcome e) r := steps_outcome hfunctions he r
  exact hsteps.composed id composedCaller_barred

theorem runFrom_rel {R : Realm Session → Realm Session → Prop} (refl : ∀ r, R r r)
    (trans : ∀ {r r' r''}, R r r' → R r' r'' → R r r'') (fresh : ∀ r, R r r.fresh)
    (composed : ∀ {m : ScriptM Outcome} {r}, Composed True m r → R r (ending (m r)))
    (p : Program) (steps : List Expr) (r : Realm Session) : R r (p.runFrom steps r).2 := by
  induction steps generalizing r with
  | nil => exact refl r
  | cons e rest ih =>
    have hstep : R r (p.runStep e r).2 := by
      rw [runStep_snd]
      exact trans (fresh r) (composed (composed_outcome (fun _ _ _ _ => .inl trivial)
        (.inl trivial) _))
    exact trans hstep (ih _)

theorem runFrom_follows (p : Program) (steps : List Expr) (r : Realm Session) :
    r.Follows (p.runFrom steps r).2 :=
  p.runFrom_rel Follows.refl Follows.trans (fun _ => Follows.of_eq rfl rfl) Composed.follows
    steps r

theorem run_follows (p : Program) : p.start.Follows p.run.2 :=
  p.runFrom_follows p.steps p.start

end Program

end Script

end ObjectModel
