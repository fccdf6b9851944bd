import ObjectModel.Proofs.Realm.Noting
import ObjectModel.Proofs.Script.Run

/-!
The descriptors that stand for properties in runs. They are what the properties have after every
step, and after the evaluation of every expression in between.
-/

namespace ObjectModel

namespace Realm

variable {σ α : Type}

def Noting (m : RealmM σ α) : Prop :=
  ∀ r : Realm σ, r.Noted → (ending (m r)).Noted

theorem Noting.of_steps {T : Terms σ} {P : Nat → α → Prop} {m : RealmM σ α} (hopen : ¬ T.closed)
    (hcall : ∀ name this args, Noting (T.call name this args)) (h : ∀ r, Steps T P m r) :
    Noting m :=
  fun r hr => (h r).noted hopen hcall hr

theorem noting_barred (name : String) (this : Value) (args : List Value) :
    Noting (σ := σ) (barred name this args) :=
  fun _ hr => hr

end Realm

namespace Script

open Realm

theorem noting_eval {functions : Functions} (depth : Nat) (e : Expr) :
    Noting (eval functions depth e) := by
  have hsteps (r : Realm Session) :
      Steps (terms True False) Value.Within (eval functions depth e) r :=
    steps_eval (fun _ _ _ _ => .inl trivial) depth (.inl trivial) r
  exact .of_steps id noting_barred hsteps

namespace Program

theorem noting_outcome (p : Program) (e : Expr) : Noting (p.outcome e) := by
  have hsteps (r : Realm Session) : Steps (terms True False) Plain (p.outcome e) r :=
    steps_outcome (fun _ _ _ _ => .inl trivial) (.inl trivial) r
  exact .of_steps id noting_barred hsteps

theorem noted_runFrom (p : Program) (steps : List Expr) {r : Realm Session} (hr : r.Noted) :
    (p.runFrom steps r).2.Noted := by
  induction steps generalizing r with
  | nil => exact hr
  | cons e rest ih =>
    have hstep : (p.runStep e r).2.Noted := by
      rw [runStep_snd]
      exact p.noting_outcome e r.fresh hr
    exact ih hstep

theorem noted_start (p : Program) : p.start.Noted :=
  nofun

end Program

end Script

end ObjectModel
