import ObjectModel.Proofs.Operation
import ObjectModel.Script.Program

/-!
Programs in which no operation is about the strictness of the realm.
-/

namespace ObjectModel.Script

def Expr.parts : Expr → List Expr
  | .literal _ | .float _ | .variable _ | .this | .arg _ => []
  | .list items => items
  | .dict entries => entries.flatMap fun (key, value) => [key, value]
  | .valueDescriptor a? b? c? d? | .accessor a? b? c? d? =>
    a?.toList ++ b?.toList ++ c?.toList ++ d?.toList
  | .operation op => op.operands
  | .note e | .bind _ e => [e]
  | .cond test thenBody elseBody => test :: thenBody ++ elseBody
  | .attempt body => body

inductive Expr.Neutral : Expr → Prop
  | intro {e : Expr} (op : ∀ op, e = .operation op → op.neutral)
    (parts : ∀ part ∈ e.parts, Neutral part) : Neutral e

def Expr.checkNeutral : Nat → Expr → Bool
  | 0, _ => false
  | depth + 1, e =>
    (match e with
      | .operation op => op.neutral
      | _ => true) && e.parts.all (checkNeutral depth)

theorem Expr.neutral_of_checkNeutral {depth : Nat} {e : Expr} (h : e.checkNeutral depth) :
    e.Neutral := by
  induction depth generalizing e with
  | zero => cases h
  | succ depth ih =>
    unfold checkNeutral at h
    rw [Bool.and_eq_true, List.all_eq_true] at h
    refine .intro ?_ fun part hpart => ih (h.2 part hpart)
    rintro op rfl
    exact h.1

structure Program.Neutral (p : Program) : Prop where
  steps : ∀ e ∈ p.steps, e.Neutral
  functions : ∀ f ∈ p.functions, ∀ e ∈ f.2, e.Neutral

theorem Program.neutral_of_checkNeutral {p : Program} {depth : Nat}
    (hsteps : p.steps.all (Expr.checkNeutral depth))
    (hfunctions : p.functions.all fun f => f.2.all (Expr.checkNeutral depth)) : p.Neutral := by
  simp only [List.all_eq_true] at hsteps hfunctions
  constructor
  · intro e he
    exact Expr.neutral_of_checkNeutral (hsteps e he)
  · intro f hf e he
    exact Expr.neutral_of_checkNeutral (hfunctions f hf e he)

end ObjectModel.Script
