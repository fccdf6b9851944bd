import ObjectModel.Proofs.Script.Neutral
import ObjectModel.Proofs.Script.Session
import ObjectModel.Proofs.Steps.Laws
import ObjectModel.Proofs.Steps.Operations

/-!
The evaluation of expressions, at whatever depth and whatever functions they call.
-/

namespace ObjectModel

namespace Realm

variable {σ α β : Type} {T : Terms σ} {Q : Nat → β → Prop}

theorem steps_mapOperation {f : α → RealmM σ Value} {op : Operation α}
    {k : Operation Value → RealmM σ β}
    (hf : ∀ a ∈ op.operands, ∀ r, Steps T Value.Within (f a) r)
    (hk : ∀ op' : Operation Value, op'.neutral = op.neutral → ∀ r : Realm σ,
      (T.closed → ∀ v ∈ op'.operands, v.Within r.heap.size) → Steps T Q (k op') r)
    (r : Realm σ) : Steps T Q (op.mapM f >>= k) r := by
  have hoption (a? : Option α) (ha : ∀ a ∈ a?, a ∈ op.operands) (r : Realm σ) :
      Steps T (fun n v? => ∀ v ∈ v?.toList, v.Within n) (a?.mapM f) r :=
    .weaken (.optionMapM fun a h => hf a (ha a h) r) fun _ _ h v hv =>
      h v (Option.mem_toList.1 hv)
  cases op <;> simp only [Operation.mapM, bind_assoc, pure_bind]
  all_goals
    repeat'
      first
      | refine hk _ rfl _ fun hT v hv => ?_
      | refine .bind (hf _ (by simp [Operation.operands]) _) fun _ _ _ _ => ?_
      | refine .bind (hoption _ (fun a ha => ?_) _) fun _ _ _ _ => ?_
        rw [Option.mem_def] at ha
        simp [Operation.operands, ha]
      | refine .bind (.mapM (Q := Value.Within) Value.Within.mono fun a ha r _ => hf a ?_ r)
          fun _ _ _ _ => ?_
        simp [Operation.operands, ha]
  all_goals
    simp only [Operation.operands, List.mem_append, List.mem_cons] at hv
    grind [Value.Within.mono]

end Realm

namespace Script

open Realm

variable {aware closed : Prop} {functions : Functions} {recur : Expr → ScriptM Value}

def terms (aware closed : Prop) : Terms Session :=
  { call := barred, aware, closed, kept := Session.Within }

theorem steps_answer (v : Value) (r : Realm Session) :
    Steps (terms aware closed) Plain (answer v) r := by
  refine .client (f := fun r : Realm Session =>
    let shown := present r.heap r.pool v { objects := r.client.numbered }
    (shown.1, { r.client with numbered := shown.2.objects })) (fun _ => rfl) fun _ => ?_
  exact ⟨trivial, fun n _ hs => ⟨hs.globals, hs.frame⟩⟩

theorem steps_modifyClient {f : Session → Session} {r : Realm Session}
    (hf : closed → ∀ n, r.heap.size ≤ n → r.client.Within n → (f r.client).Within n) :
    Steps (terms aware closed) Plain (modify fun r => { r with client := f r.client }) r :=
  .client (f := fun r : Realm Session => ((), f r.client)) (fun _ => rfl)
    fun hT => ⟨trivial, hf hT⟩

theorem steps_inFrame {frame : Frame} {body : ScriptM Value} {r : Realm Session}
    (hframe : closed → frame.Within r.heap.size)
    (hbody : ∀ r, Steps (terms aware closed) Value.Within body r) :
    Steps (terms aware closed) Value.Within (inFrame frame body) r := by
  have h : inFrame frame body = within (fun s => { s with frame := some frame })
      (fun s s' => { s' with frame := s.frame }) body := by
    funext r
    unfold inFrame within
    cases body { r with client := { r.client with frame := some frame } } <;> rfl
  rw [h]
  refine .within (hbody _) (fun _ => trivial) (fun hT n hn hs => ⟨hs.globals, ?_⟩)
    fun _ n s hs hs' => ⟨hs'.globals, hs.frame⟩
  rintro _ ⟨⟩
  exact (hframe hT).mono hn

theorem steps_evalBody {body : List Expr}
    (hbody : ∀ e ∈ body, ∀ r, Steps (terms aware closed) Value.Within (recur e) r)
    (r : Realm Session) : Steps (terms aware closed) Value.Within (evalBody recur body) r := by
  induction body generalizing r with
  | nil => exact .pure fun _ => trivial
  | cons e rest ih =>
    rw [List.forall_mem_cons] at hbody
    cases rest with
    | nil => exact hbody.1 r
    | cons e' rest => exact .bind (hbody.1 r) fun _ r' _ _ => ih hbody.2 r'

theorem steps_evalFlag {e? : Option Expr}
    (he : ∀ e ∈ e?, ∀ r, Steps (terms aware closed) Value.Within (recur e) r)
    (r : Realm Session) :
    Steps (terms aware closed) (fun n flag => flag.value.Within n) (evalFlag recur e?) r := by
  cases e? with
  | none => exact .pure fun _ => trivial
  | some e => exact .bind (he e rfl r) fun _ _ _ hv => .get (fun hT => (hv hT).2) fun _ => rfl

theorem steps_callFunction
    (hfunctions : ∀ f ∈ functions, ∀ e ∈ f.2, ∀ r,
      Steps (terms aware closed) Value.Within (recur e) r)
    (name : String) (this : Value) (args : List Value) (r : Realm Session)
    (hin : closed → this.Within r.heap.size ∧ ∀ v ∈ args, v.Within r.heap.size) :
    Steps (terms aware closed) Value.Within (callFunction functions recur name this args) r := by
  unfold callFunction
  split
  · next body hbody =>
    refine steps_inFrame (fun hT => ?_) fun r => steps_evalBody ?_ r
    · exact ⟨(hin hT).1, (hin hT).2, List.forall_mem_nil _⟩
    · obtain ⟨before, after, rfl, -⟩ := List.lookup_eq_some_iff.mp hbody
      exact hfunctions (name, body) (List.mem_append_right _ List.mem_cons_self)
  · exact .throw trivial _

theorem steps_step {e : Expr}
    (hparts : ∀ part ∈ e.parts, ∀ r, Steps (terms aware closed) Value.Within (recur part) r)
    (hop : ∀ op, e = .operation op → aware ∨ op.neutral)
    (hcall : ∀ name this args (r : Realm Session),
      (closed → this.Within r.heap.size ∧ ∀ v ∈ args, v.Within r.heap.size) →
      Steps (terms aware closed) Value.Within (callFunction functions recur name this args) r)
    (r : Realm Session) :
    Steps (terms aware closed) Value.Within (step functions recur e) r := by
  cases e with
  | literal l => cases l <;> exact .pure fun _ => trivial
  | float x => exact steps_newFloat trivial x
  | list items =>
    refine .bind (.mapM (Q := Value.Within) Value.Within.mono fun e he r _ => hparts e he r)
      fun vs r₁ _ h₁ => ?_
    exact steps_newList trivial fun hT => (h₁ hT).2
  | dict entries =>
    refine .bind (.mapM (Q := fun n (entry : Value × Value) =>
      entry.1.Within n ∧ entry.2.Within n) (fun h hle => ⟨h.1.mono hle, h.2.mono hle⟩)
      fun entry hentry r _ => ?_) fun entries r₁ _ h₁ => ?_
    · have hmem : ∀ part ∈ [entry.1, entry.2], part ∈ (Expr.dict entries).parts :=
        fun part hpart => List.mem_flatMap.mpr ⟨entry, hentry, hpart⟩
      refine .bind (hparts _ (hmem _ (by simp)) _) fun key r₁ _ h₁ => ?_
      refine .bind (hparts _ (hmem _ (by simp)) _) fun value r₂ _ h₂ => ?_
      refine .inspect' ?_ fun _ => rfl
      split
      · exact .pure fun hT => ⟨(h₁ hT).2.mono (h₂ hT).1, (h₂ hT).2⟩
      · exact .throw trivial _
    · refine .bind (steps_newDict trivial) fun id r₂ _ h₂ => ?_
      refine .inspect' ?_ fun _ => rfl
      refine .map (steps_fillDict trivial _ fun hT => Pool.within_dictOf _ fun entry h => ?_)
        fun _ _ _ => trivial
      exact ⟨((h₁ hT).2 entry h).1.mono (h₂ hT).1, ((h₁ hT).2 entry h).2.mono (h₂ hT).1⟩
  | valueDescriptor value writable enumerable configurable =>
    simp only [Expr.parts, List.mem_append, Option.mem_toList, or_imp, forall_and] at hparts
    obtain ⟨⟨⟨hvalue, hwritable⟩, henumerable⟩, hconfigurable⟩ := hparts
    refine .bind (.optionMapM fun e he => hvalue e he _) fun v? r₁ _ h₁ => ?_
    refine .bind (steps_evalFlag hwritable _) fun w r₂ _ h₂ => ?_
    refine .bind (steps_evalFlag henumerable _) fun e r₃ _ h₃ => ?_
    refine .bind (steps_evalFlag hconfigurable _) fun c r₄ _ h₄ => ?_
    refine .map (steps_newDescriptor trivial fun hT => Descriptor.within_value.2 ⟨?_, ?_, ?_, ?_⟩)
      fun _ _ _ => trivial
    · have hle := Nat.le_trans (h₂ hT).1 (Nat.le_trans (h₃ hT).1 (h₄ hT).1)
      cases v? with
      | none => trivial
      | some v => exact ((h₁ hT).2 v rfl).mono hle
    · exact (h₂ hT).2.mono (Nat.le_trans (h₃ hT).1 (h₄ hT).1)
    · exact (h₃ hT).2.mono (h₄ hT).1
    · exact (h₄ hT).2
  | accessor get set enumerable configurable =>
    simp only [Expr.parts, List.mem_append, Option.mem_toList, or_imp, forall_and] at hparts
    obtain ⟨⟨⟨hget, hset⟩, henumerable⟩, hconfigurable⟩ := hparts
    have hfunction {v? : Option Value} {n n' : Nat} (hv : ∀ v ∈ v?, v.Within n) (hle : n ≤ n') :
        (Value.ofOption (v?.bind Value.toOption)).Within n' := by
      refine Value.within_ofOption fun v h => ?_
      obtain ⟨v', hv', hto⟩ := Option.bind_eq_some_iff.1 h
      exact Value.within_of_toOption ((hv v' hv').mono hle) v hto
    refine .bind (.optionMapM fun e he => hget e he _) fun g? r₁ _ h₁ => ?_
    refine .bind (.optionMapM fun e he => hset e he _) fun s? r₂ _ h₂ => ?_
    refine .bind (steps_evalFlag henumerable _) fun e r₃ _ h₃ => ?_
    refine .bind (steps_evalFlag hconfigurable _) fun c r₄ _ h₄ => ?_
    refine .map (steps_newDescriptor trivial fun hT =>
      Descriptor.within_accessor.2 ⟨?_, ?_, ?_, ?_⟩) fun _ _ _ => trivial
    · exact hfunction (h₁ hT).2 (Nat.le_trans (h₂ hT).1 (Nat.le_trans (h₃ hT).1 (h₄ hT).1))
    · exact hfunction (h₂ hT).2 (Nat.le_trans (h₃ hT).1 (h₄ hT).1)
    · exact (h₃ hT).2.mono (h₄ hT).1
    · exact (h₄ hT).2
  | «variable» name =>
    refine .inClosed fun hclosed => .inspect' ?_ fun _ => rfl
    split
    · next hv =>
      exact .pure fun hT => ((hclosed hT).client _ (Nat.le_refl _)).lookup? hv
    · exact .throw trivial _
  | this =>
    exact .inClosed fun hclosed =>
      .get (fun hT => ((hclosed hT).client _ (Nat.le_refl _)).this) fun _ => rfl
  | arg index =>
    exact .inClosed fun hclosed =>
      .get (fun hT => ((hclosed hT).client _ (Nat.le_refl _)).arg index) fun _ => rfl
  | operation op =>
    refine steps_mapOperation hparts (fun op' hop' r hin => ?_) _
    -- what the operation calls are functions of the program, which consist of steps in turn
    refine .inline hcall (steps_perform ?_ hin)
    exact Terms.allow (hop' ▸ hop op rfl) (fun _ _ => trivial) (.inl trivial) _
  | note e =>
    refine .bind (hparts e List.mem_cons_self _) fun v r₁ _ h₁ => ?_
    refine .bind (steps_answer _ _) fun shown r₂ _ h₂ => ?_
    refine .bind (steps_modifyClient (f := fun s => { s with notes := s.notes ++ [shown] })
      fun _ _ _ hs => ⟨hs.globals, hs.frame⟩) fun _ r₃ _ h₃ => ?_
    exact .pure fun hT => (h₁ hT).2.mono (Nat.le_trans (h₂ hT).1 (h₃ hT).1)
  | cond test thenBody elseBody =>
    simp only [Expr.parts, List.mem_append, List.mem_cons, or_imp, forall_and] at hparts
    obtain ⟨⟨htest, hthen⟩, helse⟩ := hparts
    refine .bind (htest _ rfl _) fun v r₁ _ _ => .after (reads_truthy _) fun holds _ => ?_
    split
    · exact steps_evalBody hthen _
    · exact steps_evalBody helse _
  | attempt body =>
    refine .tryCatch (steps_evalBody hparts _) fun failure r' _ _ => ?_
    refine steps_newList trivial fun _ => List.forall_mem_cons.2 ⟨trivial,
      List.forall_mem_singleton.2 (Value.within_ofOption fun v hv => ?_)⟩
    obtain ⟨message, -, rfl⟩ := Option.map_eq_some_iff.1 hv
    trivial
  | bind name e =>
    refine .bind (hparts e List.mem_cons_self _) fun v r₁ _ h₁ => ?_
    refine .bind (steps_modifyClient (f := (·.bind name v)) fun hT n hn hs =>
      hs.bind name ((h₁ hT).2.mono hn)) fun _ r₂ _ h₂ => ?_
    exact .pure fun hT => (h₁ hT).2.mono (h₂ hT).1

theorem steps_eval (hfunctions : ∀ f ∈ functions, ∀ e ∈ f.2, aware ∨ e.Neutral) (depth : Nat)
    {e : Expr} (he : aware ∨ e.Neutral) (r : Realm Session) :
    Steps (terms aware closed) Value.Within (eval functions depth e) r := by
  induction depth generalizing e r with
  | zero => exact .throw trivial _
  | succ depth ih =>
    refine steps_step (fun part hpart r => ih ?_ r) ?_ ?_ r
    · exact he.imp_right fun ⟨_, hparts⟩ => hparts part hpart
    · exact fun op hop => he.imp_right fun ⟨hneutral, _⟩ => hneutral op hop
    · exact steps_callFunction fun f hf e he r => ih (hfunctions f hf e he) r

end Script

end ObjectModel
