import ObjectModel.Proofs.Pool
import ObjectModel.Proofs.Realm.Closed
import ObjectModel.Proofs.Realm.Failures
import ObjectModel.Proofs.Realm.Spares

/-!
The steps that the computations of a realm are made of. For each computation it is shown only once
of which; what is to be known of all of them is then a law about the steps.
-/

namespace ObjectModel

def Event.Spares : Event → Prop
  | .changed (.define ..) | .changed (.remove ..) | .changed (.freeze _) => False
  | _ => True

def Event.Writes : Event → Prop
  | .changed (.define ..) | .changed (.preventExtensions _) | .changed (.freeze _)
  | .logged (.definedOwn ..) => True
  | _ => False

theorem Event.Removes.not_relinks {event : Event} (h : event.Removes) : ¬ event.Relinks := by
  intro hrelinks
  obtain (_ | _ | _ | _ | _ | _) | _ | _ := event <;> first | exact h.elim | exact hrelinks.elim

theorem Event.Writes.not_relinks {event : Event} (h : event.Writes) : ¬ event.Relinks := by
  intro hrelinks
  obtain (_ | _ | _ | _ | _ | _) | (_ | _) | _ := event <;>
    first | exact h.elim | exact hrelinks.elim

theorem Event.Writes.not_removes {event : Event} (h : event.Writes) : ¬ event.Removes := by
  intro hremoves
  obtain (_ | _ | _ | _ | _ | _) | _ | _ := event <;> first | exact h.elim | exact hremoves.elim

theorem Event.Quiet.not_relinks {event : Event} (h : event.Quiet) : ¬ event.Relinks := by
  intro hrelinks
  obtain (_ | _ | _ | _ | _ | _) | (_ | _) | _ := event <;>
    first | exact hrelinks.elim | exact h.elim | cases h

theorem Event.Quiet.not_removes {event : Event} (h : event.Quiet) : ¬ event.Removes := by
  intro hremoves
  obtain (_ | _ | _ | _ | _ | _) | _ | _ := event <;> first | exact hremoves.elim | exact h.elim

namespace Realm

variable {σ α β : Type}

abbrev Plain {α : Type} : Nat → α → Prop :=
  fun _ _ => True

abbrev Known (n : Nat) (o : ObjectId) : Prop :=
  o < n

/-- The terms on which a computation runs. -/
structure Terms (σ : Type) where
  call : Caller σ
  /-- It may depend on the strictness of the realm, and change it. -/
  aware : Prop := True
  /-- It may fail so, though no step gives a reason. -/
  fails : Failure → Prop := fun _ => True
  /-- It may bring the event about, if that is not a quiet one. -/
  permits : Event → Prop := fun _ => True
  /-- It may make lists, dicts and descriptors. -/
  mints : Prop := True
  /-- The realm is closed, and what the computation is given names records of the realm. -/
  closed : Prop := False
  /-- What the client keeps names no record but the first so many. -/
  kept : Nat → σ → Prop := fun _ _ => True

namespace Terms

def Relinks (T : Terms σ) : Prop :=
  ∀ event : Event, event.Relinks → T.permits event

def Removes (T : Terms σ) : Prop :=
  ∀ event : Event, event.Removes → T.permits event

def Writes (T : Terms σ) : Prop :=
  ∀ event : Event, event.Writes → T.permits event

def Furnishes (T : Terms σ) (n : Nat) : Prop :=
  ∀ o, n ≤ o → ∀ key d, T.permits (.changed (.define o key d))

end Terms

/--
From the given realm on, and on the given terms, a computation consists of steps of the realm and of
calls of functions; in closed realms its result is as `P` says for the number of records. A change
of properties is one step with what the pool forgets, and a relinking with the line that tells of
it. Only if it is `aware` may a computation depend on the strictness, except where the difference
leaves a mark.
-/
inductive Steps (T : Terms σ) : {α : Type} → (Nat → α → Prop) → RealmM σ α → Realm σ → Prop
  | pure {α : Type} {P : Nat → α → Prop} {a : α} {r : Realm σ} (ha : T.closed → P r.heap.size a) :
    Steps T P (Pure.pure a) r
  | fail {α : Type} {P : Nat → α → Prop} (error : ModelError) (r : Realm σ) :
    Steps T P (fail error) r
  | stray {α : Type} {P : Nat → α → Prop} {r : Realm σ} {o : ObjectId} {v : Value}
    (hstray : r.heap.strayLink? o = some v) : Steps T P (throw .notRecord) r
  | uncallable {α : Type} {P : Nat → α → Prop} {r : Realm σ} (h : r.heap.Uncallable) :
    Steps T P (throw .notCallable) r
  | throw {α : Type} {P : Nat → α → Prop} {failure : Failure} (h : T.fails failure) (r : Realm σ) :
    Steps T P (throw failure) r
  | bind {α β : Type} {P : Nat → α → Prop} {Q : Nat → β → Prop} {m : RealmM σ α}
    {f : α → RealmM σ β} {r : Realm σ} (hm : Steps T P m r)
    (hf : ∀ a r', m r = .ok a r' → (T.closed → r.heap.size ≤ r'.heap.size ∧ P r'.heap.size a) →
      Steps T Q (f a) r') :
    Steps T Q (m >>= f) r
  | tryCatch {α : Type} {P : Nat → α → Prop} {m : RealmM σ α} {handler : Failure → RealmM σ α}
    {r : Realm σ} (hm : Steps T P m r)
    (hh : ∀ failure r', m r = .error failure r' → (T.closed → r.heap.size ≤ r'.heap.size) →
      Steps T P (handler failure) r') :
    Steps T P (MonadExcept.tryCatch m handler) r
  | weaken {α : Type} {P Q : Nat → α → Prop} {m : RealmM σ α} {r : Realm σ} (hm : Steps T P m r)
    (h : ∀ n a, P n a → Q n a) : Steps T Q m r
  | inClosed {α : Type} {P : Nat → α → Prop} {m : RealmM σ α} {r : Realm σ}
    (h : (T.closed → r.Closed T.kept) → Steps T P m r) : Steps T P m r
  | inspect {α : Type} {P : Nat → α → Prop} {f : Realm σ → RealmM σ α} {r : Realm σ}
    (hf : Steps T P (f r) r)
    (h : T.aware ∨ (∀ v, f { r with strict := v } = f r) ∨
      (r.strict = .bool false → (ending (f r r)).Marked)) :
    Steps T P (get >>= f) r
  | setStrict {v : Value} {r : Realm σ} (h : T.aware) (hv : T.closed → v.Within r.heap.size) :
    Steps T Plain (modify fun r => { r with strict := v }) r
  | extendPool {f : Pool → Pool} {r : Realm σ} (h : T.mints) (hf : r.pool.Extends (f r.pool))
    (hin : T.closed → r.pool.Within r.heap.size → (f r.pool).Within r.heap.size) :
    Steps T Plain (modifyPool f) r
  | note {r : Realm σ} {o : ObjectId} {key : String} {id : Nat} {d : Descriptor}
    (hid : r.pool.descriptor? id = some d) (hd : (r.heap.table o).lookup key = some d) :
    Steps T Plain (modifyPool (·.install o key id)) r
  | client {α : Type} {P : Nat → α → Prop} {f : Realm σ → α × σ} {r : Realm σ}
    (hstrict : ∀ v, f { r with strict := v } = f r)
    (hin : T.closed → P r.heap.size (f r).1 ∧
      ∀ n, r.heap.size ≤ n → T.kept n r.client → T.kept n (f r).2) :
    Steps T P (modifyGet fun r => ((f r).1, { r with client := (f r).2 })) r
  | within {α : Type} {P : Nat → α → Prop} {m : RealmM σ α} {enter : σ → σ} {leave : σ → σ → σ}
    {r : Realm σ} (hm : Steps T P m { r with client := enter r.client })
    (hfails : ∀ failure, T.fails failure)
    (henter : T.closed → ∀ n, r.heap.size ≤ n → T.kept n r.client → T.kept n (enter r.client))
    (hleave : T.closed → ∀ n s, T.kept n r.client → T.kept n s → T.kept n (leave r.client s)) :
    Steps T P (within enter leave m) r
  | emit {event : Event} {r : Realm σ} (hadm : event.Admissible r.heap) (hspares : event.Spares)
    (hlink : ¬ event.Relinks) (h : ¬ event.Quiet → T.permits event)
    (hin : T.closed → event.Within r.heap) : Steps T Plain (emit event) r
  | rewrite {change : Change} {r : Realm σ} (hadm : change.Admissible r.heap)
    (hlink : ¬ (Event.changed change).Relinks) (h : T.permits (.changed change))
    (hin : T.closed → change.Within r.heap.size) :
    Steps T Plain (do commit change; modifyPool (·.forget change)) r
  | relinked {o : ObjectId} {prototype : Option ObjectId} {r : Realm σ} (shown : String)
    (hadm : r.heap.AdmitsRelink o prototype) (h : T.Relinks) :
    Steps T Plain (do
      commit (.relink o prototype)
      log (.relinked shown (← display (.ofLink prototype)) (← readHeap).epoch)) r
  | call {this : Value} {args : List Value} {r : Realm σ} (name : String)
    (hin : T.closed → this.Within r.heap.size ∧ ∀ v ∈ args, v.Within r.heap.size) :
    Steps T Value.Within (T.call name this args) r

structure Reads (T : Terms σ) (m : RealmM σ α) (r : Realm σ) : Prop where
  steps : Steps T Plain m r
  ending_eq : ending (m r) = r

section Rules

variable {T : Terms σ} {P : Nat → α → Prop} {Q : Nat → β → Prop} {m : RealmM σ α}
  {f : α → RealmM σ β} {r r' : Realm σ} {a : α}

theorem Reads.eq_of_ok (h : Reads T m r) (hrun : m r = .ok a r') : r' = r := by
  have heq := h.ending_eq
  rw [hrun] at heq
  exact heq

theorem Steps.after (hm : Reads T m r) (hf : ∀ a, m r = .ok a r → Steps T Q (f a) r) :
    Steps T Q (m >>= f) r := by
  refine .bind hm.steps fun a r' hrun _ => ?_
  obtain rfl := hm.eq_of_ok hrun
  exact hf a hrun

theorem Reads.pure (a : α) : Reads T (Pure.pure a) r :=
  ⟨.pure fun _ => trivial, rfl⟩

theorem Reads.fail (error : ModelError) : Reads T (fail error : RealmM σ α) r :=
  ⟨.fail _ _, rfl⟩

theorem Reads.throw {failure : Failure} (h : T.fails failure) :
    Reads T (MonadExcept.throw failure : RealmM σ α) r :=
  ⟨.throw h _, rfl⟩

theorem Reads.stray {o : ObjectId} {v : Value} (hstray : r.heap.strayLink? o = some v) :
    Reads T (MonadExcept.throw .notRecord : RealmM σ α) r :=
  ⟨.stray hstray, rfl⟩

theorem Reads.bind (hm : Reads T m r) (hf : ∀ a, m r = .ok a r → Reads T (f a) r) :
    Reads T (m >>= f) r := by
  refine ⟨.after hm fun a hrun => (hf a hrun).steps, ?_⟩
  cases hrun : m r with
  | ok a r' =>
    obtain rfl := hm.eq_of_ok hrun
    rw [bind_ok hrun]
    exact (hf a hrun).ending_eq
  | error failure r' =>
    have heq := hm.ending_eq
    rw [hrun] at heq
    rw [bind_error hrun]
    exact heq

theorem Reads.map {g : α → β} (hm : Reads T m r) : Reads T (m >>= fun a => Pure.pure (g a)) r :=
  .bind hm fun _ _ => .pure _

theorem Reads.inspect {f : Realm σ → RealmM σ α} (hf : Reads T (f r) r)
    (h : ∀ v, f { r with strict := v } = f r) : Reads T (MonadState.get >>= f) r :=
  ⟨.inspect hf.steps (.inr (.inl h)), hf.ending_eq⟩

theorem Reads.get {g : Realm σ → α} (h : ∀ v, g { r with strict := v } = g r) :
    Reads T (MonadState.get >>= fun r => Pure.pure (g r)) r :=
  .inspect (.pure _) fun v => by rw [h v]

theorem Steps.inspect' {f : Realm σ → RealmM σ α} (hf : Steps T P (f r) r)
    (h : ∀ v, f { r with strict := v } = f r) : Steps T P (MonadState.get >>= f) r :=
  .inspect hf (.inr (.inl h))

theorem Steps.get {g : Realm σ → α} (hg : T.closed → P r.heap.size (g r))
    (h : ∀ v, g { r with strict := v } = g r) :
    Steps T P (MonadState.get >>= fun r => Pure.pure (g r)) r :=
  .inspect' (.pure hg) fun v => by rw [h v]

theorem Steps.map {g : α → β} (hm : Steps T P m r) (hg : ∀ n a, P n a → Q n (g a)) :
    Steps T Q (m >>= fun a => Pure.pure (g a)) r :=
  .bind hm fun _ _ _ ha => .pure fun hT => hg _ _ (ha hT).2

theorem Steps.log {entry : LogEntry} (h : entry.announces = false) :
    Steps T Plain (log entry) r := by
  refine .emit trivial trivial (fun hlink => ?_) (fun hloud => (hloud h).elim) fun _ => trivial
  cases entry with
  | relinked => cases h
  | _ => exact hlink

theorem Steps.forM {g : α → RealmM σ PUnit} {items : List α}
    (hg : ∀ a ∈ items, ∀ r', (T.closed → r.heap.size ≤ r'.heap.size) → Steps T Plain (g a) r') :
    Steps T Plain (items.forM g) r := by
  induction items generalizing r with
  | nil => exact .pure fun _ => trivial
  | cons a items ih =>
    rw [List.forall_mem_cons] at hg
    refine .bind (hg.1 r fun _ => Nat.le_refl _) fun _ r' _ hr' => ih fun a ha r'' hr'' => ?_
    exact hg.2 a ha r'' fun hT => Nat.le_trans (hr' hT).1 (hr'' hT)

theorem Steps.mapM {g : α → RealmM σ β} {items : List α}
    (hmono : ∀ {b n n'}, Q n b → n ≤ n' → Q n' b)
    (hg : ∀ a ∈ items, ∀ r', (T.closed → r.heap.size ≤ r'.heap.size) → Steps T Q (g a) r') :
    Steps T (fun n bs => ∀ b ∈ bs, Q n b) (items.mapM g) r := by
  induction items generalizing r with
  | nil => exact .pure fun _ => List.forall_mem_nil _
  | cons a items ih =>
    rw [List.forall_mem_cons] at hg
    rw [List.mapM_cons]
    refine .bind (hg.1 r fun _ => Nat.le_refl _) fun b r₁ _ h₁ => ?_
    refine .bind (ih fun a ha r₂ h₂ => hg.2 a ha r₂ fun hT => ?_) fun bs r₂ _ h₂ => ?_
    · exact Nat.le_trans (h₁ hT).1 (h₂ hT)
    · refine .pure fun hT => ?_
      rw [List.forall_mem_cons]
      exact ⟨hmono (h₁ hT).2 (h₂ hT).1, (h₂ hT).2⟩

theorem Steps.optionMapM {g : α → RealmM σ β} {item : Option α}
    (hg : ∀ a ∈ item, Steps T Q (g a) r) :
    Steps T (fun n b? => ∀ b ∈ b?, Q n b) (item.mapM g) r := by
  cases item with
  | none => exact .pure fun _ _ h => nomatch h
  | some a =>
    refine .map (hg a rfl) fun n b hb => ?_
    rintro _ ⟨⟩
    exact hb

end Rules

end Realm

end ObjectModel
