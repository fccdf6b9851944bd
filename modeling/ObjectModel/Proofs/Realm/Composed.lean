import ObjectModel.Proofs.Heap.Admissible
import ObjectModel.Realm.Policy

/-!
What the computations of a realm are put together from. Each law about all of them is one induction
over this relation, and each computation is shown to be composed only once.
-/

namespace ObjectModel.Realm

variable {σ α β : Type}

def ending : EStateM.Result Failure (Realm σ) α → Realm σ
  | .ok _ r | .error _ r => r

/-- A refusal was passed over, now or earlier. -/
def Marked (r : Realm σ) : Prop :=
  ∃ error, .condoned error ∈ r.trace.toList

instance (r : Realm σ) : Decidable r.Marked :=
  let isMark : Event → Bool
    | .condoned _ => true
    | _ => false
  have marked_iff : r.trace.toList.any isMark ↔ r.Marked := by
    rw [List.any_eq_true]
    constructor
    · rintro ⟨event, hmem, hmark⟩
      cases event with
      | condoned error => exact ⟨error, hmem⟩
      | changed => cases hmark
      | logged => cases hmark
    · rintro ⟨error, hmem⟩
      exact ⟨_, hmem, rfl⟩
  decidable_of_iff _ marked_iff

def within (enter : σ → σ) (leave : σ → σ → σ) (m : RealmM σ α) : RealmM σ α := fun r =>
  match m { r with client := enter r.client } with
  | .ok a r' => .ok a { r' with client := leave r.client r'.client }
  | .error failure r' => .error failure { r' with client := leave r.client r'.client }

/--
From the given realm on, a computation consists of steps of the realm. Only if it is `aware` may it
depend on the realm's strictness, except where the difference leaves a mark.
-/
inductive Composed (aware : Prop) : {α : Type} → RealmM σ α → Realm σ → Prop
  | pure {α : Type} (a : α) (r : Realm σ) : Composed aware (Pure.pure a) r
  | throw {α : Type} (failure : Failure) (r : Realm σ) :
    Composed aware (MonadExcept.throw failure : RealmM σ α) r
  | bind {α β : Type} {m : RealmM σ α} {f : α → RealmM σ β} {r : Realm σ}
    (hm : Composed aware m r) (hf : ∀ a r', m r = .ok a r' → Composed aware (f a) r') :
    Composed aware (m >>= f) r
  | tryCatch {α : Type} {m : RealmM σ α} {handler : Failure → RealmM σ α} {r : Realm σ}
    (hm : Composed aware m r)
    (hh : ∀ failure r', m r = .error failure r' → Composed aware (handler failure) r') :
    Composed aware (MonadExcept.tryCatch m handler) r
  | inspect {α : Type} {f : Realm σ → RealmM σ α} {r : Realm σ} (hf : Composed aware (f r) r)
    (h : aware ∨ (∀ v, f { r with strict := v } = f r) ∨
      (r.strict = .bool false → (ending (f r r)).Marked)) :
    Composed aware (get >>= f) r
  | setStrict (h : aware) (v : Value) (r : Realm σ) :
    Composed aware (modify fun r => { r with strict := v }) r
  | modifyPool (f : Pool → Pool) (r : Realm σ) : Composed aware (modifyPool f) r
  | client {α : Type} {f : Realm σ → α × σ} {r : Realm σ}
    (h : ∀ v, f { r with strict := v } = f r) :
    Composed aware (modifyGet fun r => ((f r).1, { r with client := (f r).2 })) r
  | within {α : Type} {m : RealmM σ α} (enter : σ → σ) (leave : σ → σ → σ) {r : Realm σ}
    (hm : Composed aware m { r with client := enter r.client }) :
    Composed aware (within enter leave m) r
  | log {entry : LogEntry} (r : Realm σ) (h : ∀ o p n, entry ≠ .relinked o p n) :
    Composed aware (log entry) r
  | condoned (error : ModelError) (r : Realm σ) : Composed aware (emit (.condoned error)) r
  | commit {change : Change} {r : Realm σ} (hadm : change.Admissible r.heap)
    (h : ∀ o p, change ≠ .relink o p) : Composed aware (commit change) r
  | relinked {o : ObjectId} {prototype : Option ObjectId} (shown : String) {r : Realm σ}
    (hadm : r.heap.AdmitsRelink o prototype) :
    Composed aware (do
      Realm.commit (.relink o prototype)
      Realm.log (.relinked shown (← display (.ofLink prototype)) (← readHeap).epoch)) r

def ComposedCaller (aware : Prop) (call : Caller σ) : Prop :=
  ∀ name this args r, Composed aware (call name this args) r

def barred : Caller σ := fun _ _ _ => throw .exhausted

theorem composedCaller_barred {aware : Prop} : ComposedCaller aware (barred : Caller σ) :=
  fun _ _ _ _ => .throw _ _

/-- The second realm comes from the first by events that the heap admits. -/
def Follows (r r' : Realm σ) : Prop :=
  ∃ events, r'.trace.toList = r.trace.toList ++ events ∧
    r'.heap = events.foldl Heap.after r.heap ∧ r.heap.Admits events

theorem Follows.refl (r : Realm σ) : r.Follows r :=
  ⟨[], (List.append_nil _).symm, rfl, trivial⟩

theorem Follows.trans {r r' r'' : Realm σ} (first : r.Follows r') (second : r'.Follows r'') :
    r.Follows r'' := by
  obtain ⟨events, htrace, hheap, hadmits⟩ := first
  obtain ⟨events', htrace', hheap', hadmits'⟩ := second
  refine ⟨events ++ events', ?_, ?_, ?_⟩
  · rw [htrace', htrace, List.append_assoc]
  · rw [hheap', hheap, List.foldl_append]
  · rw [Heap.admits_append, ← hheap]
    exact ⟨hadmits, hadmits'⟩

theorem Follows.of_eq {r r' : Realm σ} (hheap : r'.heap = r.heap) (htrace : r'.trace = r.trace) :
    r.Follows r' :=
  ⟨[], by rw [htrace, List.append_nil], hheap, trivial⟩

theorem Follows.emit {r : Realm σ} {event : Event} (h : event.Admissible r.heap) :
    r.Follows { r with heap := r.heap.after event, trace := r.trace.push event } :=
  ⟨[event], by simp, rfl, h, trivial⟩

theorem Follows.marked {r r' : Realm σ} (h : r.Follows r') (hmarked : r.Marked) : r'.Marked := by
  obtain ⟨events, htrace, -, -⟩ := h
  obtain ⟨error, hmem⟩ := hmarked
  refine ⟨error, ?_⟩
  rw [htrace]
  exact List.mem_append_left events hmem

section Runs

variable {m : RealmM σ α} {f : α → RealmM σ β} {handler : Failure → RealmM σ α} {r r' : Realm σ}
  {a : α} {failure : Failure}

theorem bind_ok (h : m r = .ok a r') : (m >>= f) r = f a r' := by
  show EStateM.bind m f r = f a r'
  unfold EStateM.bind
  rw [h]

theorem bind_error (h : m r = .error failure r') : (m >>= f) r = .error failure r' := by
  show EStateM.bind m f r = .error failure r'
  unfold EStateM.bind
  rw [h]

theorem bind_eq_ok {b : β} (h : (m >>= f) r = .ok b r') :
    ∃ a r₁, m r = .ok a r₁ ∧ f a r₁ = .ok b r' := by
  cases hm : m r with
  | ok a r₁ =>
    rw [bind_ok hm] at h
    exact ⟨a, r₁, rfl, h⟩
  | error failure r₁ =>
    rw [bind_error hm] at h
    cases h

theorem tryCatch_ok (h : m r = .ok a r') : (tryCatch m handler) r = .ok a r' := by
  show EStateM.tryCatch m handler r = .ok a r'
  unfold EStateM.tryCatch
  dsimp only
  rw [h]

theorem tryCatch_error (h : m r = .error failure r') :
    (tryCatch m handler) r = handler failure r' := by
  show EStateM.tryCatch m handler r = handler failure r'
  unfold EStateM.tryCatch
  dsimp only
  rw [h]
  rfl

end Runs

theorem Composed.relOfSteps {aware : Prop} {R : Realm σ → Realm σ → Prop} (refl : ∀ r, R r r)
    (trans : ∀ {r r' r''}, R r r' → R r' r'' → R r r'')
    (setStrict : aware → ∀ r v, R r { r with strict := v })
    (setPool : ∀ r pool, R r { r with pool }) (setClient : ∀ r client, R r { r with client })
    (emit : ∀ {r event}, event.Admissible r.heap → ¬ event.Relinks →
      R r { r with heap := r.heap.after event, trace := r.trace.push event })
    (relink : ∀ {r o prototype}, r.heap.AdmitsRelink o prototype → ∀ shown shown', R r { r with
      heap := r.heap.apply (.relink o prototype)
      trace := (r.trace.push (.changed (.relink o prototype))).push
        (.logged (.relinked shown shown' (r.heap.epoch + 1))) })
    {m : RealmM σ α} {r : Realm σ} (h : Composed aware m r) : R r (ending (m r)) := by
  induction h with
  | pure a r => exact refl r
  | throw failure r => exact refl r
  | @bind α β m f r hm hf ihm ihf =>
    cases hr : m r with
    | ok a r' =>
      rw [bind_ok hr]
      rw [hr] at ihm
      exact trans ihm (ihf a r' hr)
    | error failure r' =>
      rw [bind_error hr]
      rw [hr] at ihm
      exact ihm
  | @tryCatch α m handler r hm hh ihm ihh =>
    cases hr : m r with
    | ok a r' =>
      rw [tryCatch_ok hr]
      rw [hr] at ihm
      exact ihm
    | error failure r' =>
      rw [tryCatch_error hr]
      rw [hr] at ihm
      exact trans ihm (ihh failure r' hr)
  | inspect hf h ih => exact ih
  | setStrict h v r => exact setStrict h r v
  | modifyPool f r => exact setPool r _
  | client h => exact setClient _ _
  | @within α m enter leave r hm ih =>
    unfold Realm.within
    cases hr : m { r with client := enter r.client } with
    | ok a r' =>
      rw [hr] at ih
      exact trans (trans (setClient r _) ih) (setClient r' _)
    | error failure r' =>
      rw [hr] at ih
      exact trans (trans (setClient r _) ih) (setClient r' _)
  | @log entry r h =>
    refine emit trivial fun hrelinks => ?_
    cases entry with
    | relinked o prototype n => exact h o prototype n rfl
    | _ => exact hrelinks
  | condoned error r => exact emit trivial nofun
  | @commit change r hadm h =>
    refine emit hadm fun hrelinks => ?_
    cases change with
    | relink o prototype => exact h o prototype rfl
    | _ => exact hrelinks
  | relinked shown hadm => exact relink hadm _ _

theorem Composed.rel {aware : Prop} {R : Realm σ → Realm σ → Prop} (refl : ∀ r, R r r)
    (trans : ∀ {r r' r''}, R r r' → R r' r'' → R r r'')
    (setStrict : aware → ∀ r v, R r { r with strict := v })
    (setPool : ∀ r pool, R r { r with pool }) (setClient : ∀ r client, R r { r with client })
    (emit : ∀ {r event}, event.Admissible r.heap →
      R r { r with heap := r.heap.after event, trace := r.trace.push event })
    {m : RealmM σ α} {r : Realm σ} (h : Composed aware m r) : R r (ending (m r)) := by
  refine h.relOfSteps refl trans setStrict setPool setClient (fun hadm _ => emit hadm) ?_
  intro r o prototype hadm shown shown'
  have hadm : (Event.changed (.relink o prototype)).Admissible r.heap := hadm
  exact trans (emit hadm) (@emit _ (.logged (.relinked shown shown' (r.heap.epoch + 1))) trivial)

theorem Composed.follows {aware : Prop} {m : RealmM σ α} {r : Realm σ} (h : Composed aware m r) :
    r.Follows (ending (m r)) := by
  apply h.rel
  · exact Follows.refl
  · exact Follows.trans
  · exact fun _ _ _ => Follows.of_eq rfl rfl
  · exact fun _ _ => Follows.of_eq rfl rfl
  · exact fun _ _ => Follows.of_eq rfl rfl
  · exact Follows.emit

theorem Composed.strict_eq {m : RealmM σ α} {r : Realm σ} (h : Composed False m r) :
    (ending (m r)).strict = r.strict := by
  apply h.rel (R := fun r r' => r'.strict = r.strict)
  · exact fun _ => rfl
  · exact fun first second => second.trans first
  · exact nofun
  · exact fun _ _ => rfl
  · exact fun _ _ => rfl
  · exact fun _ => rfl

end ObjectModel.Realm
