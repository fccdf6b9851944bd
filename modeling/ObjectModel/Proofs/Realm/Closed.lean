import ObjectModel.Proofs.Heap.Closed
import ObjectModel.Proofs.Realm.Composed

/-!
Closed realms: nothing in them names a record that is not there.
-/

namespace ObjectModel.Realm

variable {σ α : Type} {C : Nat → σ → Prop} {P : Nat → α → Prop}

/-- Nothing in the realm names a record that is not there; `C` says so of its client. -/
structure Closed (C : Nat → σ → Prop) (r : Realm σ) : Prop where
  heap : r.heap.Closed
  pool : r.pool.Within r.heap.size
  strict : r.strict.Within r.heap.size
  client : ∀ n, r.heap.size ≤ n → C n r.client

def Grows (r r' : Realm σ) : Prop :=
  ∃ events, r'.trace.toList = r.trace.toList ++ events ∧
    r'.heap = events.foldl Heap.after r.heap ∧ r.heap.Each Event.Within events

theorem Grows.of_eq {r r' : Realm σ} (hheap : r'.heap = r.heap) (htrace : r'.trace = r.trace) :
    r.Grows r' :=
  ⟨[], by rw [htrace, List.append_nil], hheap, trivial⟩

theorem Grows.refl (r : Realm σ) : r.Grows r :=
  .of_eq rfl rfl

theorem Grows.trans {r r' r'' : Realm σ} (first : r.Grows r') (second : r'.Grows r'') :
    r.Grows r'' := by
  obtain ⟨events, htrace, hheap, hwithin⟩ := first
  obtain ⟨events', htrace', hheap', hwithin'⟩ := second
  refine ⟨events ++ events', ?_, ?_, ?_⟩
  · rw [htrace', htrace, List.append_assoc]
  · rw [hheap', hheap, List.foldl_append]
  · rw [Heap.each_append, ← hheap]
    exact ⟨hwithin, hwithin'⟩

theorem Grows.emit {r : Realm σ} {event : Event} (h : event.Within r.heap) :
    r.Grows { r with heap := r.heap.after event, trace := r.trace.push event } :=
  ⟨[event], by simp, rfl, h, trivial⟩

theorem Grows.size_le {r r' : Realm σ} (h : r.Grows r') : r.heap.size ≤ r'.heap.size := by
  obtain ⟨events, -, hheap, -⟩ := h
  rw [hheap]
  exact Heap.size_le_foldl _ _

structure ClosedFrom (C : Nat → σ → Prop) (P : Nat → α → Prop) (r : Realm σ)
    (outcome : EStateM.Result Failure (Realm σ) α) : Prop where
  grows : r.Grows (ending outcome)
  closed : (ending outcome).Closed C
  result : ∀ {a r'}, outcome = .ok a r' → P r'.heap.size a

theorem ClosedFrom.after {r r' : Realm σ} {outcome : EStateM.Result Failure (Realm σ) α}
    (h : ClosedFrom C P r' outcome) (hgrows : r.Grows r') : ClosedFrom C P r outcome :=
  ⟨hgrows.trans h.grows, h.closed, h.result⟩

theorem Closed.emit {r : Realm σ} (hr : r.Closed C) {event : Event} (h : event.Within r.heap) :
    Closed C { r with heap := r.heap.after event, trace := r.trace.push event } := by
  have hsize : r.heap.size ≤ (r.heap.after event).size := (Grows.emit h).size_le
  refine ⟨?_, hr.pool.mono hsize, hr.strict.mono hsize,
    fun n hn => hr.client n (Nat.le_trans hsize hn)⟩
  cases event with
  | changed change => exact hr.heap.apply h
  | _ => exact hr.heap

end ObjectModel.Realm
