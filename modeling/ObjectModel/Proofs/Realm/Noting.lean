import ObjectModel.Proofs.Steps.Laws

/-!
The descriptors that stand for properties. Each one that the pool knows of is what the property has
in the heap, and so it stays through every computation: whatever is read of a property is what it
has.
-/

namespace ObjectModel

theorem Heap.lookup_after_of_spares {h : Heap} {event : Event} (hspares : event.Spares)
    (x : ObjectId) (j : String) :
    ((h.after event).table x).lookup j = (h.table x).lookup j := by
  cases event with
  | logged => rfl
  | condoned => rfl
  | changed change =>
    cases change with
    | allocate link c counted => rw [after, table_allocate]
    | relink o prototype => rw [after, table_relink]
    | preventExtensions o =>
      rw [after, apply, table_updateTable]
      split <;> rfl
    | define => exact hspares.elim
    | remove => exact hspares.elim
    | freeze => exact hspares.elim

theorem Heap.lookup_updateTable_of_installed {h : Heap} {p : Pool} {o x : ObjectId} {key j : String}
    {id : Nat} {f : Table → Table} (hf : ∀ t : Table, j ≠ key → (f t).lookup j = t.lookup j)
    (hid : (p.uninstall o key).installed? x j = some id) :
    p.installed? x j = some id ∧
      ((h.updateTable o f).table x).lookup j = (h.table x).lookup j := by
  rw [Pool.installed?_uninstall] at hid
  split at hid
  · cases hid
  · next hne =>
    refine ⟨hid, ?_⟩
    rw [table_updateTable]
    split
    · next heq => exact hf _ fun hj => hne ⟨heq.1.symm, hj⟩
    · rfl

theorem Heap.lookup_apply_of_installed {h : Heap} {p : Pool} {change : Change} {x : ObjectId}
    {j : String} {id : Nat} (hid : (p.forget change).installed? x j = some id) :
    p.installed? x j = some id ∧ ((h.apply change).table x).lookup j = (h.table x).lookup j := by
  have hsame (hspares : (Event.changed change).Spares) :
      ((h.apply change).table x).lookup j = (h.table x).lookup j :=
    lookup_after_of_spares hspares x j
  cases change with
  | define o key d =>
    exact lookup_updateTable_of_installed (fun t hj => by rw [Table.lookup_put, if_neg hj]) hid
  | remove o key =>
    exact lookup_updateTable_of_installed (fun t hj => by rw [Table.lookup_remove, if_neg hj]) hid
  | freeze o =>
    rw [Pool.forget, Pool.installed?_uninstallAll] at hid
    split at hid
    · cases hid
    · next hne =>
      refine ⟨hid, ?_⟩
      rw [apply, table_updateTable, if_neg fun heq => hne heq.1.symm]
  | allocate | relink | preventExtensions => exact ⟨hid, hsame trivial⟩

namespace Realm

variable {σ α : Type} {r r' : Realm σ} {o : ObjectId} {key : String} {id : Nat} {d : Descriptor}

/-- Every descriptor that stands for a property is what the property has. -/
def Noted (r : Realm σ) : Prop :=
  ∀ o key id, r.pool.installed? o key = some id →
    ∃ d, r.pool.descriptor? id = some d ∧ (r.heap.table o).lookup key = some d

theorem Noted.of_extends (hr : r.Noted) (hpool : r.pool.Extends r'.pool)
    (hheap : r'.heap = r.heap) : r'.Noted := by
  intro o key id hid
  rw [Pool.installed?, hpool.installed] at hid
  obtain ⟨d, hd, hlookup⟩ := hr o key id hid
  exact ⟨d, hpool.descriptor? id d hd, hheap ▸ hlookup⟩

theorem Noted.note (hr : r.Noted) (hid : r.pool.descriptor? id = some d)
    (hd : (r.heap.table o).lookup key = some d) :
    Noted { r with pool := r.pool.install o key id } := by
  intro x j id' hinstalled
  dsimp only at hinstalled ⊢
  rw [Pool.installed?_install] at hinstalled
  split at hinstalled
  · next heq =>
    obtain ⟨rfl, rfl⟩ := heq
    cases hinstalled
    exact ⟨d, hid, hd⟩
  · exact hr x j id' hinstalled

theorem Noted.emit (hr : r.Noted) {event : Event} (hspares : event.Spares) :
    Noted { r with heap := r.heap.after event, trace := r.trace.push event } := by
  intro x j id hinstalled
  obtain ⟨d, hd, hlookup⟩ := hr x j id hinstalled
  exact ⟨d, hd, (Heap.lookup_after_of_spares hspares x j).trans hlookup⟩

theorem Noted.rewrite (hr : r.Noted) (change : Change) :
    Noted { r with
      heap := r.heap.apply change
      trace := r.trace.push (.changed change)
      pool := r.pool.forget change } := by
  intro x j id hinstalled
  -- what the pool still knows of after the change is what the change has left alone
  obtain ⟨hid, hsame⟩ := Heap.lookup_apply_of_installed (h := r.heap) hinstalled
  obtain ⟨d, hd, hlookup⟩ := hr x j id hid
  exact ⟨d, (congrFun (r.pool.descriptor?_forget change) id).trans hd, hsame.trans hlookup⟩

theorem Steps.noted {T : Terms σ} {P : Nat → α → Prop} {m : RealmM σ α} (hopen : ¬ T.closed)
    (hcall : ∀ name this args (r : Realm σ), r.Noted → (ending (T.call name this args r)).Noted)
    (h : Steps T P m r) (hr : r.Noted) : (ending (m r)).Noted := by
  revert hr
  apply h.rel hopen (R := fun r r' => r.Noted → r'.Noted)
  · exact fun _ => id
  · exact fun first second hr => second (first hr)
  · exact fun _ _ hr => hr
  · exact fun _ _ hr => hr
  · exact fun _ hpool hr => hr.of_extends hpool rfl
  · exact fun hid hd hr => hr.note hid hd
  · exact fun _ hspares _ hr => hr.emit hspares
  · exact fun _ _ hr => hr.rewrite _
  · exact hcall

end Realm

end ObjectModel
