import ObjectModel.Proofs.Descriptor.Lock
import ObjectModel.Proofs.Heap.Admissible
import ObjectModel.Proofs.Table

/-!
What no admitted history takes back: locked properties keep what their lock covers, and a record
that takes no more properties keeps its link and gains no key.
-/

namespace ObjectModel.Heap

/-- Every locked property of the first heap is still there, as its lock allows. -/
def KeepsLocks (h h' : Heap) : Prop :=
  ∀ o key d, (h.table o).lookup key = some d → d.configurable.holds = false →
    ∃ d', (h'.table o).lookup key = some d' ∧ d.LockedTo d'

/-- Every record of the first heap that takes no properties still takes none, keeps its link, and
has no key that it did not have, nor any in another order. -/
def KeepsShapes (h h' : Heap) : Prop :=
  ∀ o, (h.table o).extensible = false →
    (h'.table o).extensible = false ∧ h'.link o = h.link o ∧
      (h'.table o).keys.Sublist (h.table o).keys

theorem KeepsLocks.refl (h : Heap) : h.KeepsLocks h := by
  intro o key d hd hlock
  exact ⟨d, hd, Descriptor.LockedTo.refl hlock⟩

theorem KeepsLocks.trans {h h' h'' : Heap} (first : h.KeepsLocks h') (second : h'.KeepsLocks h'') :
    h.KeepsLocks h'' := by
  intro o key d hd hlock
  obtain ⟨d', hd', hkept'⟩ := first o key d hd hlock
  obtain ⟨d'', hd'', hkept''⟩ := second o key d' hd' hkept'.configurable
  exact ⟨d'', hd'', hkept'.trans hkept''⟩

theorem KeepsShapes.refl (h : Heap) : h.KeepsShapes h := by
  intro o hext
  exact ⟨hext, rfl, List.Sublist.refl _⟩

theorem KeepsShapes.trans {h h' h'' : Heap} (first : h.KeepsShapes h')
    (second : h'.KeepsShapes h'') : h.KeepsShapes h'' := by
  intro o hext
  obtain ⟨hext', hlink', hkeys'⟩ := first o hext
  obtain ⟨hext'', hlink'', hkeys''⟩ := second o hext'
  exact ⟨hext'', hlink''.trans hlink', hkeys''.trans hkeys'⟩

theorem keepsLocks_updateTable {h : Heap} {o : ObjectId} {f : Table → Table}
    (hf : ∀ key d, (h.table o).lookup key = some d → d.configurable.holds = false →
      ∃ d', (f (h.table o)).lookup key = some d' ∧ d.LockedTo d') :
    h.KeepsLocks (h.updateTable o f) := by
  intro x key d hd hlock
  rw [table_updateTable]
  split
  · next hx =>
    obtain ⟨rfl, -⟩ := hx
    exact hf key d hd hlock
  · exact ⟨d, hd, Descriptor.LockedTo.refl hlock⟩

theorem keepsShapes_updateTable {h : Heap} {o : ObjectId} {f : Table → Table}
    (hf : (h.table o).extensible = false →
      (f (h.table o)).extensible = false ∧ (f (h.table o)).keys.Sublist (h.table o).keys) :
    h.KeepsShapes (h.updateTable o f) := by
  intro x hext
  rw [table_updateTable, link_updateTable]
  split
  · next hx =>
    obtain ⟨rfl, -⟩ := hx
    obtain ⟨hext', hkeys⟩ := hf hext
    exact ⟨hext', rfl, hkeys⟩
  · exact ⟨hext, rfl, List.Sublist.refl _⟩

theorem keepsLocks_apply {h : Heap} {change : Change} (hadm : change.Admissible h) :
    h.KeepsLocks (h.apply change) := by
  cases change with
  | allocate link c counted =>
    intro o key d hd hlock
    rw [table_allocate]
    exact ⟨d, hd, Descriptor.LockedTo.refl hlock⟩
  | define o key new =>
    obtain ⟨p, hp⟩ := hadm
    apply keepsLocks_updateTable
    intro j d hd hlock
    rw [Table.lookup_put]
    split
    · next hj =>
      subst hj
      simp only [Table.refusal?, hd, Option.map_eq_none_iff] at hp
      exact ⟨new, rfl, Descriptor.lockedTo_of_conflict? hlock hp⟩
    · exact ⟨d, hd, Descriptor.LockedTo.refl hlock⟩
  | remove o key =>
    apply keepsLocks_updateTable
    intro j d hd hlock
    rw [Table.lookup_remove]
    split
    · next hj =>
      subst hj
      simp only [Change.Admissible, Table.removable, hd, hlock] at hadm
      cases hadm
    · exact ⟨d, hd, Descriptor.LockedTo.refl hlock⟩
  | preventExtensions o =>
    apply keepsLocks_updateTable
    intro j d hd hlock
    rw [Table.lookup_preventExtensions]
    exact ⟨d, hd, Descriptor.LockedTo.refl hlock⟩
  | freeze o =>
    apply keepsLocks_updateTable
    intro j d hd hlock
    rw [Table.lookup_freeze, hd]
    exact ⟨d.freeze, rfl, d.lockedTo_freeze⟩
  | relink o prototype =>
    intro x key d hd hlock
    rw [table_relink]
    exact ⟨d, hd, Descriptor.LockedTo.refl hlock⟩

theorem keepsShapes_apply {h : Heap} {change : Change} (hadm : change.Admissible h) :
    h.KeepsShapes (h.apply change) := by
  cases change with
  | allocate link c counted =>
    intro o hext
    rw [table_allocate, link_allocate]
    split
    · next ho =>
      -- the place of the new record was out of the heap, and there every table is extensible
      subst ho
      simp [table, size, Table.empty] at hext
    · exact ⟨hext, rfl, List.Sublist.refl _⟩
  | define o key new =>
    obtain ⟨p, hp⟩ := hadm
    apply keepsShapes_updateTable
    intro hext
    have hmem : key ∈ (h.table o).keys := by
      rw [← Table.lookup_isSome_iff]
      cases hd : (h.table o).lookup key with
      | none => simp [Table.refusal?, hd, hext] at hp
      | some d => rfl
    rw [Table.keys_put, if_pos hmem]
    exact ⟨hext, List.Sublist.refl _⟩
  | remove o key =>
    apply keepsShapes_updateTable
    intro hext
    rw [Table.keys_remove]
    exact ⟨hext, List.filter_sublist⟩
  | preventExtensions o =>
    apply keepsShapes_updateTable
    intro _
    rw [Table.keys_preventExtensions]
    exact ⟨rfl, List.Sublist.refl _⟩
  | freeze o =>
    apply keepsShapes_updateTable
    intro _
    rw [Table.keys_freeze]
    exact ⟨rfl, List.Sublist.refl _⟩
  | relink o prototype =>
    intro x hext
    rw [table_relink, link_relink]
    split
    · next hx =>
      obtain ⟨rfl, -⟩ := hx
      rw [hadm.extensible] at hext
      cases hext
    · exact ⟨hext, rfl, List.Sublist.refl _⟩

theorem Admits.keepsLocks {h : Heap} {events : List Event} (hadmits : h.Admits events) :
    h.KeepsLocks (events.foldl after h) :=
  hadmits.rel KeepsLocks.refl KeepsLocks.trans keepsLocks_apply

theorem Admits.keepsShapes {h : Heap} {events : List Event} (hadmits : h.Admits events) :
    h.KeepsShapes (events.foldl after h) :=
  hadmits.rel KeepsShapes.refl KeepsShapes.trans keepsShapes_apply

end ObjectModel.Heap
