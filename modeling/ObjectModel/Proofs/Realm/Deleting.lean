import ObjectModel.Proofs.Heap.Unshadowing
import ObjectModel.Proofs.Realm.Assigning

/-!
Deleting own properties from end to end: which deletions say that the key is gone, which of them
remove anything, and what is found along the chains afterwards.
-/

namespace ObjectModel

def Table.Loose (t : Table) (key : String) : Prop :=
  ∃ d, t.lookup key = some d ∧ d.configurable.holds = true

theorem Table.removable_iff_loose {t : Table} {key : String} :
    t.removable key = true ↔ t.Loose key := by
  rw [removable, Loose]
  cases t.lookup key <;> simp

instance (t : Table) (key : String) : Decidable (t.Loose key) :=
  decidable_of_iff _ Table.removable_iff_loose

namespace Heap

variable {h : Heap} {o : ObjectId}

structure Dropped (h h' : Heap) (o : ObjectId) (key : String) : Prop where
  /-- The entries that are left stand in their old order. -/
  entries : (h'.table o).entries = (h.table o).entries.filter (·.1 != key)
  keys : (h'.table o).keys = (h.table o).keys.filter (· != key)
  other_record : ∀ y ≠ o, h'.records[y]? = h.records[y]?
  extensible : (h'.table o).extensible = (h.table o).extensible
  link : h'.link o = h.link o
  constructor? : h'.constructor? o = h.constructor? o
  size : h'.size = h.size
  epoch : h'.epoch = h.epoch
  objectCount : h'.objectCount = h.objectCount

theorem dropped_remove (ho : o < h.size) (key : String) :
    h.Dropped (h.apply (.remove o key)) o key := by
  have htable : (h.apply (.remove o key)).table o = (h.table o).remove key := by
    rw [apply, table_updateTable, if_pos ⟨rfl, ho⟩]
  constructor
  · rw [htable]
    rfl
  · rw [htable, Table.keys_remove]
  · intro y hy
    simp [apply, updateTable, Array.getElem?_modify, Ne.symm hy]
  · rw [htable]
    rfl
  · exact link_updateTable _ _ _ _
  · simp only [Heap.constructor?, apply, updateTable, Array.getElem?_modify, if_pos]
    cases h.records[o]? <;> rfl
  · exact size_updateTable _ _ _
  · rfl
  · exact objectCount_updateTable _ _ _

end Heap

namespace Realm

variable {σ : Type} {r r' : Realm σ} {o x : ObjectId} {key : Value} {k : String} {d : Descriptor}

def findAbove (o : ObjectId) (key : String) : RealmM σ (Option (ObjectId × Descriptor)) := do
  find (← assumeLink ((← readHeap).link o)) key

theorem findAbove_run (hset : r.heap.Settled) (ho : o < r.heap.size) (k : String) :
    findAbove o k r =
      match r.heap.findProperty (r.heap.prototype o) k, r.heap.strayEnd? (some o) with
      | some found, _ => .ok (some found) r
      | none, some _ => .error .notRecord r
      | none, none => .ok none r := by
  simp only [findAbove, bind_run, readHeap_run, hset.strayEnd?_eq ho, Heap.prototype,
    Heap.strayLink?]
  cases hlink : r.heap.link o with
  | none => exact find_run none k r
  | object p =>
    have hp : p < r.heap.size := hset.prototype_lt ho (by rw [Heap.prototype, hlink])
    simp only [assumeLink, bind_run, assumeObject_run, Heap.object?_object hp, pure_run,
      Option.none_or]
    exact find_run (some p) k r
  | _ =>
    rw [Heap.findProperty_eq_firstOwner, Heap.chain_none]
    rfl

structure Unshadows (r r' : Realm σ) (o : ObjectId) (k : String) : Prop where
  /-- A search that ended at `o` finds what there is above `o`. -/
  above : ∀ x < r.heap.size, ∀ d, find (some x) k r = .ok (some (o, d)) r →
    find (some x) k r' = findAbove o k r'
  /-- Every other search comes to what it came to before. -/
  kept : ∀ x < r.heap.size, ∀ j, (j = k → ∀ d, find (some x) k r ≠ .ok (some (o, d)) r) →
    ∀ found, find (some x) j r' = .ok found r' ↔ find (some x) j r = .ok found r

theorem unshadows_of_remove (hset : r.heap.Settled) (ho : o < r.heap.size)
    (hr' : r'.heap = r.heap.apply (.remove o k)) : r.Unshadows r' o k := by
  have hset' : r'.heap.Settled := hr' ▸ hset.updateTable o _
  have ho' : o < r'.heap.size := by
    rw [hr', Heap.apply, Heap.size_updateTable]
    exact ho
  have hend (start : Option ObjectId) : r'.heap.strayEnd? start = r.heap.strayEnd? start := by
    rw [hr', Heap.apply, Heap.strayEnd?_updateTable]
  constructor
  · intro x hx d hfind
    have hfound : r.heap.findProperty (some x) k = some (o, d) := by
      rw [Heap.findProperty_eq_firstOwner]
      exact find_eq_ok_some_iff.1 hfind
    obtain ⟨before, hchain, -, -⟩ := hset.exists_before hx hfound
    obtain ⟨os, ha⟩ := hset x hx
    have hmem : o ∈ os := by
      rw [← ha.chain_eq, hchain]
      exact List.mem_append_right _ List.mem_cons_self
    have hprototype : r'.heap.prototype o = r.heap.prototype o := by
      rw [hr', Heap.apply, Heap.prototype_updateTable]
    have hsame : r'.heap.findProperty (some x) k = r'.heap.findProperty (r.heap.prototype o) k := by
      rw [hr']
      exact (hset.findProperty_remove_of_owner ho hx hfound).1
    have hbelow := find_run (some x) k r'
    have habove := findAbove_run hset' ho' k
    rw [hend, ha.strayEnd?_eq hmem, hsame] at hbelow
    rw [hend, hprototype] at habove
    refine hbelow.trans (Eq.trans ?_ habove.symm)
    cases r'.heap.findProperty (r.heap.prototype o) k with
    | some found => rfl
    | none => cases r.heap.strayEnd? (some o) <;> rfl
  · intro x hx j hother found
    have hfound : r'.heap.findProperty (some x) j = r.heap.findProperty (some x) j := by
      rw [hr']
      apply Heap.findProperty_remove_of_not_owner ho
      intro hj d hfound
      rw [Heap.findProperty_eq_firstOwner] at hfound
      exact hother hj d (find_eq_ok_some_iff.2 hfound)
    rw [find_run, find_run, hfound, hend]
    cases r.heap.findProperty (some x) j with
    | some found' => simp
    | none => cases r.heap.strayEnd? (some x) <;> simp

section Deletions

variable (ho : o < r.heap.size) (hkey : key.key? = some k)
include ho hkey

theorem deleteOwn_of_absent (hd : (r.heap.table o).lookup k = none) :
    deleteOwn (.object o) key r = hasProperty (.object o) key r := by
  apply deleteOwn_eq_hasProperty
  rw [hasOwn_run ho hkey, Table.contains, hd, Option.isSome_none]

theorem deleteOwn_of_owned (hd : (r.heap.table o).lookup k = some d) :
    deleteOwn (.object o) key r =
      if (r.heap.table o).removable k = true then
        .ok true { r.committed (.remove o k) with pool := r.pool.uninstall o k }
      else .ok false r := by
  have hcontains : (r.heap.table o).contains k = true := by
    rw [Table.contains, hd, Option.isSome_some]
  simp only [deleteOwn, bind_run, requireObject_run, Heap.object?_object ho, requireKey_run, hkey,
    removeOwn, tableOf_run, hcontains, if_true, remove]
  split <;> rfl

theorem exists_deleteOwn_of_loose (hset : r.heap.Settled) (hloose : (r.heap.table o).Loose k) :
    ∃ r', deleteOwn (.object o) key r = .ok true r' ∧ r.heap.Dropped r'.heap o k ∧
      r.Unshadows r' o k := by
  obtain ⟨d, hd, -⟩ := id hloose
  rw [deleteOwn_of_owned ho hkey hd, if_pos (Table.removable_iff_loose.2 hloose)]
  exact ⟨_, rfl, Heap.dropped_remove ho k, unshadows_of_remove hset ho rfl⟩

theorem deleteOwn_of_neither (hloose : ¬ (r.heap.table o).Loose k)
    (hinherited : ¬ ((r.heap.table o).lookup k = none ∧
      hasProperty (.object o) key r = .ok true r)) :
    deleteOwn (.object o) key r =
      if r.heap.Strays o k then .error .notRecord r else .ok false r := by
  cases hd : (r.heap.table o).lookup k with
  | some d =>
    have hstray : ¬ r.heap.Strays o k := by
      rintro ⟨habsent, -⟩
      rw [Heap.findProperty_of_lookup ho hd] at habsent
      cases habsent
    rw [deleteOwn_of_owned ho hkey hd, if_neg (mt Table.removable_iff_loose.1 hloose),
      if_neg hstray]
  | none =>
    have hrun := hasProperty_run ho hkey
    rw [bind_run, find_run] at hrun
    rw [deleteOwn_of_absent ho hkey hd]
    by_cases hstray : r.heap.Strays o k
    · obtain ⟨v, hv⟩ := Option.isSome_iff_exists.1 hstray.2
      rw [if_pos hstray, hrun, hstray.1, hv]
    · rw [if_neg hstray]
      cases hfound : r.heap.findProperty (some o) k with
      | some found =>
        rw [hfound] at hrun
        exact absurd ⟨hd, hrun⟩ hinherited
      | none =>
        have hend : r.heap.strayEnd? (some o) = none := by
          rw [← Option.not_isSome_iff_eq_none]
          exact fun hend => hstray ⟨hfound, hend⟩
        rw [hrun, hfound, hend]
        rfl

end Deletions

structure DeletesOwn (r : Realm σ) (o : ObjectId) (key : Value) (k : String) : Prop where
  true_iff : (∃ r', deleteOwn (.object o) key r = .ok true r') ↔
    (r.heap.table o).Loose k ∨
      (r.heap.table o).lookup k = none ∧ hasProperty (.object o) key r = .ok true r
  removes : (r.heap.table o).Loose k →
    ∃ r', deleteOwn (.object o) key r = .ok true r' ∧ r.heap.Dropped r'.heap o k ∧
      r.Unshadows r' o k
  inherited : (r.heap.table o).lookup k = none → hasProperty (.object o) key r = .ok true r →
    deleteOwn (.object o) key r = .ok true r
  otherwise : ¬ (r.heap.table o).Loose k →
    ¬ ((r.heap.table o).lookup k = none ∧ hasProperty (.object o) key r = .ok true r) →
    deleteOwn (.object o) key r =
      if r.heap.Strays o k then .error .notRecord r else .ok false r

theorem deletesOwn_of_settled (hset : r.heap.Settled) (ho : o < r.heap.size)
    (hkey : key.key? = some k) : r.DeletesOwn o key k := by
  have hremoves := exists_deleteOwn_of_loose ho hkey hset
  have hinherited (hd : (r.heap.table o).lookup k = none)
      (hhas : hasProperty (.object o) key r = .ok true r) :
      deleteOwn (.object o) key r = .ok true r :=
    (deleteOwn_of_absent ho hkey hd).trans hhas
  have hotherwise := deleteOwn_of_neither ho hkey
  refine ⟨⟨?_, ?_⟩, hremoves, hinherited, hotherwise⟩
  · rintro ⟨r', htrue⟩
    by_contra hneither
    rw [not_or] at hneither
    rw [hotherwise hneither.1 hneither.2] at htrue
    split at htrue <;> cases htrue
  · rintro (hloose | ⟨hd, hhas⟩)
    · obtain ⟨r', hrun, -⟩ := hremoves hloose
      exact ⟨r', hrun⟩
    · exact ⟨r, hinherited hd hhas⟩

end Realm

end ObjectModel
