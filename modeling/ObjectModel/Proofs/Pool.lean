import ObjectModel.Pool.Content
import ObjectModel.Proofs.Heap.Closed

/-!
What the changes of a pool leave as it was, and what they bring in.
-/

namespace ObjectModel.Pool

variable {n : Nat} {o x : ObjectId} {key j : String} {id : Nat}

structure Extends (p p' : Pool) : Prop where
  installed : p'.installed = p.installed
  descriptor? : ∀ id d, p.descriptor? id = some d → p'.descriptor? id = some d

theorem extends_addFloat (p : Pool) : p.Extends p.addFloat :=
  ⟨rfl, fun _ _ h => h⟩

theorem extends_addList (p : Pool) (items : List Value) : p.Extends (p.addList items) :=
  ⟨rfl, fun _ _ h => h⟩

theorem extends_addDict (p : Pool) (entries : List (Value × Value)) :
    p.Extends (p.addDict entries) :=
  ⟨rfl, fun _ _ h => h⟩

theorem extends_fillDict (p : Pool) (id : Nat) (entries : List (Value × Value)) :
    p.Extends (p.fillDict id entries) :=
  ⟨rfl, fun _ _ h => h⟩

theorem extends_addDescriptor (p : Pool) (d : Descriptor) : p.Extends (p.addDescriptor d) := by
  refine ⟨rfl, fun id d' h => ?_⟩
  rw [descriptor?, Array.getElem?_eq_some_iff] at h
  obtain ⟨hlt, rfl⟩ := h
  rw [descriptor?, addDescriptor, Array.getElem?_push_lt hlt]

theorem descriptor?_addDescriptor_self (p : Pool) (d : Descriptor) :
    (p.addDescriptor d).descriptor? p.descriptors.size = some d := by
  simp [descriptor?, addDescriptor]

theorem Within.addFloat {p : Pool} (hp : p.Within n) : p.addFloat.Within n :=
  ⟨hp.list, hp.dict, hp.descriptor?⟩

theorem Within.addList {p : Pool} (hp : p.Within n) {items : List Value}
    (hitems : ∀ v ∈ items, v.Within n) : (p.addList items).Within n := by
  refine ⟨fun {id v} hv => ?_, hp.dict, hp.descriptor?⟩
  rw [Pool.list, Pool.addList, Array.getElem?_push] at hv
  split at hv
  · exact hitems v hv
  · exact hp.list hv

theorem Within.addDict {p : Pool} (hp : p.Within n) {entries : List (Value × Value)}
    (hentries : ∀ entry ∈ entries, entry.1.Within n ∧ entry.2.Within n) :
    (p.addDict entries).Within n := by
  refine ⟨hp.list, fun {id entry} hentry => ?_, hp.descriptor?⟩
  rw [Pool.dict, Pool.addDict, Array.getElem?_push] at hentry
  split at hentry
  · exact hentries entry hentry
  · exact hp.dict hentry

theorem Within.fillDict {p : Pool} (hp : p.Within n) (id : Nat) {entries : List (Value × Value)}
    (hentries : ∀ entry ∈ entries, entry.1.Within n ∧ entry.2.Within n) :
    (p.fillDict id entries).Within n := by
  refine ⟨hp.list, fun {id' entry} hentry => ?_, hp.descriptor?⟩
  rw [Pool.dict, Pool.fillDict, Array.getElem?_setIfInBounds] at hentry
  split at hentry
  · split at hentry
    · exact hentries entry hentry
    · cases hentry
  · exact hp.dict hentry

theorem Within.addDescriptor {p : Pool} (hp : p.Within n) {d : Descriptor} (hd : d.Within n) :
    (p.addDescriptor d).Within n := by
  refine ⟨hp.list, hp.dict, fun {id d'} hd' => ?_⟩
  rw [Pool.descriptor?, Pool.addDescriptor, Array.getElem?_push] at hd'
  split at hd'
  · cases hd'
    exact hd
  · exact hp.descriptor? hd'

theorem Within.modifyInstalled {p : Pool} (hp : p.Within n) (o : ObjectId)
    (f : List (String × Nat) → List (String × Nat)) : (p.modifyInstalled o f).Within n :=
  ⟨hp.list, hp.dict, hp.descriptor?⟩

theorem within_insertEntry (p : Pool) {key value : Value} (hkey : key.Within n)
    (hvalue : value.Within n) {entries : List (Value × Value)}
    (hentries : ∀ entry ∈ entries, entry.1.Within n ∧ entry.2.Within n) :
    ∀ entry ∈ p.insertEntry key value entries, entry.1.Within n ∧ entry.2.Within n := by
  induction entries with
  | nil => exact List.forall_mem_singleton.2 ⟨hkey, hvalue⟩
  | cons entry rest ih =>
    obtain ⟨key', value'⟩ := entry
    rw [List.forall_mem_cons] at hentries
    rw [insertEntry]
    split
    · exact List.forall_mem_cons.2 ⟨⟨hentries.1.1, hvalue⟩, hentries.2⟩
    · exact List.forall_mem_cons.2 ⟨hentries.1, ih hentries.2⟩

theorem within_dictOf (p : Pool) {pairs : List (Value × Value)}
    (hpairs : ∀ pair ∈ pairs, pair.1.Within n ∧ pair.2.Within n) :
    ∀ entry ∈ p.dictOf pairs, entry.1.Within n ∧ entry.2.Within n := by
  refine List.foldlRecOn (motive := fun entries : List (Value × Value) => ∀ entry ∈ entries,
    entry.1.Within n ∧ entry.2.Within n) pairs _ (List.forall_mem_nil _) ?_
  intro entries hentries pair hpair
  exact p.within_insertEntry (hpairs pair hpair).1 (hpairs pair hpair).2 hentries

structure SameContent (p p' : Pool) : Prop where
  lists : p'.lists = p.lists
  dicts : p'.dicts = p.dicts
  descriptors : p'.descriptors = p.descriptors

theorem SameContent.refl (p : Pool) : p.SameContent p :=
  ⟨rfl, rfl, rfl⟩

theorem SameContent.trans {p p' p'' : Pool} (first : p.SameContent p')
    (second : p'.SameContent p'') : p.SameContent p'' :=
  ⟨second.lists.trans first.lists, second.dicts.trans first.dicts,
    second.descriptors.trans first.descriptors⟩

def forget (p : Pool) : Change → Pool
  | .define o key _ | .remove o key => p.uninstall o key
  | .freeze o => p.uninstallAll o
  | _ => p

theorem sameContent_forget (p : Pool) (change : Change) : p.SameContent (p.forget change) := by
  cases change <;> exact ⟨rfl, rfl, rfl⟩

theorem Within.forget {p : Pool} (hp : p.Within n) (change : Change) :
    (p.forget change).Within n := by
  cases change <;> exact ⟨hp.list, hp.dict, hp.descriptor?⟩

def standing (p : Pool) (o : ObjectId) : List (String × Nat) :=
  p.installed[o]?.getD []

theorem installed?_eq_lookup (p : Pool) (o : ObjectId) (key : String) :
    p.installed? o key = (p.standing o).lookup key := by
  rw [installed?, standing]
  cases p.installed[o]? <;> rfl

theorem standing_modifyInstalled (p : Pool) (o : ObjectId)
    (f : List (String × Nat) → List (String × Nat)) (x : ObjectId) :
    (p.modifyInstalled o f).standing x = if x = o then f (p.standing o) else p.standing x := by
  -- the padding makes place for `o`, and stands for no property
  have hpadded : (p.installed.rightpad (o + 1) [])[x]? =
      if x < p.installed.size then some (p.standing x)
      else if x < o + 1 then some [] else none := by
    simp only [Array.rightpad, Array.getElem?_append, Array.getElem?_replicate, standing]
    by_cases hx : x < p.installed.size
    · rw [if_pos hx, if_pos hx, Array.getElem?_eq_getElem hx]
      rfl
    · have hiff {a b c : Nat} (h : ¬ a < b) : a - b < c - b ↔ a < c := by omega
      simp only [hx, hiff hx, if_false]
  have hnone (hx : ¬ x < p.installed.size) : p.standing x = [] := by
    rw [standing, Array.getElem?_eq_none (Nat.le_of_not_lt hx)]
    rfl
  rw [standing, modifyInstalled, Array.getElem?_modify, hpadded]
  by_cases hsize : x < p.installed.size
  · by_cases hx : x = o
    · subst hx
      simp [hsize]
    · simp [hsize, hx, Ne.symm hx]
  · by_cases hx : x = o
    · subst hx
      simp [hsize, hnone hsize]
    · by_cases hlt : x < o + 1 <;> simp [hsize, hx, Ne.symm hx, hlt, hnone hsize]

theorem installed?_install (p : Pool) (o : ObjectId) (key : String) (id : Nat) (x : ObjectId)
    (j : String) : (p.install o key id).installed? x j =
      if x = o ∧ j = key then some id else p.installed? x j := by
  rw [installed?_eq_lookup, install, standing_modifyInstalled]
  by_cases hx : x = o
  · subst hx
    rw [if_pos rfl, Table.lookup_cons, Table.lookup_filter_ne, installed?_eq_lookup]
    by_cases hj : j = key <;> simp [hj]
  · simp [hx, installed?_eq_lookup]

theorem installed?_uninstall (p : Pool) (o : ObjectId) (key : String) (x : ObjectId) (j : String) :
    (p.uninstall o key).installed? x j =
      if x = o ∧ j = key then none else p.installed? x j := by
  rw [installed?_eq_lookup, uninstall, standing_modifyInstalled]
  by_cases hx : x = o
  · subst hx
    rw [if_pos rfl, Table.lookup_filter_ne, installed?_eq_lookup]
    by_cases hj : j = key <;> simp [hj]
  · simp [hx, installed?_eq_lookup]

theorem installed?_uninstallAll (p : Pool) (o x : ObjectId) (j : String) :
    (p.uninstallAll o).installed? x j = if x = o then none else p.installed? x j := by
  rw [installed?_eq_lookup, uninstallAll, standing_modifyInstalled]
  by_cases hx : x = o <;> simp [hx, installed?_eq_lookup]

theorem descriptor?_forget (p : Pool) (change : Change) :
    (p.forget change).descriptor? = p.descriptor? := by
  cases change <;> rfl

end ObjectModel.Pool
