import Mathlib.Data.List.Perm.Subperm
import ObjectModel.Proofs.Heap.Ascent
import ObjectModel.Proofs.Heap.Integrity

/-!
Frozen records. What locks and closed shapes keep is, for a record that is frozen, all that can be
told of it, but for the type of its numbers: an integer and a float that are the same value may
still take each other's place. Along a chain of such records every search comes to the same end.
-/

namespace ObjectModel

def Slot.Frozen : Slot → Prop
  | .value _ writable => writable.holds = false
  | .accessor .. => True

structure Descriptor.Frozen (d : Descriptor) : Prop where
  configurable : d.configurable.holds = false
  slot : d.slot.Frozen

structure Table.Frozen (t : Table) : Prop where
  extensible : t.extensible = false
  properties : ∀ key d, t.lookup key = some d → d.Frozen

/-- What a frozen slot may hold later on: a value that is the same, or the same functions. -/
def Slot.FrozenTo : Slot → Slot → Prop
  | .value v _, .value v' _ => v'.same v = true
  | .accessor get set, .accessor get' set' => get' = get ∧ set' = set
  | _, _ => False

structure Descriptor.FrozenTo (d d' : Descriptor) : Prop where
  frozen : d'.Frozen
  enumerable : d.enumerable.Agrees d'.enumerable
  slot : d.slot.FrozenTo d'.slot

instance (s : Slot) : Decidable s.Frozen :=
  match s with
  | .value _ writable => inferInstanceAs (Decidable (writable.holds = false))
  | .accessor .. => inferInstanceAs (Decidable True)

instance (d : Descriptor) : Decidable d.Frozen :=
  decidable_of_iff (d.configurable.holds = false ∧ d.slot.Frozen)
    ⟨fun h => ⟨h.1, h.2⟩, fun h => ⟨h.configurable, h.slot⟩⟩

theorem Table.frozen_iff (t : Table) :
    t.Frozen ↔ t.extensible = false ∧ ∀ entry ∈ t.entries, entry.2.Frozen := by
  constructor
  · rintro ⟨hextensible, hproperties⟩
    refine ⟨hextensible, ?_⟩
    rintro ⟨key, d⟩ hmem
    exact hproperties key d ((t.lookup_eq_some_iff key d).2 hmem)
  · rintro ⟨hextensible, hentries⟩
    refine ⟨hextensible, fun key d hd => ?_⟩
    exact hentries _ ((t.lookup_eq_some_iff key d).1 hd)

instance (t : Table) : Decidable t.Frozen :=
  decidable_of_iff _ t.frozen_iff.symm

theorem Descriptor.frozen_freeze (d : Descriptor) : d.freeze.Frozen := by
  refine ⟨rfl, ?_⟩
  cases hs : d.slot <;> simp only [freeze, hs, Slot.Frozen]
  rfl

theorem Descriptor.LockedTo.frozenTo {d d' : Descriptor} (hlock : d.LockedTo d') (hd : d.Frozen) :
    d.FrozenTo d' := by
  obtain ⟨-, hfrozen⟩ := hd
  obtain ⟨hconfigurable, henumerable, hslot⟩ := hlock
  obtain ⟨slot, enumerable, configurable⟩ := d
  obtain ⟨slot', enumerable', configurable'⟩ := d'
  cases slot with
  | value v writable =>
    cases slot' with
    | value v' writable' =>
      obtain ⟨hwritable, hsame⟩ := hslot hfrozen
      exact ⟨⟨hconfigurable, hwritable⟩, henumerable, hsame⟩
    | accessor => exact hslot.elim
  | accessor get set =>
    cases slot' with
    | value => exact hslot.elim
    | accessor get' set' => exact ⟨⟨hconfigurable, trivial⟩, henumerable, hslot⟩

theorem Table.frozen_freeze (t : Table) : t.freeze.Frozen := by
  refine ⟨rfl, fun key d hd => ?_⟩
  rw [lookup_freeze, Option.map_eq_some_iff] at hd
  obtain ⟨d, -, rfl⟩ := hd
  exact d.frozen_freeze

namespace Heap

variable {h h' : Heap} {o : ObjectId}

theorem keys_eq_of_frozen (hlocks : h.KeepsLocks h') (hshapes : h.KeepsShapes h')
    (hfrozen : (h.table o).Frozen) : (h'.table o).keys = (h.table o).keys := by
  obtain ⟨-, -, hsublist⟩ := hshapes o hfrozen.extensible
  have hsubset : (h.table o).keys ⊆ (h'.table o).keys := by
    intro key hkey
    rw [← Table.lookup_isSome_iff] at hkey ⊢
    obtain ⟨d, hd⟩ := Option.isSome_iff_exists.1 hkey
    obtain ⟨d', hd', -⟩ := hlocks o key d hd (hfrozen.properties key d hd).configurable
    rw [hd']
    rfl
  -- fewer keys would leave no room for all those that are locked
  exact hsublist.eq_of_length_le (List.subperm_of_subset (h.table o).nodup hsubset).length_le

theorem table_freeze (ho : o < h.size) : (h.apply (.freeze o)).table o = (h.table o).freeze := by
  rw [apply, table_updateTable, if_pos ⟨rfl, ho⟩]

theorem Admits.keepsFrozen {events : List Event} (hadmits : h.Admits events)
    (hfrozen : (h.table o).Frozen) {key : String} {d : Descriptor}
    (hd : (h.table o).lookup key = some d) :
    ∃ d', ((events.foldl after h).table o).lookup key = some d' ∧ d.FrozenTo d' := by
  obtain ⟨d', hd', hlock⟩ :=
    hadmits.keepsLocks o key d hd (hfrozen.properties key d hd).configurable
  exact ⟨d', hd', hlock.frozenTo (hfrozen.properties key d hd)⟩

/-- What a search finds later on where it found a frozen property: it is still the nearest one. -/
structure FoundTo (found found' : ObjectId × Descriptor) : Prop where
  holder : found'.1 = found.1
  descriptor : found.2.FrozenTo found'.2

theorem firstOwner_of_frozen (hlocks : h.KeepsLocks h') (hshapes : h.KeepsShapes h')
    {os : List ObjectId} (hfrozen : ∀ x ∈ os, (h.table x).Frozen) (key : String) :
    Option.Rel FoundTo (h.firstOwner key os) (h'.firstOwner key os) := by
  induction os with
  | nil => exact .none
  | cons x rest ih =>
    rw [List.forall_mem_cons] at hfrozen
    rw [firstOwner, firstOwner, List.findSome?_cons, List.findSome?_cons]
    cases hd : (h.table x).lookup key with
    | some d =>
      have hfrozen := hfrozen.1.properties key d hd
      obtain ⟨d', hd', hlock⟩ := hlocks x key d hd hfrozen.configurable
      rw [hd']
      exact .some ⟨rfl, hlock.frozenTo hfrozen⟩
    | none =>
      -- a record that has not lost a key has no room for this one
      have habsent : (h'.table x).lookup key = none := by
        rw [Table.lookup_eq_none_iff, keys_eq_of_frozen hlocks hshapes hfrozen.1,
          ← Table.lookup_eq_none_iff, hd]
      rw [habsent]
      exact ih hfrozen.2

theorem Admits.keepsChain {events : List Event} (hadmits : h.Admits events)
    {start : Option ObjectId} {os : List ObjectId} (ha : h.Ascent start os)
    (hfrozen : ∀ x ∈ os, (h.table x).Frozen) :
    (events.foldl after h).chain start = h.chain start ∧
      (events.foldl after h).strayEnd? start = h.strayEnd? start ∧
      ∀ key, Option.Rel FoundTo (h.findProperty start key)
        ((events.foldl after h).findProperty start key) := by
  obtain ⟨hchain, hend⟩ := ha.chain_congr (size_le_foldl h events) fun x hx =>
    (hadmits.keepsShapes x (hfrozen x hx).extensible).2.1
  refine ⟨hchain, hend, fun key => ?_⟩
  rw [findProperty_eq_firstOwner, findProperty_eq_firstOwner, hchain, ha.chain_eq]
  exact firstOwner_of_frozen hadmits.keepsLocks hadmits.keepsShapes hfrozen key

end Heap

end ObjectModel
