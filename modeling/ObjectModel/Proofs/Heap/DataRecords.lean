import ObjectModel.Proofs.Heap.Extension
import ObjectModel.Proofs.Table
import ObjectModel.Proofs.Value.Data

/-!
Data as records: one for each dict, in the order in which the dicts are met, with a property for
each entry.
-/

namespace ObjectModel

namespace Table

variable {t : Table} {key : String}

theorem putEntry_of_not_mem (d : Descriptor) {entries : List (String × Descriptor)}
    (hnew : key ∉ entries.map Prod.fst) : putEntry key d entries = entries ++ [(key, d)] := by
  induction entries with
  | nil => rfl
  | cons entry rest ih =>
    rw [List.map_cons, List.mem_cons, not_or] at hnew
    rw [putEntry, if_neg (Ne.symm hnew.1), ih hnew.2, List.cons_append]

theorem entries_put (d : Descriptor) (hnew : key ∉ t.keys) :
    (t.put key d).entries = t.entries ++ [(key, d)] :=
  putEntry_of_not_mem d hnew

theorem enumerableKeys_eq_keys (hheld : ∀ entry ∈ t.entries, ∃ v, entry.2 = .ofValue v) :
    t.enumerableKeys = t.keys := by
  have hall : t.entries.filter (·.2.enumerable.holds) = t.entries := by
    rw [List.filter_eq_self]
    intro entry hentry
    obtain ⟨v, hv⟩ := hheld entry hentry
    rw [hv]
    rfl
  rw [enumerableKeys, hall, keys]

end Table

def Value.stored : Value → Value
  | none => undefined
  | v => v

theorem Value.IsLeaf.stored {v : Value} (hv : v.IsLeaf) : v.stored.IsLeaf := by
  unfold Value.stored
  split
  · trivial
  · exact hv

theorem Value.IsLeaf.ne_object {v : Value} (hv : v.IsLeaf) (o : Nat) : v ≠ .object o := by
  rintro rfl
  exact hv

def Data.value : Data → Nat → Value
  | leaf v, _ => v.stored
  | dict _, o => .object o

namespace Entries

def properties : Entries → Nat → List (String × Descriptor)
  | nil, _ => []
  | cons key d rest, o => (key.name, .ofValue (d.value o)) :: rest.properties (o + d.dicts)

def fill : Entries → Nat → Table → Table
  | nil, _, t => t
  | cons key d rest, o, t => rest.fill (o + d.dicts) (t.put key.name (.ofValue (d.value o)))

structure Fits (entries : Entries) (t : Table) : Prop where
  nodup : entries.names.Nodup
  new : ∀ name ∈ entries.names, name ∉ t.keys

theorem Fits.of_empty {entries : Entries} (hnodup : entries.names.Nodup) :
    entries.Fits .empty :=
  ⟨hnodup, fun _ _ => nofun⟩

theorem Fits.rest {key : Value} {d : Data} {rest : Entries} {t : Table}
    (hfits : (cons key d rest).Fits t) (new : Descriptor) : rest.Fits (t.put key.name new) := by
  obtain ⟨hnodup, hnew⟩ := hfits
  rw [names, List.nodup_cons] at hnodup
  rw [names, List.forall_mem_cons] at hnew
  refine ⟨hnodup.2, fun name hname hmem => ?_⟩
  rw [Table.keys_put, if_neg hnew.1, List.mem_append, List.mem_singleton] at hmem
  obtain hold | rfl := hmem
  · exact hnew.2 name hname hold
  · exact hnodup.1 hname

theorem entries_fill : ∀ (entries : Entries) (o : Nat) {t : Table}, entries.Fits t →
    (entries.fill o t).entries = t.entries ++ entries.properties o
  | nil, _, _, _ => (List.append_nil _).symm
  | cons key d rest, o, t, hfits => by
    have hnew : key.name ∉ t.keys := hfits.new key.name List.mem_cons_self
    rw [fill, entries_fill rest _ (hfits.rest _), Table.entries_put _ hnew, List.append_assoc,
      properties, List.singleton_append]

end Entries

mutual

def Data.records (link : Value) : Data → Nat → List Record
  | .leaf _, _ => []
  | .dict entries, o =>
    { link, table := entries.fill (o + 1) .empty } :: entries.records link (o + 1)

def Entries.records (link : Value) : Entries → Nat → List Record
  | .nil, _ => []
  | .cons _ d rest, o => d.records link o ++ rest.records link (o + d.dicts)

end

mutual

@[simp]
theorem Data.length_records (link : Value) (o : Nat) :
    ∀ d : Data, (d.records link o).length = d.dicts
  | .leaf _ => rfl
  | .dict entries => by
    rw [Data.records, List.length_cons, entries.length_records link (o + 1), Data.dicts]

@[simp]
theorem Entries.length_records (link : Value) (o : Nat) :
    ∀ entries : Entries, (entries.records link o).length = entries.dicts
  | .nil => rfl
  | .cons _ d rest => by
    rw [Entries.records, List.length_append, d.length_records link o,
      rest.length_records link (o + d.dicts), Entries.dicts]

end

/-- A record that stands for a dict of data whose records are from `o` on and before `stop`. -/
structure Record.StandsFor (record : Record) (link : Value) (o stop : Nat) : Prop where
  link : record.link = link
  counted : record.counted = true
  held : ∀ entry ∈ record.table.entries, ∃ v, entry.2 = .ofValue v ∧
    ∀ y : Nat, v = .object y → o ≤ y ∧ y < stop

theorem Record.StandsFor.mono {record : Record} {link : Value} {o stop o' stop' : Nat}
    (hrecord : record.StandsFor link o stop) (ho : o' ≤ o) (hstop : stop ≤ stop') :
    record.StandsFor link o' stop' := by
  refine ⟨hrecord.link, hrecord.counted, fun entry hentry => ?_⟩
  obtain ⟨v, hv, hobject⟩ := hrecord.held entry hentry
  exact ⟨v, hv, fun y hy => ⟨Nat.le_trans ho (hobject y hy).1,
    Nat.lt_of_lt_of_le (hobject y hy).2 hstop⟩⟩

theorem Data.value_eq_object {d : Data} (hd : d.Proper) {o y : Nat}
    (hy : d.value o = .object y) : y = o ∧ 0 < d.dicts := by
  cases d with
  | leaf v => exact absurd hy ((Value.IsLeaf.stored hd).ne_object y)
  | dict entries =>
    cases hy
    exact ⟨rfl, Nat.succ_pos _⟩

theorem Entries.held_properties : ∀ (entries : Entries) (o : Nat), entries.Proper →
    ∀ entry ∈ entries.properties o, ∃ v, entry.2 = .ofValue v ∧
      ∀ y : Nat, v = .object y → o ≤ y ∧ y < o + entries.dicts
  | .nil, _, _ => List.forall_mem_nil _
  | .cons key d rest, o, hproper => by
    rw [Entries.Proper] at hproper
    rw [properties, Entries.dicts, List.forall_mem_cons]
    refine ⟨⟨_, rfl, fun y hy => ?_⟩, fun entry hentry => ?_⟩
    · obtain ⟨rfl, hpos⟩ := Data.value_eq_object hproper.2.1 hy
      omega
    · obtain ⟨v, hv, hobject⟩ := held_properties rest _ hproper.2.2 entry hentry
      refine ⟨v, hv, fun y hy => ?_⟩
      have := hobject y hy
      omega

mutual

theorem Data.standsFor_of_mem (link : Value) : ∀ (d : Data) (o : Nat), d.Proper →
    ∀ record ∈ d.records link o, record.StandsFor link o (o + d.dicts)
  | .leaf _, _, _ => List.forall_mem_nil _
  | .dict entries, o, hproper => by
    rw [Data.Proper] at hproper
    rw [Data.records, Data.dicts, List.forall_mem_cons]
    refine ⟨⟨rfl, rfl, fun entry hentry => ?_⟩, fun record hrecord => ?_⟩
    · have hfill := entries.entries_fill (o + 1) (.of_empty hproper.1)
      rw [hfill, Table.empty, List.nil_append] at hentry
      obtain ⟨v, hv, hobject⟩ := entries.held_properties (o + 1) hproper.2 entry hentry
      refine ⟨v, hv, fun y hy => ?_⟩
      have := hobject y hy
      omega
    · have hstands := entries.standsFor_of_mem link (o + 1) hproper.2 record hrecord
      exact hstands.mono (by omega) (by omega)

theorem Entries.standsFor_of_mem (link : Value) : ∀ (entries : Entries) (o : Nat),
    entries.Proper → ∀ record ∈ entries.records link o,
      record.StandsFor link o (o + entries.dicts)
  | .nil, _, _ => List.forall_mem_nil _
  | .cons _ d rest, o, hproper => by
    rw [Entries.Proper] at hproper
    rw [Entries.records, Entries.dicts]
    intro record hrecord
    obtain hrecord | hrecord := List.mem_append.1 hrecord
    · exact (d.standsFor_of_mem link o hproper.2.1 record hrecord).mono (by omega) (by omega)
    · exact (rest.standsFor_of_mem link _ hproper.2.2 record hrecord).mono (by omega) (by omega)

end

mutual

def Data.Stands (h : Heap) : Data → Nat → Prop
  | .leaf _, _ => True
  | .dict entries, o =>
    o < h.size ∧ (h.table o).entries = entries.properties (o + 1) ∧ entries.Stand h (o + 1)

def Entries.Stand (h : Heap) : Entries → Nat → Prop
  | .nil, _ => True
  | .cons _ d rest, o => d.Stands h o ∧ rest.Stand h (o + d.dicts)

end

mutual

theorem Data.stands_extend (h : Heap) (link : Value) : ∀ (d : Data) (before after : List Record),
    d.Proper →
      d.Stands (h.extend (before ++ (d.records link (h.size + before.length) ++ after)))
        (h.size + before.length)
  | .leaf _, _, _, _ => trivial
  | .dict entries, before, after, hproper => by
    rw [Data.Proper] at hproper
    have hfill := entries.entries_fill (h.size + before.length + 1) (.of_empty hproper.1)
    have hrest := entries.stand_extend h link
      (before ++ [⟨link, entries.fill (h.size + before.length + 1) .empty, none, true⟩]) after
      hproper.2
    rw [List.length_append, List.length_singleton, ← Nat.add_assoc, List.append_assoc,
      List.singleton_append, ← List.cons_append] at hrest
    rw [Data.Stands, Data.records]
    refine ⟨?_, ?_, hrest⟩
    · simp
    · rw [List.cons_append, Heap.table_extend, hfill]
      rfl

theorem Entries.stand_extend (h : Heap) (link : Value) : ∀ (entries : Entries)
    (before after : List Record), entries.Proper →
      entries.Stand (h.extend (before ++ (entries.records link (h.size + before.length) ++ after)))
        (h.size + before.length)
  | .nil, _, _, _ => trivial
  | .cons _ d rest, before, after, hproper => by
    rw [Entries.Proper] at hproper
    have hfirst := d.stands_extend h link before
      (rest.records link (h.size + before.length + d.dicts) ++ after) hproper.2.1
    have hrest := rest.stand_extend h link (before ++ d.records link (h.size + before.length)) after
      hproper.2.2
    rw [List.length_append, Data.length_records, ← Nat.add_assoc, List.append_assoc] at hrest
    rw [Entries.Stand, Entries.records, List.append_assoc]
    exact ⟨hfirst, hrest⟩

end

end ObjectModel
