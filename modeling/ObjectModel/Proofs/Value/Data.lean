import Mathlib.Data.List.Perm.Subperm
import ObjectModel.Pool.Basic

/-!
Values with all that is in them, as trees. A dict that can be reached in more than one way is in a
tree once for each of them, and a dict that contains itself has no tree.
-/

namespace ObjectModel

def Value.IsLeaf : Value → Prop
  | dict _ | object _ => False
  | _ => True

instance (v : Value) : Decidable v.IsLeaf := by
  unfold Value.IsLeaf
  split <;> infer_instance

mutual

inductive Data
  | leaf (v : Value)
  | dict (entries : Entries)

inductive Entries
  | nil
  | cons (key : Value) (value : Data) (rest : Entries)

end

mutual

inductive Pool.Holds (p : Pool) : Value → Data → Prop
  | leaf {v : Value} (hv : v.IsLeaf) : Holds p v (.leaf v)
  | dict {id : Nat} {entries : Entries} (hentries : HoldsAll p (p.dict id) entries) :
    Holds p (.dict id) (.dict entries)

inductive Pool.HoldsAll (p : Pool) : List (Value × Value) → Entries → Prop
  | nil : HoldsAll p [] .nil
  | cons {key v : Value} {d : Data} {pairs : List (Value × Value)} {rest : Entries}
    (hd : Holds p v d) (hrest : HoldsAll p pairs rest) :
    HoldsAll p ((key, v) :: pairs) (.cons key d rest)

end

def Value.name (key : Value) : String :=
  key.key?.getD ""

theorem Value.key?_eq_name {key : Value} (hkey : key.key?.isSome = true) :
    key.key? = some key.name := by
  obtain ⟨name, hname⟩ := Option.isSome_iff_exists.1 hkey
  rw [Value.name, hname, Option.getD_some]

def Entries.names : Entries → List String
  | nil => []
  | cons key _ rest => key.name :: rest.names

mutual

def Data.dicts : Data → Nat
  | .leaf _ => 0
  | .dict entries => entries.dicts + 1

def Entries.dicts : Entries → Nat
  | .nil => 0
  | .cons _ d rest => d.dicts + rest.dicts

end

mutual

def Data.height : Data → Nat
  | .leaf _ => 1
  | .dict entries => entries.height + 1

def Entries.height : Entries → Nat
  | .nil => 0
  | .cons _ d rest => max d.height rest.height

end

mutual

def Data.keys : Data → List String
  | .leaf _ => []
  | .dict entries => entries.keys

def Entries.keys : Entries → List String
  | .nil => []
  | .cons key d rest => key.name :: (d.keys ++ rest.keys)

end

mutual

/-- In each dict all entries stand for properties, and for different ones. -/
def Data.Proper : Data → Prop
  | .leaf v => v.IsLeaf
  | .dict entries => entries.names.Nodup ∧ entries.Proper

def Entries.Proper : Entries → Prop
  | .nil => True
  | .cons key d rest => key.key?.isSome = true ∧ d.Proper ∧ rest.Proper

end

def Value.normal : Value → Value
  | undefined => none
  | v => v

mutual

def Data.normal : Data → Data
  | .leaf v => .leaf v.normal
  | .dict entries => .dict entries.normal

def Entries.normal : Entries → Entries
  | .nil => .nil
  | .cons key d rest => .cons (.str key.name) d.normal rest.normal

end

namespace Pool

variable {p : Pool}

mutual

theorem Holds.unique : ∀ {v : Value} {d d' : Data}, p.Holds v d → p.Holds v d' → d = d'
  | _, .leaf _, _, .leaf _, .leaf _ => rfl
  | _, .dict _, _, .dict hentries, .dict hentries' => congrArg Data.dict (hentries.unique hentries')
  | _, .leaf _, .dict _, .leaf hv, .dict _ => hv.elim
  | _, .dict _, .leaf _, .dict _, .leaf hv => hv.elim

theorem HoldsAll.unique : ∀ {pairs : List (Value × Value)} {entries entries' : Entries},
    p.HoldsAll pairs entries → p.HoldsAll pairs entries' → entries = entries'
  | _, .nil, _, .nil, .nil => rfl
  | _, .cons _ _ _, _, .cons hd hrest, .cons hd' hrest' => by
    rw [hd.unique hd', hrest.unique hrest']

end

theorem HoldsAll.names_eq {pairs : List (Value × Value)} {entries : Entries}
    (hentries : p.HoldsAll pairs entries) :
    entries.names = pairs.map fun entry => entry.1.name := by
  induction pairs generalizing entries with
  | nil =>
    cases hentries
    rfl
  | cons entry pairs ih =>
    cases hentries with
    | cons hd hrest => rw [Entries.names, ih hrest, List.map_cons]

theorem HoldsAll.exists_of_mem {pairs : List (Value × Value)} {entries : Entries}
    (hentries : p.HoldsAll pairs entries) {entry : Value × Value} (hmem : entry ∈ pairs) :
    ∃ d, p.Holds entry.2 d ∧ d.height ≤ entries.height := by
  induction pairs generalizing entries with
  | nil => cases hmem
  | cons first pairs ih =>
    cases hentries with
    | cons hd hrest =>
      rw [Entries.height]
      obtain rfl | hmem := List.mem_cons.1 hmem
      · exact ⟨_, hd, Nat.le_max_left _ _⟩
      · obtain ⟨d, hd', hle⟩ := ih hrest hmem
        exact ⟨d, hd', Nat.le_trans hle (Nat.le_max_right _ _)⟩

theorem exists_holdsAll {pairs : List (Value × Value)}
    (hpairs : ∀ entry ∈ pairs, entry.1.key?.isSome = true ∧ ∃ d, p.Holds entry.2 d ∧ d.Proper) :
    ∃ entries, p.HoldsAll pairs entries ∧ entries.Proper := by
  induction pairs with
  | nil => exact ⟨.nil, .nil, trivial⟩
  | cons entry pairs ih =>
    obtain ⟨⟨hkey, d, hd, hproper⟩, hrest⟩ := List.forall_mem_cons.1 hpairs
    obtain ⟨rest, hholds, hproper'⟩ := ih hrest
    exact ⟨.cons entry.1 d rest, .cons hd hholds, hkey, hproper, hproper'⟩

structure Orderly (p : Pool) (P : Nat → Prop) : Prop where
  key : ∀ id, P id → ∀ entry ∈ p.dict id, entry.1.key?.isSome = true
  nodup : ∀ id, P id → ((p.dict id).map fun entry => entry.1.name).Nodup
  value : ∀ id, P id → ∀ entry ∈ p.dict id, entry.2.IsLeaf ∨ ∃ id', P id' ∧ entry.2 = .dict id'

structure Above (p : Pool) (ids : List Nat) (height : Nat) : Prop where
  nodup : ids.Nodup
  lt_size : ∀ id ∈ ids, id < p.dicts.size
  higher : ∀ id ∈ ids, ∃ d, p.Holds (.dict id) d ∧ height < d.height

theorem Above.length_le {ids : List Nat} {height : Nat} (habove : p.Above ids height) :
    ids.length ≤ p.dicts.size := by
  have hsub : ids ⊆ List.range p.dicts.size :=
    fun id hid => List.mem_range.2 (habove.lt_size id hid)
  simpa using (List.subperm_of_subset habove.nodup hsub).length_le

theorem Above.mono {ids : List Nat} {height height' : Nat} (habove : p.Above ids height)
    (hle : height' ≤ height) : p.Above ids height' := by
  refine ⟨habove.nodup, habove.lt_size, fun id hid => ?_⟩
  obtain ⟨d, hd, hlt⟩ := habove.higher id hid
  exact ⟨d, hd, Nat.lt_of_le_of_lt hle hlt⟩

theorem Above.cons {ids : List Nat} {id : Nat} {entries : Entries}
    (habove : p.Above ids (Data.dict entries).height) (hd : p.Holds (.dict id) (.dict entries))
    (hid : id < p.dicts.size) : p.Above (id :: ids) entries.height := by
  have hlt : entries.height < (Data.dict entries).height := Nat.lt_succ_self _
  have hrest := habove.mono (Nat.le_of_lt hlt)
  refine ⟨List.nodup_cons.2 ⟨fun hmem => ?_, habove.nodup⟩, ?_, ?_⟩
  · obtain ⟨d, hd', hhigher⟩ := habove.higher id hmem
    rw [hd'.unique hd] at hhigher
    exact Nat.lt_irrefl _ hhigher
  · exact List.forall_mem_cons.2 ⟨hid, hrest.lt_size⟩
  · exact List.forall_mem_cons.2 ⟨⟨_, hd, hlt⟩, hrest.higher⟩

theorem dict_of_size_le {id : Nat} (hid : p.dicts.size ≤ id) : p.dict id = [] := by
  rw [dict, Array.getElem?_eq_none hid]
  rfl

mutual

theorem height_add_le (d : Data) {v : Value} {ids : List Nat} (hd : p.Holds v d)
    (habove : p.Above ids d.height) : d.height + ids.length ≤ p.dicts.size + 1 := by
  have hids := habove.length_le
  cases d with
  | leaf v =>
    rw [Data.height]
    omega
  | dict entries =>
    rw [Data.height]
    cases hd with
    | @dict id _ hentries =>
      by_cases hid : id < p.dicts.size
      · have hle := height_add_le_of_all entries hentries (habove.cons (.dict hentries) hid)
        rw [List.length_cons] at hle
        omega
      · -- what is no dict of the pool has no entries, so that its tree is low
        rw [dict_of_size_le (Nat.le_of_not_lt hid)] at hentries
        cases hentries
        rw [Entries.height]
        omega

theorem height_add_le_of_all (entries : Entries) {pairs : List (Value × Value)} {ids : List Nat}
    (hentries : p.HoldsAll pairs entries) (habove : p.Above ids entries.height) :
    entries.height + ids.length ≤ p.dicts.size + 1 := by
  have hids := habove.length_le
  cases entries with
  | nil =>
    rw [Entries.height]
    omega
  | cons key d rest =>
    rw [Entries.height] at habove ⊢
    cases hentries with
    | cons hd hrest =>
      have hle := height_add_le d hd (habove.mono (Nat.le_max_left _ _))
      have hle' := height_add_le_of_all rest hrest (habove.mono (Nat.le_max_right _ _))
      omega

end

theorem Holds.height_le {v : Value} {d : Data} (hd : p.Holds v d) :
    d.height ≤ p.dicts.size + 1 := by
  have habove : p.Above [] d.height := ⟨List.nodup_nil, nofun, nofun⟩
  exact height_add_le d hd habove

end Pool

end ObjectModel
