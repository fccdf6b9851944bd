import ObjectModel.Error

/-!
The property table of one record: its properties in the order in which their keys were added, and
whether more may be added.
-/

namespace ObjectModel

namespace Table

def putEntry (key : String) (d : Descriptor) :
    List (String × Descriptor) → List (String × Descriptor)
  | [] => [(key, d)]
  | entry :: rest => if entry.1 = key then (key, d) :: rest else entry :: putEntry key d rest

theorem keys_putEntry (key : String) (d : Descriptor) (entries : List (String × Descriptor)) :
    (putEntry key d entries).map Prod.fst =
      if key ∈ entries.map Prod.fst then entries.map Prod.fst
      else entries.map Prod.fst ++ [key] := by
  induction entries with
  | nil => rfl
  | cons entry rest ih =>
    by_cases h : entry.1 = key
    · simp [putEntry, h]
    · have h' : ¬ key = entry.1 := fun e => h e.symm
      by_cases hr : key ∈ rest.map Prod.fst <;> simp_all [putEntry]

theorem nodup_putEntry (key : String) (d : Descriptor) {entries : List (String × Descriptor)}
    (h : (entries.map Prod.fst).Nodup) : ((putEntry key d entries).map Prod.fst).Nodup := by
  rw [keys_putEntry]
  split
  · exact h
  · rename_i hk
    refine List.nodup_append.2 ⟨h, by simp, ?_⟩
    intro a ha b hb hab
    simp only [List.mem_singleton] at hb
    exact hk (hb ▸ hab ▸ ha)

end Table

structure Table where
  entries : List (String × Descriptor)
  extensible : Bool
  nodup : (entries.map Prod.fst).Nodup

namespace Table

def empty : Table where
  entries := []
  extensible := true
  nodup := List.nodup_nil

instance : Inhabited Table := ⟨empty⟩

def keys (t : Table) : List String :=
  t.entries.map Prod.fst

def lookup (t : Table) (key : String) : Option Descriptor :=
  t.entries.lookup key

def contains (t : Table) (key : String) : Bool :=
  (t.lookup key).isSome

def enumerableKeys (t : Table) : List String :=
  (t.entries.filter (·.2.enumerable.holds)).map Prod.fst

def refusal? (equal : Value → Value → Bool) (t : Table) (key : String) (d : Descriptor) :
    Option ModelError :=
  match t.lookup key with
  | some current => (current.conflict? equal d).map (.conflict key)
  | none => if t.extensible then none else some (.notExtensible key)

def removable (t : Table) (key : String) : Bool :=
  match t.lookup key with
  | some d => d.configurable.holds
  | none => false

def put (t : Table) (key : String) (d : Descriptor) : Table where
  entries := putEntry key d t.entries
  extensible := t.extensible
  nodup := nodup_putEntry key d t.nodup

def remove (t : Table) (key : String) : Table where
  entries := t.entries.filter (·.1 != key)
  extensible := t.extensible
  nodup := t.nodup.sublist (List.Sublist.map _ List.filter_sublist)

def preventExtensions (t : Table) : Table :=
  { t with extensible := false }

def freeze (t : Table) : Table where
  entries := t.entries.map fun entry => (entry.1, entry.2.freeze)
  extensible := false
  nodup := by
    have h := t.nodup
    rw [List.map_map]
    exact h

end Table

end ObjectModel
