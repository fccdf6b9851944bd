import ObjectModel.Proofs.Heap.Admissible
import ObjectModel.Proofs.Table

/-!
What one event does to the list of a record's own keys. A key that is there is never moved: what is
new comes last, and what goes leaves the others in their order.
-/

namespace ObjectModel

namespace Table

/--
The second list of keys is the first one, or one key has been added to it or, only if `removes`, has
left it.
-/
inductive KeysStep (removes : Prop) (keys keys' : List String) : Prop
  | kept (h : keys' = keys)
  | added (key : String) (hnew : key ∉ keys) (h : keys' = keys ++ [key])
  | removed (hremoves : removes) (key : String) (h : keys' = keys.filter (· != key))

variable {removes : Prop} {keys keys' : List String}

theorem KeysStep.isPrefix (h : KeysStep removes keys keys') (hstays : ¬ removes) :
    keys <+: keys' := by
  cases h with
  | kept h =>
    subst h
    exact List.prefix_refl _
  | added key hnew h =>
    subst h
    exact List.prefix_append _ _
  | removed hremoves key h => exact absurd hremoves hstays

theorem keysStep_put (t : Table) (key : String) (d : Descriptor) :
    KeysStep removes t.keys (t.put key d).keys := by
  by_cases hkey : key ∈ t.keys
  · exact .kept (by rw [keys_put, if_pos hkey])
  · exact .added key hkey (by rw [keys_put, if_neg hkey])

end Table

namespace Heap

open Table (KeysStep)

theorem keysStep_updateTable {removes : Prop} {f : Table → Table}
    (hf : ∀ t : Table, KeysStep removes t.keys (f t).keys) (h : Heap) (o x : ObjectId) :
    KeysStep removes (h.table o).keys ((h.updateTable x f).table o).keys := by
  rw [table_updateTable]
  split
  · exact hf _
  · exact .kept rfl

theorem keysStep_after (h : Heap) (event : Event) (o : ObjectId) :
    KeysStep event.Removes (h.table o).keys ((h.after event).table o).keys := by
  cases event with
  | logged => exact .kept rfl
  | condoned => exact .kept rfl
  | changed change =>
    cases change with
    | allocate link c counted => exact .kept (by rw [after, table_allocate])
    | relink x prototype => exact .kept (by rw [after, table_relink])
    | define x key d => exact keysStep_updateTable (fun t => t.keysStep_put key d) h o x
    | remove x key =>
      exact keysStep_updateTable (fun t => .removed trivial key (t.keys_remove key)) h o x
    | preventExtensions x =>
      exact keysStep_updateTable (fun t => .kept t.keys_preventExtensions) h o x
    | freeze x => exact keysStep_updateTable (fun t => .kept t.keys_freeze) h o x

end Heap

end ObjectModel
