import ObjectModel.Proofs.Heap.Closed
import ObjectModel.Proofs.Heap.Integrity

/-!
What a locked property holds stays until another value is put in its place, and a constructor stays
one.
-/

namespace ObjectModel

namespace Descriptor

def value? (d : Descriptor) : Option Value :=
  match d.slot with
  | .value value _ => some value
  | .accessor .. => none

theorem value?_freeze (d : Descriptor) : d.freeze.value? = d.value? := by
  obtain ⟨slot, enumerable, configurable⟩ := d
  cases slot <;> rfl

theorem Within.value? {n : Nat} {d : Descriptor} {v : Value} (hd : d.Within n)
    (hv : d.value? = some v) : v.Within n := by
  obtain ⟨slot, enumerable, configurable⟩ := d
  cases slot with
  | accessor => cases hv
  | value value writable =>
    cases hv
    exact (within_value.1 hd).1

end Descriptor

def Event.Replaces (h : Heap) (o : ObjectId) (key : String) : Event → Prop
  | changed (.define x j d) =>
    x = o ∧ j = key ∧ d.value? ≠ ((h.table o).lookup key).bind Descriptor.value?
  | _ => False

instance (h : Heap) (o : ObjectId) (key : String) : DecidablePred (Event.Replaces h o key)
  | .changed (.define x j d) =>
    inferInstanceAs (Decidable (x = o ∧ j = key ∧
      d.value? ≠ ((h.table o).lookup key).bind Descriptor.value?))
  | .changed (.allocate ..) | .changed (.remove ..) | .changed (.preventExtensions _)
  | .changed (.freeze _) | .changed (.relink ..) | .logged _ | .condoned _ =>
    inferInstanceAs (Decidable False)

namespace Heap

def Holds (h : Heap) (o : ObjectId) (key : String) (v : Value) : Prop :=
  ∃ d, (h.table o).lookup key = some d ∧ d.configurable.holds = false ∧ d.value? = some v

variable {h : Heap} {o : ObjectId} {key : String} {v : Value}

theorem Holds.after (hholds : h.Holds o key v) {event : Event} (hadm : event.Admissible h)
    (hkeeps : ¬ event.Replaces h o key) : (h.after event).Holds o key v := by
  obtain ⟨d, hd, hlock, hv⟩ := hholds
  cases event with
  | logged => exact ⟨d, hd, hlock, hv⟩
  | condoned => exact ⟨d, hd, hlock, hv⟩
  | changed change =>
    -- the property is there afterwards, so what is left is the value that it holds
    obtain ⟨d', hd', hlocked⟩ := keepsLocks_apply hadm o key d hd hlock
    refine ⟨d', hd', hlocked.configurable, ?_⟩
    have hkept (hkept : (h.table o).lookup key = some d') : d'.value? = some v := by
      rw [hd] at hkept
      cases hkept
      exact hv
    cases change with
    | allocate link c counted =>
      rw [table_allocate] at hd'
      exact hkept hd'
    | relink x prototype =>
      rw [table_relink] at hd'
      exact hkept hd'
    | define x j new =>
      rw [apply, table_updateTable] at hd'
      split at hd'
      · next hx =>
        obtain ⟨rfl, -⟩ := hx
        rw [Table.lookup_put] at hd'
        split at hd'
        · next hj =>
          cases hd'
          have hsame : d'.value? = ((h.table x).lookup key).bind Descriptor.value? :=
            not_not.1 fun hne => hkeeps ⟨rfl, hj.symm, hne⟩
          rw [hsame, hd, Option.bind_some, hv]
        · exact hkept hd'
      · exact hkept hd'
    | remove x j =>
      rw [apply, table_updateTable] at hd'
      split at hd'
      · rw [Table.lookup_remove] at hd'
        split at hd'
        · cases hd'
        · exact hkept hd'
      · exact hkept hd'
    | preventExtensions x =>
      rw [apply, table_updateTable] at hd'
      split at hd'
      · exact hkept hd'
      · exact hkept hd'
    | freeze x =>
      rw [apply, table_updateTable] at hd'
      split at hd'
      · rw [Table.lookup_freeze, hd] at hd'
        cases hd'
        rw [Descriptor.value?_freeze, hv]
      · exact hkept hd'

theorem Holds.constructionPrototype {p : ObjectId} (hholds : h.Holds o "prototype" (.object p))
    (hp : p < h.size) : h.constructionPrototype o = some p := by
  obtain ⟨⟨slot, enumerable, configurable⟩, hd, -, hv⟩ := hholds
  rw [Heap.constructionPrototype, hd]
  cases slot with
  | accessor => cases hv
  | value value writable =>
    cases hv
    exact if_pos hp

theorem lt_size_of_constructor? {c : Constructor} (hc : h.constructor? o = some c) :
    o < h.size := by
  obtain ⟨record, hrecord, -⟩ := Option.bind_eq_some_iff.1 hc
  exact (Array.getElem?_eq_some_iff.1 hrecord).1

theorem Closed.prototype_lt (hc : h.Closed) {p q : ObjectId} (hq : h.prototype p = some q) :
    q < h.size := by
  have hlink := hc.link p
  rw [prototype] at hq
  split at hq
  · next hp =>
    cases hq
    rw [hp] at hlink
    exact hlink
  · cases hq

theorem Closed.lt_size_of_mem_chain (hc : h.Closed) {start : Option ObjectId}
    (hstart : ∀ p ∈ start, p < h.size) (ho : o ∈ h.chain start) : o < h.size := by
  have hgo (steps : Nat) (start : Option ObjectId) (hstart : ∀ p ∈ start, p < h.size)
      (ho : o ∈ chain.go h steps start) : o < h.size := by
    induction steps generalizing start with
    | zero => cases ho
    | succ steps ih =>
      cases start with
      | none => cases ho
      | some p =>
        cases ho with
        | head => exact hstart o rfl
        | tail _ ho => exact ih _ (fun q hq => hc.prototype_lt hq) ho
  exact hgo _ _ hstart ho

theorem constructor?_apply {c : Constructor} (hc : h.constructor? o = some c) (change : Change) :
    (h.apply change).constructor? o = some c := by
  cases change with
  | allocate link c? counted =>
    rw [constructor?_allocate, if_neg (Nat.ne_of_lt (lt_size_of_constructor? hc)), hc]
  | relink x prototype => rw [constructor?_relink, hc]
  | _ => rw [apply, constructor?_updateTable, hc]

theorem Admits.constructor?_eq {events : List Event} (hadmits : h.Admits events) {c : Constructor}
    (hc : h.constructor? o = some c) : (events.foldl Heap.after h).constructor? o = some c :=
  hadmits.rel (R := fun h h' => h.constructor? o = some c → h'.constructor? o = some c)
    (fun _ => id) (fun first second => second ∘ first) (fun _ hc => constructor?_apply hc _) hc

end Heap

end ObjectModel
