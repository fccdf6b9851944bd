import ObjectModel.Proofs.Heap.Frozen
import ObjectModel.Proofs.Script.Closed

/-!
Frozen records in runs. From the moment of its freezing on a record stays as it is, whatever is done
to it, except that a number may come back as the same number of the other type. Where a whole chain
is frozen, everything that is found along it stays.
-/

namespace ObjectModel

def Event.frozen? : Event → Option ObjectId
  | changed (.freeze o) => some o
  | _ => none

theorem Event.frozen?_eq_some {event : Event} {o : ObjectId} (h : event.frozen? = some o) :
    event = .changed (.freeze o) := by
  unfold frozen? at h
  split at h
  · cases h
    rfl
  · cases h

def Value.identical : Value → Value → Bool
  | float x _, float y _ => x == y
  | a, b => a == b

def Slot.identical : Slot → Slot → Bool
  | .value v _, .value v' _ => v.identical v'
  | .accessor get set, .accessor get' set' => get == get' && set == set'
  | _, _ => false

namespace Script.Program

/--
A record that was frozen has the same keys in the same order at every later moment, keeps its link,
takes no properties, and has each property frozen as it was, with the same flags and the same
functions or a value that is the same.
-/
theorem frozen_heapAt (p : Program) {n m : Nat} (hnm : n < m) {o : ObjectId}
    (ho : o < (p.heapAt n).size) (hfreeze : p.events[n]?.bind Event.frozen? = some o) :
    ((p.heapAt m).table o).keys = ((p.heapAt (n + 1)).table o).keys ∧
      (p.heapAt m).link o = (p.heapAt (n + 1)).link o ∧
      ((p.heapAt m).table o).extensible = false ∧
      ∀ key d, ((p.heapAt (n + 1)).table o).lookup key = some d →
        ∃ d', ((p.heapAt m).table o).lookup key = some d' ∧ d.FrozenTo d' := by
  obtain ⟨event, hevent, hfrozen?⟩ := Option.bind_eq_some_iff.1 hfreeze
  have hfrozen : ((p.heapAt (n + 1)).table o).Frozen := by
    rw [heapAt_succ hevent, Event.frozen?_eq_some hfrozen?, Heap.after, Heap.table_freeze ho]
    exact Table.frozen_freeze _
  obtain ⟨events, hadmits, hm⟩ := p.exists_admits_between hnm
  rw [hm]
  obtain ⟨hextensible, hlink, -⟩ := hadmits.keepsShapes o hfrozen.extensible
  have hkeys := Heap.keys_eq_of_frozen hadmits.keepsLocks hadmits.keepsShapes hfrozen
  exact ⟨hkeys, hlink, hextensible, fun key d => hadmits.keepsFrozen hfrozen⟩

def retyping : Program where
  steps := [
    .bind "o" (.operation (.createObject none)),
    .operation (.set (.variable "o") (.literal (.str "k")) (.literal (.int 1)) none),
    .operation (.freeze (.variable "o")),
    .operation (.defineOwn (.variable "o") (.literal (.str "k"))
      (.valueDescriptor (some (.float (.round false 1 1))) (some (.literal (.bool false))) none
        (some (.literal (.bool false))))),
    .operation (.set (.variable "o") (.literal (.str "k")) (.literal (.int 2)) none),
    .operation (.delete (.variable "o") (.literal (.str "k"))),
    .operation (.setPrototype (.variable "o") (.operation (.createObject none)))]

theorem frozen_heapAt_retyping :
    ((retyping.heapAt retyping.events.length).table 0).keys = ((retyping.heapAt 3).table 0).keys ∧
      ∃ d', ((retyping.heapAt retyping.events.length).table 0).lookup "k" = some d' ∧
        (Descriptor.ofValue (.int 1)).freeze.FrozenTo d' := by
  have hlookup : ((retyping.heapAt 3).table 0).lookup "k" =
      some (Descriptor.ofValue (.int 1)).freeze := by
    decide +kernel
  have hlt : 2 < retyping.events.length := by decide +kernel
  obtain ⟨hkeys, -, -, hproperties⟩ :=
    frozen_heapAt retyping hlt (o := 0) (by decide +kernel) (by decide +kernel)
  exact ⟨hkeys, hproperties "k" _ hlookup⟩

theorem not_identical_of_frozen :
    ¬ ∀ (p : Program) (n m : Nat) (o : ObjectId), n < m → o < (p.heapAt n).size →
      p.events[n]?.bind Event.frozen? = some o →
      ∀ key d, ((p.heapAt (n + 1)).table o).lookup key = some d →
        ∃ d', ((p.heapAt m).table o).lookup key = some d' ∧ d.slot.identical d'.slot := by
  intro h
  have hlookup : ((retyping.heapAt 3).table 0).lookup "k" =
      some (Descriptor.ofValue (.int 1)).freeze := by
    decide +kernel
  obtain ⟨d', hd', hidentical⟩ :=
    h retyping 2 4 0 (by decide) (by decide +kernel) (by decide +kernel) "k" _ hlookup
  have hvalue : ((retyping.heapAt 4).table 0).lookup "k" =
      some { slot := .value (.float (.round false 1 1) 1) false, configurable := false } := by
    decide +kernel
  rw [hvalue] at hd'
  cases hd'
  revert hidentical
  decide

/--
If all records on a chain are frozen at some moment, then at every later one the chain and its end
are what they were, and each key is found at the same record and frozen as it was, or still nowhere.
-/
theorem frozenChain_heapAt (p : Program) {n m : Nat} (hnm : n ≤ m) {o : ObjectId}
    (ho : o < (p.heapAt n).size)
    (hfrozen : ∀ x ∈ (p.heapAt n).chain (some o), ((p.heapAt n).table x).Frozen) :
    (p.heapAt m).chain (some o) = (p.heapAt n).chain (some o) ∧
      (p.heapAt m).strayEnd? (some o) = (p.heapAt n).strayEnd? (some o) ∧
      ∀ key, Option.Rel Heap.FoundTo ((p.heapAt n).findProperty (some o) key)
        ((p.heapAt m).findProperty (some o) key) := by
  obtain ⟨os, ha⟩ := p.settled_heapAt n o ho
  rw [ha.chain_eq] at hfrozen
  obtain ⟨events, hadmits, hm⟩ := p.exists_admits_between hnm
  rw [hm]
  exact hadmits.keepsChain ha hfrozen

def resolving : Program where
  steps := [
    .bind "root" (.operation (.createObject none)),
    .operation (.defineOwn (.variable "root") (.literal (.str "up"))
      (.accessor (some (.literal (.function "meddle"))) none none none)),
    .operation (.set (.variable "root") (.literal (.str "n")) (.literal (.int 1)) none),
    .operation (.freeze (.variable "root")),
    .bind "middle" (.operation (.createObject (some (.variable "root")))),
    .operation (.set (.variable "middle") (.literal (.str "k")) (.literal (.int 2)) none),
    .operation (.freeze (.variable "middle")),
    .bind "leaf" (.operation (.createObject (some (.variable "middle")))),
    .operation (.preventExtensions (.variable "leaf")),
    .operation (.defineOwn (.variable "root") (.literal (.str "n"))
      (.valueDescriptor (some (.float (.round false 1 1))) (some (.literal (.bool false))) none
        (some (.literal (.bool false))))),
    .operation (.set (.variable "leaf") (.literal (.str "n")) (.literal (.int 3)) none),
    .operation (.setPrototype (.variable "leaf") (.literal .none)),
    .bind "child" (.operation (.createObject (some (.variable "leaf")))),
    .operation (.defineOwn (.variable "child") (.literal (.str "k"))
      (.valueDescriptor (some (.literal (.int 4))) none none none)),
    .operation (.get (.variable "child") (.literal (.str "up")) none),
    .operation (.delete (.variable "middle") (.literal (.str "k")))]
  functions := [("meddle", [
    .operation (.defineOwn .this (.literal (.str "up"))
      (.valueDescriptor (some (.literal (.int 5))) none none none)),
    .operation (.setPrototype .this (.variable "middle")),
    .operation (.setPrototype (.variable "middle") .this)])]

theorem frozenChain_heapAt_resolving :
    (∀ x ∈ (resolving.heapAt 10).chain (some 2), ((resolving.heapAt 10).table x).Frozen) ∧
      (resolving.heapAt 10).findProperty (some 2) "n" =
        some (0, (Descriptor.ofValue (.int 1)).freeze) ∧
      (resolving.heapAt resolving.events.length).chain (some 2) = [2, 1, 0] ∧
      ∃ d', (resolving.heapAt resolving.events.length).findProperty (some 2) "n" = some (0, d') ∧
        (Descriptor.ofValue (.int 1)).freeze.FrozenTo d' := by
  have hle : 10 ≤ resolving.events.length := by decide +kernel
  have hchain : (resolving.heapAt 10).chain (some 2) = [2, 1, 0] := by decide +kernel
  have hfrozen : ∀ x ∈ (resolving.heapAt 10).chain (some 2),
      ((resolving.heapAt 10).table x).Frozen := by
    decide +kernel
  have hfound : (resolving.heapAt 10).findProperty (some 2) "n" =
      some (0, (Descriptor.ofValue (.int 1)).freeze) := by
    decide +kernel
  obtain ⟨hchain', -, hfound'⟩ :=
    frozenChain_heapAt resolving hle (o := 2) (by decide +kernel) hfrozen
  refine ⟨hfrozen, hfound, hchain'.trans hchain, ?_⟩
  have hfound' := hfound' "n"
  rw [hfound] at hfound'
  cases hlast : (resolving.heapAt resolving.events.length).findProperty (some 2) "n" with
  | none =>
    rw [hlast] at hfound'
    cases hfound'
  | some found =>
    rw [hlast] at hfound'
    obtain ⟨holder, d'⟩ := found
    cases hfound' with
    | some h =>
      obtain ⟨rfl, hd'⟩ := h
      exact ⟨d', rfl, hd'⟩

end Script.Program

end ObjectModel
