import ObjectModel.Proofs.Realm.Commuting
import ObjectModel.Proofs.Script.Closed

/-!
Pairs of assignments at the moments of runs, on records that may inherit from each other.
-/

namespace ObjectModel.Script.Program

open Realm

/--
At every moment of a run two assignments that run no setter may be made in either order, as long as
they are to different records or under different keys. Neither makes a difference to what comes of
the other, and only keys that are both new to one record are in the order of the assignments.
-/
theorem commutes_heapAt (p : Program) (n : Nat) {r : Realm Session} (hr : r.heap = p.heapAt n)
    (call : Caller Session) {o₁ o₂ : ObjectId} (ho₁ : o₁ < r.heap.size) (ho₂ : o₂ < r.heap.size)
    {key₁ key₂ : Value} {k₁ k₂ : String} (hkey₁ : key₁.key? = some k₁) (hkey₂ : key₂.key? = some k₂)
    (hapart : o₁ ≠ o₂ ∨ k₁ ≠ k₂) (hsetter₁ : r.heap.setter? (some o₁) k₁ = none)
    (hsetter₂ : r.heap.setter? (some o₂) k₂ = none) (v₁ v₂ : Value) (strict : Bool) :
    r.Commutes o₁ k₁ v₁ o₂ k₂ v₂ (setProperty call (.object o₁) key₁ v₁ .none strict)
      (setProperty call (.object o₂) key₂ v₂ .none strict) := by
  have hset : r.heap.Settled := by
    rw [hr]
    exact p.settled_heapAt n
  exact commutes_of_settled hset ho₁ ho₂ hkey₁ hkey₂ hapart hsetter₁ hsetter₂ call v₁ v₂ strict

def kinship : Program where
  steps := [
    .bind "top" (.operation (.createObject none)),
    .bind "low" (.operation (.createObject (some (.variable "top"))))]

theorem heap_run_kinship :
    let r := kinship.run.2
    let call : Caller Session := fun _ _ _ => throw .exhausted
    let set (o : ObjectId) (k : String) : RealmM Session Bool :=
      setProperty call (.object o) (.str k) (.int 1) .none true
    r.heap.size = 2 ∧ r.heap.prototype 1 = some 0 ∧ r.heap.setter? (some 0) "k" = none ∧
      r.heap.setter? (some 1) "k" = none ∧ r.heap.setter? (some 1) "j" = none ∧
      (r.heap.table 1).entries = [] ∧ reply (set 1 "k" r) = .ok true ∧
      reply (set 1 "j" r) = .ok true := by
  decide +kernel

theorem commutes_heapAt_kinship :
    let r := kinship.run.2
    let call : Caller Session := fun _ _ _ => throw .exhausted
    let set (o : ObjectId) (k : String) : RealmM Session Bool :=
      setProperty call (.object o) (.str k) (.int 1) .none true
    r.heap = kinship.heapAt kinship.events.length ∧ r.heap.prototype 1 = some 0 ∧
      (ending (set 1 "k" (ending (set 0 "k" r)))).heap =
        (ending (set 0 "k" (ending (set 1 "k" r)))).heap ∧
      ((ending (set 1 "j" (ending (set 1 "k" r)))).heap.table 1).keys = ["k", "j"] ∧
      ((ending (set 1 "k" (ending (set 1 "j" r)))).heap.table 1).keys = ["j", "k"] := by
  obtain ⟨hsize, hparent, hsetter₀, hsetter₁, hsetter₂, hbare, htrue₁, htrue₂⟩ := heap_run_kinship
  intro r call set
  have hr : r.heap = kinship.heapAt kinship.events.length := (heapAt_length_events kinship).symm
  have htop : (0 : ObjectId) < r.heap.size := hsize ▸ by decide
  have hlow : (1 : ObjectId) < r.heap.size := hsize ▸ by decide
  have hrelated : r.Commutes 0 "k" (.int 1) 1 "k" (.int 1) (set 0 "k") (set 1 "k") :=
    commutes_heapAt kinship _ hr call htop hlow rfl rfl (.inl (by decide)) hsetter₀ hsetter₁ _ _ _
  have halone : r.Commutes 1 "k" (.int 1) 1 "j" (.int 1) (set 1 "k") (set 1 "j") :=
    commutes_heapAt kinship _ hr call hlow hlow rfl rfl (.inr (by decide)) hsetter₁ hsetter₂ _ _ _
  have hnew (k : String) : k ∉ (r.heap.table 1).keys := by
    rw [Table.keys, hbare]
    exact List.not_mem_nil
  obtain ⟨t₁, t₂, h₁, h₂, -, hentries₁, hentries₂⟩ :=
    halone.appended rfl (hnew "k") (hnew "j") htrue₁ htrue₂
  have htable (t : Table) : (r.heap.updateTable 1 fun _ => t).table 1 = t := by
    rw [Heap.table_updateTable, if_pos ⟨rfl, hlow⟩]
  refine ⟨hr, hparent, hrelated.heap_eq fun h => absurd h.1 (by decide), ?_, ?_⟩
  · rw [h₁, htable, Table.keys, hentries₁, hbare]
    rfl
  · rw [h₂, htable, Table.keys, hentries₂, hbare]
    rfl

end ObjectModel.Script.Program
