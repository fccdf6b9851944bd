import ObjectModel.Proofs.Realm.Owning
import ObjectModel.Proofs.Script.History

/-!
Snapshots that scripts take part in. Whatever the getters of a script do while a snapshot is taken,
it looks above a record for nothing but what they took from the record.
-/

namespace ObjectModel.Script

open Realm

variable {functions : Functions}

/--
A snapshot is the same as one that reads from every record what the record has of its own, and that
looks along the chain only for what was removed from the record since the snapshot began.
-/
theorem snapshot_eq_snapshotBy_readKept (functions : Functions) (depth : Nat) (v : Value)
    (r : Realm Session) :
    let call := callFunction functions (eval functions depth)
    snapshot call v r = snapshotBy (readKept call r.trace.size) v r :=
  snapshot_eq_snapshotBy (composedCaller_callFunction functions depth) v r

namespace Program

def dropping : Program where
  steps := [
    .bind "top" (.operation (.createObject none)),
    .operation (.set (.variable "top") (.literal (.str "k")) (.literal (.str "above")) none),
    .bind "o" (.operation (.createObject (some (.variable "top")))),
    .operation (.defineOwn (.variable "o") (.literal (.str "j"))
      (.accessor (some (.literal (.function "drop"))) none none none)),
    .operation (.defineOwn (.variable "o") (.literal (.str "k"))
      (.valueDescriptor (some (.literal (.str "own"))) none none none))]
  functions := [("drop", [.operation (.deleteOwn .this (.literal (.str "k")))])]

/-- What a getter deletes from its record is taken from what is above the record. -/
theorem exists_snapshot_inherited :
    ∃ (p : Program) (o q : ObjectId) (k : String) (v : Value) (id : Nat) (r' : Realm Session),
      snapshot (callFunction p.functions (eval p.functions depthLimit)) (.object o) p.run.2 =
          .ok (.dict id) r' ∧
        p.run.2.heap.prototype o = some q ∧ (p.run.2.heap.table o).contains k = true ∧
        (r'.heap.table o).contains k = false ∧
        (r'.heap.table q).lookup k = some (.ofValue v) ∧ (.str k, v) ∈ r'.pool.dict id := by
  let call := callFunction dropping.functions (eval dropping.functions depthLimit)
  let m := snapshot call (.object 1)
  let h := dropping.run.2.heap
  let r' := ending (m dropping.run.2)
  obtain ⟨hresult, hinherited⟩ : m.run' dropping.run.2 = some (.dict 0) ∧
      h.prototype 1 = some 0 ∧ (h.table 1).contains "k" = true ∧
      (r'.heap.table 1).contains "k" = false ∧
      (r'.heap.table 0).lookup "k" = some (.ofValue (.str "above")) ∧
      (.str "k", .str "above") ∈ r'.pool.dict 0 := by
    decide +kernel
  refine ⟨dropping, 1, 0, "k", .str "above", 0, r', ?_, hinherited⟩
  show m dropping.run.2 = .ok (.dict 0) (ending (m dropping.run.2))
  unfold EStateM.run' EStateM.run at hresult
  cases hrun : m dropping.run.2 with
  | error failure r₁ =>
    rw [hrun] at hresult
    cases hresult
  | ok result r₁ =>
    rw [hrun] at hresult
    cases hresult
    rfl

/-- Where there is nothing above the record either, there is an entry for what it no longer has. -/
example :
    let p := { dropping with steps := dropping.steps.eraseIdx 1 }
    let m := snapshot (callFunction p.functions (eval p.functions depthLimit)) (.object 1)
    let r := ending (m p.run.2)
    m.run' p.run.2 = some (.dict 0) ∧ (r.heap.table 1).contains "k" = false ∧
      r.pool.dict 0 = [(.str "j", .bool true), (.str "k", .none)] := by
  decide +kernel

end Program

end ObjectModel.Script
