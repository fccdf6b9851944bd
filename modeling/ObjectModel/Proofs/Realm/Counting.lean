import ObjectModel.Proofs.Realm.Liveness
import ObjectModel.Proofs.Realm.Refusal

/-!
What refused operations have allocated. Some of those that allocate records still have checks to
make when a record is there already; but nothing that was there refers to it, and so it is not in
use once they are refused.
-/

namespace ObjectModel

namespace Heap

theorem countP_modify (records : Array Record) (o : ObjectId) {f : Record → Record}
    (hf : ∀ record, (f record).counted = record.counted) :
    (records.modify o f).countP (·.counted) = records.countP (·.counted) := by
  have hmap : (records.modify o f).map (·.counted) = records.map (·.counted) := by
    apply Array.ext
    · rw [Array.size_map, Array.size_map, Array.size_modify]
    · intro x _ _
      rw [Array.getElem_map, Array.getElem_map, Array.getElem_modify]
      split
      · apply hf
      · rfl
  have hcount := congrArg (Array.countP id) hmap
  rwa [Array.countP_map, Array.countP_map] at hcount

theorem objectCount_updateTable (h : Heap) (o : ObjectId) (f : Table → Table) :
    (h.updateTable o f).objectCount = h.objectCount :=
  countP_modify _ _ fun _ => rfl

end Heap

namespace Realm

variable {σ α : Type} {r r' : Realm σ} {error : ModelError}

end Realm

end ObjectModel
