import ObjectModel.Proofs.Realm.Composed

/-!
Why computations fail: a step gives a reason, or a function of the client failed.
-/

namespace ObjectModel

inductive Heap.Uncallable (h : Heap) : Prop
  | getter {o : ObjectId} {key : String} {d : Descriptor} {f : Value} {set : Option Value}
    (hd : (h.table o).lookup key = some d) (hslot : d.slot = .accessor (some f) set)
    (hf : ∀ name, f ≠ .function name)
  | setter {o : ObjectId} {key : String} {d : Descriptor} {get : Option Value} {f : Value}
    (hd : (h.table o).lookup key = some d) (hslot : d.slot = .accessor get (some f))
    (hf : ∀ name, f ≠ .function name)
  | initializer {o : ObjectId} {c : Constructor} {f : Value} (hc : h.constructor? o = some c)
    (hinitializer : c.initializer = some f) (hf : ∀ name, f ≠ .function name)

namespace Realm

variable {σ : Type}

/-- Why a failure may come about in a realm whose heap is this one, apart from those allowed. -/
inductive Explained (h : Heap) : Failure → Prop
  | refused (error : ModelError) : Explained h (.model error)
  | stray {o : ObjectId} {v : Value} (hstray : h.strayLink? o = some v) : Explained h .notRecord
  | uncallable (hf : h.Uncallable) : Explained h .notCallable

/-- In the course of what began in the first realm, a function of the client failed this way. -/
def Threw (call : Caller σ) (r : Realm σ) (failure : Failure) (r' : Realm σ) : Prop :=
  ∃ name this args r₁, r.trace.toList <+: r₁.trace.toList ∧
    call name this args r₁ = .error failure r'

end Realm

end ObjectModel
