import ObjectModel.Realm.Access

/-!
Assignments and deletions by the realm's own strictness, which is read when they are settled. A
refusal that is not raised leaves its mark in the trace.
-/

namespace ObjectModel.Realm

variable {σ : Type}

def isStrict : RealmM σ Bool := do
  truthy (← get).strict

def condone (strict : Bool) (error : ModelError) : RealmM σ Unit :=
  if strict then pure () else emit (.condoned error)

def settleByPolicy (refusal : Option ModelError) : RealmM σ Bool := do
  let strict ← isStrict
  refusal.forM (condone strict)
  settle strict refusal

def setByPolicy (call : Caller σ) (obj key v receiver : Value) : RealmM σ Bool := do
  settleByPolicy (← assign call obj key v receiver)

def superSetByPolicy (call : Caller σ) (home key v receiver : Value) : RealmM σ Bool := do
  settleByPolicy (← superAssign call home key v receiver)

def deleteByPolicy (obj key : Value) : RealmM σ Bool := do
  let outcome ← delete obj key
  let strict ← isStrict
  match outcome with
  | .ok _ => pure ()
  | .error error => condone strict error
  settleDeletion strict outcome

end ObjectModel.Realm
