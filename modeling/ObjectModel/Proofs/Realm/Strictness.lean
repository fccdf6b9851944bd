import ObjectModel.Proofs.Realm.Composed

/-!
A computation that is not aware of the strictness of its realm, and that leaves no mark where the
realm is not strict, goes the same way where it is.
-/

namespace ObjectModel.Realm

variable {σ α : Type}

def strictly (r : Realm σ) : Realm σ :=
  { r with strict := .bool true }

def strictlyEnding : EStateM.Result Failure (Realm σ) α → EStateM.Result Failure (Realm σ) α
  | .ok a r => .ok a r.strictly
  | .error failure r => .error failure r.strictly

theorem Composed.strictly {m : RealmM σ α} {r : Realm σ} (h : Composed False m r)
    (hstrict : r.strict = .bool false) (hmark : ¬ (ending (m r)).Marked) :
    m r.strictly = strictlyEnding (m r) := by
  induction h with
  | pure a r => rfl
  | throw failure r => rfl
  | @bind α β m f r hm hf ihm ihf =>
    cases hr : m r with
    | ok a r' =>
      rw [bind_ok hr] at hmark
      have hstrict' : r'.strict = .bool false := by
        rw [← hstrict, ← hm.strict_eq, hr]
        rfl
      -- marks stay, so where none is at the end there was none before
      have hmark' : ¬ r'.Marked := fun h => hmark ((hf a r' hr).follows.marked h)
      rw [hr] at ihm
      rw [bind_ok (ihm hstrict hmark'), bind_ok hr]
      exact ihf a r' hr hstrict' hmark
    | error failure r' =>
      rw [bind_error hr] at hmark
      rw [hr] at ihm
      rw [bind_error (ihm hstrict hmark), bind_error hr]
      rfl
  | @tryCatch α m handler r hm hh ihm ihh =>
    cases hr : m r with
    | ok a r' =>
      rw [tryCatch_ok hr] at hmark
      rw [hr] at ihm
      rw [tryCatch_ok (ihm hstrict hmark), tryCatch_ok hr]
      rfl
    | error failure r' =>
      rw [tryCatch_error hr] at hmark
      have hstrict' : r'.strict = .bool false := by
        rw [← hstrict, ← hm.strict_eq, hr]
        rfl
      have hmark' : ¬ r'.Marked := fun h => hmark ((hh failure r' hr).follows.marked h)
      rw [hr] at ihm
      rw [tryCatch_error (ihm hstrict hmark'), tryCatch_error hr]
      exact ihh failure r' hr hstrict' hmark
  | @inspect α f r hf h ih =>
    -- what comes next does not depend on the strictness, or else it leaves a mark
    obtain h | h | h := h
    · exact h.elim
    · have hsame : f r.strictly = f r := h _
      show f r.strictly r.strictly = strictlyEnding (f r r)
      rw [hsame]
      exact ih hstrict hmark
    · exact absurd (h hstrict) hmark
  | setStrict h v r => exact h.elim
  | modifyPool f r => rfl
  | @client α f r h =>
    have hsame : f r.strictly = f r := h _
    show EStateM.Result.ok (f r.strictly).1 { r.strictly with client := (f r.strictly).2 } = _
    rw [hsame]
    rfl
  | @within α m enter leave r hm ih =>
    have henter : Realm.strictly { r with client := enter r.client } =
      { r.strictly with client := enter r.strictly.client } := rfl
    unfold Realm.within at hmark ⊢
    cases hr : m { r with client := enter r.client } with
    | ok a r' =>
      rw [hr] at hmark ih
      rw [← henter, ih hstrict hmark]
      rfl
    | error failure r' =>
      rw [hr] at hmark ih
      rw [← henter, ih hstrict hmark]
      rfl
  | log r h => rfl
  | condoned error r => rfl
  | commit hadm h => rfl
  | relinked shown hadm => rfl

end ObjectModel.Realm
