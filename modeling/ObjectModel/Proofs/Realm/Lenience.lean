import ObjectModel.Proofs.Realm.Equations

/-!
Assignments and deletions run strictly and leniently from one and the same realm. Both runs come to
the same, except where an assignment is refused or a property is locked: then the one raises what
the other passes over, and neither has changed anything.
-/

namespace ObjectModel

def ErrorKind.refuses (kind : ErrorKind) : Prop :=
  kind = .readOnly ∨ kind = .notExtensible ∨ kind = .type

theorem Table.refuses_of_unassignable? {t : Table} {key : String} {error : ModelError}
    (h : t.unassignable? key = some error) : error.kind.refuses := by
  rw [unassignable?] at h
  split at h
  · split at h
    · cases h
    · cases h
      exact .inr (.inl rfl)
  · split at h
    · cases h
    · cases h
      exact .inl rfl
  · cases h
    exact .inl rfl

namespace Realm

variable {σ : Type} {call : Caller σ} {r : Realm σ}

/-- How an assignment ends where it is strict, and how it ends where it is not. -/
inductive Agrees (r : Realm σ) : (strictly leniently : EStateM.Result Failure (Realm σ) Bool) → Prop
  | alike {result : EStateM.Result Failure (Realm σ) Bool} (hdone : ∀ r', result ≠ .ok false r') :
    Agrees r result result
  /-- The error that is raised in the one run is a line of the log in the other. -/
  | refused {error : ModelError} (hkind : error.kind.refuses) :
    Agrees r (.error (.model error) r) (.ok false (r.logged (.writeDropped error.message)))

inductive AgreesOnDeletion (r : Realm σ) (obj key : Value) :
    (strictly leniently : EStateM.Result Failure (Realm σ) Bool) → Prop
  | alike {result : EStateM.Result Failure (Realm σ) Bool}
    (hfree : ∀ o k d, r.heap.object? obj = some o → key.key? = some k →
      (r.heap.table o).lookup k = some d → d.configurable.holds = true) :
    AgreesOnDeletion r obj key result result
  | locked {o : ObjectId} {k : String} {d : Descriptor} (ho : r.heap.object? obj = some o)
    (hkey : key.key? = some k) (hd : (r.heap.table o).lookup k = some d)
    (hlock : d.configurable.holds = false) :
    AgreesOnDeletion r obj key (.error (.model (.undeletable k)) r) (.ok false r)

def RefusesIdly (m : RealmM σ (Option ModelError)) (r : Realm σ) : Prop :=
  ∀ error r', m r = .ok (some error) r' → r' = r ∧ error.kind.refuses

theorem refusesIdly_writeOwn (receiver : Value) (key : String) (v : Value) :
    RefusesIdly (writeOwn receiver key v) r := by
  intro error r' h
  rw [writeOwn_run] at h
  split at h
  · cases h
    exact ⟨rfl, .inr (.inr rfl)⟩
  · split at h
    · next hunassignable =>
      cases h
      exact ⟨rfl, Table.refuses_of_unassignable? hunassignable⟩
    · obtain ⟨_, _, -, hpure⟩ := bind_eq_ok h
      cases hpure

theorem refusesIdly_write (start : ObjectId) (key : String) (v receiver : Value) :
    RefusesIdly (write call start key v receiver) r := by
  intro error r' h
  rw [write_run] at h
  split at h
  · cases h
    exact ⟨rfl, .inl rfl⟩
  · -- a setter that has run takes the value, whatever it has done with it
    obtain ⟨_, _, -, hpure⟩ := bind_eq_ok h
    cases hpure
  · cases h
  · exact refusesIdly_writeOwn receiver key v error r' h

theorem refusesIdly_assign (obj key v receiver : Value) :
    RefusesIdly (assign call obj key v receiver) r := by
  intro error r' h
  simp only [assign, bind_run, requireObject_run, requireKey_run] at h
  cases hobj : r.heap.object? obj with
  | none =>
    rw [hobj] at h
    cases h
  | some o =>
    rw [hobj] at h
    cases hkey : key.key? with
    | none =>
      rw [hkey] at h
      cases h
    | some k =>
      rw [hkey] at h
      exact refusesIdly_write o k v _ error r' h

theorem refusesIdly_superAssign (home key v receiver : Value) :
    RefusesIdly (superAssign call home key v receiver) r := by
  intro error r' h
  simp only [superAssign, bind_run, requireObject_run, readHeap_run] at h
  cases hhome : r.heap.object? home with
  | none =>
    rw [hhome] at h
    cases h
  | some o =>
    rw [hhome] at h
    dsimp only at h
    cases hlink : r.heap.link o with
    | none =>
      simp only [hlink, bind_run, requireKey_run] at h
      cases hkey : key.key? with
      | none =>
        rw [hkey] at h
        cases h
      | some k =>
        rw [hkey] at h
        exact refusesIdly_writeOwn receiver k v error r' h
    | _ =>
      rw [hlink] at h
      exact refusesIdly_assign _ key v receiver error r' h

theorem RefusesIdly.agrees {m : RealmM σ (Option ModelError)} (hm : RefusesIdly m r) :
    r.Agrees ((m >>= settle true) r) ((m >>= settle false) r) := by
  cases hrun : m r with
  | error failure r' =>
    rw [bind_error hrun, bind_error hrun]
    refine .alike fun r'' h => ?_
    cases h
  | ok refusal r' =>
    rw [bind_ok hrun, bind_ok hrun]
    cases refusal with
    | none =>
      refine .alike fun r'' h => ?_
      cases h
    | some error =>
      obtain ⟨rfl, hkind⟩ := hm error r' hrun
      exact .refused hkind

section Deletion

variable {obj key : Value} {o : ObjectId} {k : String} (hobj : r.heap.object? obj = some o)
  (hkey : key.key? = some k)
include hobj hkey

theorem deleteProperty_of_free
    (hfree : ∀ d, (r.heap.table o).lookup k = some d → d.configurable.holds = true)
    (strict : Bool) : deleteProperty obj key strict r = removeOwn o k r := by
  have hdelete : delete obj key r = (removeOwn o k >>= fun gone => pure (.ok gone)) r := by
    simp only [delete, bind_run, requireObject_run, hobj, requireKey_run, hkey, tableOf_run]
    cases hd : (r.heap.table o).lookup k with
    | none => exact bind_run _ _ r
    | some d =>
      obtain ⟨slot, enumerable, value, holds⟩ := d
      cases hfree _ hd
      exact bind_run _ _ r
  rw [deleteProperty, bind_run, hdelete, bind_run]
  cases removeOwn o k r <;> rfl

theorem deleteProperty_of_locked {d : Descriptor} (hd : (r.heap.table o).lookup k = some d)
    (hlock : d.configurable.holds = false) (strict : Bool) :
    deleteProperty obj key strict r = settleDeletion strict (.error (.undeletable k)) r := by
  obtain ⟨slot, enumerable, value, holds⟩ := d
  cases hlock
  simp only [deleteProperty, delete, bind_run, requireObject_run, hobj, requireKey_run, hkey,
    tableOf_run, hd, pure_run]

end Deletion

theorem agreesOnDeletion_deleteProperty (obj key : Value) :
    r.AgreesOnDeletion obj key (deleteProperty obj key true r)
      (deleteProperty obj key false r) := by
  cases hobj : r.heap.object? obj with
  | none =>
    simp only [deleteProperty, delete, bind_run, requireObject_run, hobj]
    refine .alike fun o k d ho => ?_
    rw [hobj] at ho
    cases ho
  | some o =>
    cases hkey : key.key? with
    | none =>
      simp only [deleteProperty, delete, bind_run, requireObject_run, hobj, requireKey_run, hkey]
      refine .alike fun o k d _ hk => ?_
      rw [hkey] at hk
      cases hk
    | some k =>
      by_cases hlocked : ∃ d, (r.heap.table o).lookup k = some d ∧ d.configurable.holds = false
      · obtain ⟨d, hd, hlock⟩ := hlocked
        simp only [deleteProperty_of_locked hobj hkey hd hlock]
        exact .locked hobj hkey hd hlock
      · have hfree : ∀ d, (r.heap.table o).lookup k = some d → d.configurable.holds = true :=
          fun d hd => eq_true_of_ne_false fun hlock => hlocked ⟨d, hd, hlock⟩
        simp only [deleteProperty_of_free hobj hkey hfree]
        refine .alike fun o' k' d ho hk => ?_
        cases hobj.symm.trans ho
        cases hkey.symm.trans hk
        exact hfree d

/--
Strict or not, an assignment comes to the same, unless it is refused: then the one run raises why,
and the other tells it in the log and returns `false`, which it does only then. With deletions it
is so where the property is locked, but for the log.
-/
theorem agrees_strict_lenient (call : Caller σ) (obj home key v receiver : Value) (r : Realm σ) :
    r.Agrees (setProperty call obj key v receiver true r)
        (setProperty call obj key v receiver false r) ∧
      r.Agrees (superSetProperty call home key v receiver true r)
        (superSetProperty call home key v receiver false r) ∧
      r.AgreesOnDeletion obj key (deleteProperty obj key true r)
        (deleteProperty obj key false r) :=
  ⟨(refusesIdly_assign obj key v receiver).agrees,
    (refusesIdly_superAssign home key v receiver).agrees, agreesOnDeletion_deleteProperty obj key⟩

end Realm

end ObjectModel
