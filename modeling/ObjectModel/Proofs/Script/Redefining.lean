import ObjectModel.Proofs.Realm.Redefining
import ObjectModel.Proofs.Script.Closed

/-!
Sameness of values, and own properties that are defined again at the moments of runs.
-/

namespace ObjectModel

open Realm

namespace Script.Program

/--
Sameness is an equivalence of values. Numbers of both types are the same if they are equal as
numbers and both or neither are the negative zero, or if both are NaN; all else is the same only as
itself. What descriptors may come to in two redefinitions they may come to in one, in every realm
for what a property has, and a property may be defined again as it is, unless it is stuck.
-/
theorem redefinition_preorder :
    Equivalence (fun a b : Value => a.same b = true) ∧
      (∀ a b : Value, a.IsNumber → b.IsNumber → (a.same b = true ↔
        (a.NumericallyEqual b ∧ a.isNegativeZero = b.isNegativeZero) ∨
          (a.isNaN = true ∧ b.isNaN = true))) ∧
      (∀ a b : Value, ¬ (a.IsNumber ∧ b.IsNumber) → (a.same b = true ↔ a = b)) ∧
      (∀ (p : Pool) (d d' d'' : Descriptor),
        d.YieldsTo p d' → d'.YieldsTo p d'' → d.YieldsTo p d'') ∧
      ∀ r : Realm Session, r.Redefines := by
  refine ⟨⟨Value.same_refl, Value.same_symm, Value.same_trans⟩, ?_, ?_, ?_, redefines⟩
  · intro a b ha hb
    exact ha.same_iff_numericallyEqual hb
  · intro a b h
    exact Value.same_iff_eq h
  · intro p d d' d'' h h'
    exact h.trans h'

def settling : Program where
  steps := [
    .bind "o" (.operation (.createObject none)),
    .operation (.defineOwn (.variable "o") (.literal (.str "k"))
      (.valueDescriptor (some (.literal (.int 1))) none none (some (.literal (.bool false))))),
    .bind "a" (.valueDescriptor (some (.float (.round false 2 1)))
      (some (.literal (.bool false))) none (some (.literal (.bool false)))),
    .bind "b" (.valueDescriptor (some (.literal (.int 2)))
      (some (.literal (.bool false))) none (some (.literal (.bool false))))]

def unsettled : Descriptor where
  slot := .value (.int 1) true
  configurable := false

theorem run_settling :
    let r := settling.run.2
    (r.heap.table 0).lookup "k" = some unsettled ∧
      r.pool.descriptorOf? (.descriptor 0) = some (0, unsettled) ∧
      "k" ∈ (r.heap.table 0).keys ∧
      (match install 0 "k" (.descriptor 1) r with
      | .ok _ r' =>
        (match install 0 "k" (.descriptor 2) r' with
        | .ok _ _ => true
        | .error _ _ => false)
      | .error _ _ => false) = true := by
  decide +kernel

theorem redefinition_preorder_settling :
    let r := settling.run.2
    (∃ r', install 0 "k" (.descriptor 0) r = .ok () r' ∧ r'.heap = r.heap) ∧
      ∃ r' r'', install 0 "k" (.descriptor 1) r = .ok () r' ∧
        install 0 "k" (.descriptor 2) r' = .ok () r'' ∧
        ∃ s, install 0 "k" (.descriptor 2) r = .ok () s ∧ s.heap = r''.heap := by
  have hrun := run_settling
  dsimp only at hrun ⊢
  generalize settling.run.2 = r at hrun ⊢
  obtain ⟨hlookup, hdescriptor, hmem, hruns⟩ := hrun
  obtain ⟨-, -, -, -, hredefines⟩ := redefinition_preorder
  refine ⟨(hredefines r).keeps 0 "k" _ 0 _ hlookup hdescriptor (by decide), ?_⟩
  cases hrun : install 0 "k" (.descriptor 1) r with
  | error => rw [hrun] at hruns; cases hruns
  | ok _ r' =>
    rw [hrun] at hruns
    dsimp only at hruns
    cases hrun' : install 0 "k" (.descriptor 2) r' with
    | error => rw [hrun'] at hruns; cases hruns
    | ok _ r'' =>
      exact ⟨r', r'', rfl, hrun',
        (hredefines r).composes 0 "k" _ _ r' r'' hmem hrun hrun'⟩

def unmatched : Program where
  steps := [
    .bind "o" (.operation (.createObject none)),
    .operation (.defineOwn (.variable "o") (.literal (.str "k"))
      (.valueDescriptor (some (.literal (.int 1))) none (some (.float .nan))
        (some (.literal (.bool false)))))]

theorem run_unmatched :
    let r := unmatched.run.2
    ∃ d ∈ (r.heap.table 0).lookup "k",
      r.pool.descriptorOf? (.descriptor 0) = some (0, d) ∧ d.Stuck := by
  decide +kernel

theorem exists_install_own_ne_ok :
    ∃ (p : Program) (r : Realm Session) (o : ObjectId) (k : String) (id : Nat) (d : Descriptor),
      r.heap = p.heapAt p.events.length ∧ (r.heap.table o).lookup k = some d ∧
      r.pool.descriptorOf? (.descriptor id) = some (id, d) ∧
      ∀ r', install o k (.descriptor id) r ≠ .ok () r' := by
  obtain ⟨d, hlookup, hdescriptor, hstuck⟩ := run_unmatched
  refine ⟨unmatched, unmatched.run.2, 0, "k", 0, d, (heapAt_length_events unmatched).symm, hlookup,
    hdescriptor, ?_⟩
  intro r' h
  rw [(redefines _).refuses 0 "k" _ 0 d hlookup hdescriptor hstuck] at h
  cases h

end Script.Program

end ObjectModel
