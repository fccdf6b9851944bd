import ObjectModel.Pool.Content
import ObjectModel.Proofs.Value.Quantity

/-!
Equality of content is transitive: numbers are equal that amount to the same, and what holds values
is equal where the values are identical or equal, down to any depth.
-/

namespace ObjectModel

namespace Value

variable {x y : Binary64} {i j : Nat} {n m : Int}

theorem NumericallyEqual.symm {a b : Value} (h : a.NumericallyEqual b) : b.NumericallyEqual a := by
  obtain ⟨q, ha, hb⟩ := h
  exact ⟨q, hb, ha⟩

theorem NumericallyEqual.trans {a b c : Value} (hab : a.NumericallyEqual b)
    (hbc : b.NumericallyEqual c) : a.NumericallyEqual c := by
  obtain ⟨q, ha, hb⟩ := hab
  obtain ⟨q', hb', hc⟩ := hbc
  cases hb.symm.trans hb'
  exact ⟨q, ha, hc⟩

theorem numericallyEqual_int_int : (int n).NumericallyEqual (int m) ↔ n = m := by
  simp [NumericallyEqual, quantity?, eq_comm]

theorem numericallyEqual_float_int : (float x i).NumericallyEqual (int n) ↔ x.toInt? = some n := by
  simp [NumericallyEqual, quantity?, Binary64.toInt?_eq_some_iff_quantity?]

theorem numericallyEqual_int_float : (int n).NumericallyEqual (float x i) ↔ x.toInt? = some n := by
  rw [← numericallyEqual_float_int (i := i)]
  exact ⟨NumericallyEqual.symm, NumericallyEqual.symm⟩

theorem numericallyEqual_float_float : (float x i).NumericallyEqual (float y j) ↔
    x.isNaN = false ∧ (x = y ∨ (x.isZero = true ∧ y.isZero = true)) := by
  rw [← Bool.not_eq_true, ← Binary64.quantity?_eq_none_iff]
  constructor
  · rintro ⟨q, hx, hy⟩
    exact ⟨by simp [show x.quantity? = some q from hx],
      Binary64.eq_or_isZero_of_quantity? (hx.trans hy.symm)⟩
  · rintro ⟨hx, rfl | ⟨hzero, hzero'⟩⟩
    · obtain ⟨q, hq⟩ := Option.ne_none_iff_exists'.1 hx
      exact ⟨q, hq, hq⟩
    · exact ⟨_, Binary64.quantity?_eq_some_rational.2 (Binary64.rational?_eq_of_isZero hzero),
        Binary64.quantity?_eq_some_rational.2 (Binary64.rational?_eq_of_isZero hzero')⟩

end Value

namespace Pool

variable {p : Pool} {a b c : Value} {depth : Nat}

/-- What makes two values equal, where `inside` tells which of those that they hold are. -/
inductive Matches (p : Pool) (inside : Value → Value → Bool) : Value → Value → Prop
  | number {a b : Value} (ha : a.IsNumber) (hb : b.IsNumber) (h : a.NumericallyEqual b) :
      Matches p inside a b
  | identical {a : Value} (ha : ¬ a.IsNumber) : Matches p inside a a
  | list {i j : Nat} (h : equalItems inside (p.list i) (p.list j) = true) :
      Matches p inside (.list i) (.list j)
  | dict {i j : Nat} (h : equalEntries inside (p.dict i) (p.dict j) = true) :
      Matches p inside (.dict i) (.dict j)
  | descriptor {i j : Nat} {d d' : Descriptor} (hd : p.descriptor? i = some d)
      (hd' : p.descriptor? j = some d') (h : equalDescriptors inside d d' = true) :
      Matches p inside (.descriptor i) (.descriptor j)

def inside (p : Pool) (depth : Nat) (a b : Value) : Bool :=
  a == b || equal.go p depth a b

theorem matches_of_go (h : equal.go p (depth + 1) a b = true) :
    p.Matches (p.inside depth) a.numeric b.numeric := by
  have hnumber {n : Int} : (Value.int n).IsNumber := .int n
  have hfloat {x : Binary64} {i : Nat} : (Value.float x i).IsNumber := .float x i
  rw [equal.go] at h
  split at h
  · next m n ha hb =>
    rw [ha, hb]
    exact .number (.int m) (.int n) (Value.numericallyEqual_int_int.2 (beq_iff_eq.1 h))
  · next n x i ha hb =>
    rw [ha, hb]
    exact .number (.int n) (.float x i) (Value.numericallyEqual_int_float.2 (beq_iff_eq.1 h))
  · next x i n ha hb =>
    rw [ha, hb]
    exact .number (.float x i) (.int n) (Value.numericallyEqual_float_int.2 (beq_iff_eq.1 h))
  · next x i y j ha hb =>
    rw [ha, hb]
    refine .number (.float x i) (.float y j) (Value.numericallyEqual_float_float.2 ?_)
    simpa using h
  · next i j ha hb =>
    rw [ha, hb]
    rw [Bool.or_eq_true, beq_iff_eq] at h
    obtain rfl | h := h
    · exact .identical (by rintro ⟨⟩)
    · exact .list h
  · next i j ha hb =>
    rw [ha, hb]
    rw [Bool.or_eq_true, beq_iff_eq] at h
    obtain rfl | h := h
    · exact .identical (by rintro ⟨⟩)
    · exact .dict h
  · next i j ha hb =>
    rw [ha, hb]
    split at h
    · next d d' hd hd' =>
      rw [Bool.or_eq_true, beq_iff_eq] at h
      obtain rfl | h := h
      · exact .identical (by rintro ⟨⟩)
      · exact .descriptor hd hd' h
    · rw [beq_iff_eq] at h
      rw [h]
      exact .identical (by rintro ⟨⟩)
  · next hint hintfloat hfloatint hfloat hlist hdict hdescriptor =>
    rw [← beq_iff_eq.1 h]
    rw [← beq_iff_eq.1 h] at hint hfloat
    refine .identical ?_
    intro hnumber
    generalize a.numeric = v at *
    cases hnumber with
    | int n => exact hint n n rfl rfl
    | float x i => exact hfloat x i x i rfl rfl

theorem go_of_matches (h : p.Matches (p.inside depth) a.numeric b.numeric) :
    equal.go p (depth + 1) a b = true := by
  rw [equal.go]
  generalize a.numeric = v at *
  generalize b.numeric = w at *
  cases h with
  | number ha hb h =>
    cases ha with
    | int n =>
      cases hb with
      | int m => exact beq_iff_eq.2 (Value.numericallyEqual_int_int.1 h)
      | float y j => exact beq_iff_eq.2 (Value.numericallyEqual_int_float.1 h)
    | float x i =>
      cases hb with
      | int m => exact beq_iff_eq.2 (Value.numericallyEqual_float_int.1 h)
      | float y j => simpa using Value.numericallyEqual_float_float.1 h
  | identical ha =>
    cases v with
    | int n => exact absurd (.int n) ha
    | float x i => exact absurd (.float x i) ha
    | descriptor i => cases hd : p.descriptor? i <;> simp [hd]
    | _ => simp
  | list h => exact Bool.or_eq_true_iff.2 (.inr h)
  | dict h => exact Bool.or_eq_true_iff.2 (.inr h)
  | descriptor hd hd' h =>
    simp only [hd, hd']
    exact Bool.or_eq_true_iff.2 (.inr h)

section

variable {inside : Value → Value → Bool}
  (htrans : ∀ a b c, inside a b = true → inside b c = true → inside a c = true)
include htrans

theorem equalItems_trans {a b c : List Value} (hab : equalItems inside a b = true)
    (hbc : equalItems inside b c = true) : equalItems inside a c = true := by
  simp only [equalItems, Bool.and_eq_true, beq_iff_eq] at hab hbc ⊢
  refine ⟨hab.1.trans hbc.1, ?_⟩
  induction a generalizing b c with
  | nil => rfl
  | cons v a ih =>
    cases b with
    | nil => cases hab.1
    | cons v' b =>
      cases c with
      | nil => rfl
      | cons v'' c =>
        simp only [List.length_cons, Nat.add_right_cancel_iff, List.zip_cons_cons, List.all_cons,
          Bool.and_eq_true] at hab hbc ⊢
        exact ⟨htrans _ _ _ hab.2.1 hbc.2.1, ih ⟨hab.1, hab.2.2⟩ ⟨hbc.1, hbc.2.2⟩⟩

theorem equalEntries_trans {a b c : List (Value × Value)} (hab : equalEntries inside a b = true)
    (hbc : equalEntries inside b c = true) : equalEntries inside a c = true := by
  simp only [equalEntries, Bool.and_eq_true, beq_iff_eq, List.all_eq_true, List.any_eq_true]
    at hab hbc ⊢
  refine ⟨hab.1.trans hbc.1, ?_⟩
  intro entry hentry
  obtain ⟨entry', hentry', hkey, hvalue⟩ := hab.2 entry hentry
  obtain ⟨entry'', hentry'', hkey', hvalue'⟩ := hbc.2 entry' hentry'
  exact ⟨entry'', hentry'', htrans _ _ _ hkey hkey', htrans _ _ _ hvalue hvalue'⟩

theorem equalDescriptors_trans {a b c : Descriptor} (hab : equalDescriptors inside a b = true)
    (hbc : equalDescriptors inside b c = true) : equalDescriptors inside a c = true := by
  unfold equalDescriptors at hab hbc ⊢
  cases ha : a.slot <;> cases hb : b.slot <;> cases hc : c.slot <;>
    simp only [ha, hb, hc, Bool.false_eq_true] at hab hbc ⊢ <;>
    exact equalItems_trans htrans hab hbc

theorem Matches.trans (hab : p.Matches inside a b) (hbc : p.Matches inside b c) :
    p.Matches inside a c := by
  cases hab with
  | number ha hb hequal =>
    cases hbc with
    | number _ hc hequal' => exact .number ha hc (hequal.trans hequal')
    | identical hnumber => exact absurd hb hnumber
    | list => cases hb
    | dict => cases hb
    | descriptor => cases hb
  | identical => exact hbc
  | list hitems =>
    cases hbc with
    | number hb => cases hb
    | identical => exact .list hitems
    | list hitems' => exact .list (equalItems_trans htrans hitems hitems')
  | dict hentries =>
    cases hbc with
    | number hb => cases hb
    | identical => exact .dict hentries
    | dict hentries' => exact .dict (equalEntries_trans htrans hentries hentries')
  | descriptor hd hd' hfields =>
    cases hbc with
    | number hb => cases hb
    | identical => exact .descriptor hd hd' hfields
    | descriptor hd₁ hd₂ hfields' =>
      cases hd'.symm.trans hd₁
      exact .descriptor hd hd₂ (equalDescriptors_trans htrans hfields hfields')

end

theorem inside_trans (hgo : ∀ a b c, equal.go p depth a b = true → equal.go p depth b c = true →
    equal.go p depth a c = true) (hab : p.inside depth a b = true)
    (hbc : p.inside depth b c = true) : p.inside depth a c = true := by
  simp only [inside, Bool.or_eq_true, beq_iff_eq] at hab hbc ⊢
  obtain rfl | hab := hab
  · exact hbc
  · obtain rfl | hbc := hbc
    · exact .inr hab
    · exact .inr (hgo _ _ _ hab hbc)

theorem equal_go_trans (hab : equal.go p depth a b = true) (hbc : equal.go p depth b c = true) :
    equal.go p depth a c = true := by
  induction depth generalizing a b c with
  | zero => cases hab
  | succ depth ih =>
    have htrans (a b c : Value) (hab : p.inside depth a b = true)
        (hbc : p.inside depth b c = true) : p.inside depth a c = true :=
      inside_trans (fun _ _ _ => ih) hab hbc
    exact go_of_matches ((matches_of_go hab).trans htrans (matches_of_go hbc))

theorem equal_trans (hab : p.equal a b = true) (hbc : p.equal b c = true) : p.equal a c = true :=
  equal_go_trans hab hbc

end Pool

end ObjectModel
