import ObjectModel.Proofs.Number.Written
import ObjectModel.Proofs.Realm.Equations
import ObjectModel.Proofs.Value.Quantity

/-!
Which numbers name the same property: those that amount to the same, and NaN with itself. The key of
an integer is made of digits, any other is read as the number that it is the key of.
-/

namespace ObjectModel

theorem Int.toList_toString (n : Int) :
    (toString n).toList = (if 0 ≤ n then [] else ['-']) ++ Nat.toDigits 10 n.natAbs := by
  rw [Int.toString_eq_repr, Int.repr_eq_if]
  split
  · rw [Nat.toList_repr, List.nil_append]
    congr 1
    omega
  · rw [String.toList_append, Nat.toList_repr]
    congr 2
    omega

theorem Int.mem_toString {n : Int} {c : Char} (hc : c ∈ (toString n).toList) :
    c = '-' ∨ c.isDigit = true := by
  rw [Int.toList_toString, List.mem_append] at hc
  obtain hc | hc := hc
  · split at hc
    · cases hc
    · exact .inl (List.mem_singleton.1 hc)
  · exact .inr (Decimal.isDigit_of_mem_toDigits hc)

theorem Int.toString_inj {m n : Int} : toString m = toString n ↔ m = n := by
  refine ⟨fun h => ?_, fun h => h ▸ rfl⟩
  have hdigits {m n : Nat} (h : Nat.toDigits 10 m = Nat.toDigits 10 n) : m = n := by
    rw [← Decimal.ofDigits_toDigits m, h, Decimal.ofDigits_toDigits]
  have hsign (m n : Nat) : Nat.toDigits 10 m ≠ '-' :: Nat.toDigits 10 n := by
    intro h
    have hmem : '-' ∈ Nat.toDigits 10 m := h ▸ List.mem_cons_self
    exact absurd (Decimal.isDigit_of_mem_toDigits hmem) (by decide)
  have hlist := congrArg String.toList h
  rw [Int.toList_toString, Int.toList_toString] at hlist
  split at hlist <;> split at hlist
  · have habs := hdigits hlist
    omega
  · exact absurd hlist (hsign _ _)
  · exact absurd hlist.symm (hsign _ _)
  · have habs := hdigits (List.cons_inj_right '-' |>.1 hlist)
    omega

def HasMark (text : String) : Prop :=
  ∃ c ∈ text.toList, c ≠ '-' ∧ c.isDigit = false

theorem HasMark.ne_toString {text : String} (h : HasMark text) (n : Int) : text ≠ toString n := by
  rintro rfl
  obtain ⟨c, hc, hne, hdigit⟩ := h
  cases Int.mem_toString hc with
  | inl heq => exact hne heq
  | inr heq => rw [heq] at hdigit; cases hdigit

namespace Binary64

variable {x : Binary64} {n : Int}

theorem key_of_toInt?_eq_some (h : x.toInt? = some n) : x.key = toString n := by
  cases x with
  | nan => cases h
  | infinity => cases h
  | finite => simp only [key, h]

theorem read?_infinity_key :
    ∀ negative, read? (infinity negative).key = some (infinity negative) := by
  decide +kernel

theorem read?_key (h : x.toInt? = none) : read? x.key = some x := by
  cases x with
  | nan => decide +kernel
  | infinity negative => exact read?_infinity_key negative
  | finite =>
    simp only [key, h]
    exact read?_written _

theorem hasMark_signed {text : String} {d : Decimal} (h : Decimal.Denotes text.toList d)
    (negative : Bool) : HasMark (written.signed negative text) := by
  obtain ⟨d', hnumeral, -⟩ := h
  have hmem : ∀ c ∈ text.toList, c ∈ (written.signed negative text).toList := by
    intro c hc
    cases negative with
    | true => simp [written.signed, hc]
    | false => exact hc
  cases hnumeral.exists_mark with
  | inl hmark => exact ⟨'.', hmem _ hmark, by decide⟩
  | inr hmark => exact ⟨'e', hmem _ hmark, by decide⟩

theorem hasMark_key (h : x.toInt? = none) : HasMark x.key := by
  cases x with
  | nan => exact ⟨'N', by decide⟩
  | infinity negative => exact ⟨'I', by cases negative <;> decide⟩
  | finite negative m e hc =>
    have hm : m ≠ 0 := by
      rintro rfl
      have hzero : (finite negative 0 e hc).rational? = some ((0 : Int) : ℚ) :=
        rational?_eq_of_isZero rfl
      rw [toInt?_eq_some_iff.2 hzero] at h
      cases h
    simp only [key, h, written, if_neg hm]
    exact hasMark_signed (Decimal.denotes_written _) negative

theorem quantity?_ne_int (h : x.toInt? = none) (n : Int) :
    x.quantity? ≠ (Value.int n).quantity? := by
  intro heq
  rw [toInt?_eq_some_iff_quantity?.2 heq] at h
  cases h

end Binary64

namespace Value

variable {a b : Value}

theorem IsNumber.integral_or (ha : a.IsNumber) :
    (∃ n, a.quantity? = quantity? (.int n) ∧ a.key? = some (toString n)) ∨
      ∃ x : Binary64, x.toInt? = Option.none ∧ a.quantity? = x.quantity? ∧ a.key? = some x.key := by
  cases ha with
  | int n => exact .inl ⟨n, rfl, rfl⟩
  | float x id =>
    cases hx : x.toInt? with
    | none => exact .inr ⟨x, hx, rfl, rfl⟩
    | some n =>
      exact .inl ⟨n, Binary64.toInt?_eq_some_iff_quantity?.1 hx,
        congrArg some (Binary64.key_of_toInt?_eq_some hx)⟩

theorem IsNumber.exists_key? (ha : a.IsNumber) : ∃ k, a.key? = some k := by
  cases ha with
  | int n => exact ⟨_, rfl⟩
  | float x => exact ⟨_, rfl⟩

theorem IsNumber.key?_eq_iff (ha : a.IsNumber) (hb : b.IsNumber) :
    a.key? = b.key? ↔ a.quantity? = b.quantity? := by
  obtain ⟨n, hqa, hka⟩ | ⟨x, hx, hqa, hka⟩ := ha.integral_or
  · obtain ⟨m, hqb, hkb⟩ | ⟨y, hy, hqb, hkb⟩ := hb.integral_or
    · rw [hka, hkb, hqa, hqb, quantity?_int_inj, Option.some.injEq, Int.toString_inj]
    · rw [hka, hkb, hqa, hqb, Option.some.injEq]
      exact iff_of_false ((Binary64.hasMark_key hy).ne_toString n).symm
        (Binary64.quantity?_ne_int hy n).symm
  · obtain ⟨m, hqb, hkb⟩ | ⟨y, hy, hqb, hkb⟩ := hb.integral_or
    · rw [hka, hkb, hqa, hqb, Option.some.injEq]
      exact iff_of_false ((Binary64.hasMark_key hx).ne_toString m)
        (Binary64.quantity?_ne_int hx m)
    · rw [hka, hkb, hqa, hqb, Option.some.injEq]
      constructor
      · intro h
        rw [Option.some.inj ((Binary64.read?_key hx).symm.trans (h ▸ Binary64.read?_key hy))]
      · intro h
        cases Binary64.eq_or_isZero_of_quantity? h with
        | inl heq => rw [heq]
        | inr hzero =>
          have hquantity := Binary64.quantity?_eq_some_rational.2
            (Binary64.rational?_eq_of_isZero hzero.1)
          exact absurd (by simpa [quantity?] using hquantity) (Binary64.quantity?_ne_int hx 0)

theorem IsNumber.key?_ne (ha : a.IsNumber) {text : String} (hmark : HasMark text)
    (hread : Binary64.read? text = Option.none) : a.key? ≠ some text := by
  intro h
  obtain ⟨n, -, hka⟩ | ⟨x, hx, -, hka⟩ := ha.integral_or
  · exact hmark.ne_toString n (Option.some.inj (h.symm.trans hka))
  · obtain rfl : text = x.key := Option.some.inj (h.symm.trans hka)
    rw [Binary64.read?_key hx] at hread
    cases hread

theorem IsNumber.key?_ne_bool (ha : a.IsNumber) (c : Bool) : a.key? ≠ (bool c).key? := by
  cases c with
  | false => exact ha.key?_ne ⟨'f', by decide⟩ (by decide +kernel)
  | true => exact ha.key?_ne ⟨'t', by decide⟩ (by decide +kernel)

theorem IsNumber.key?_ne_undefined (ha : a.IsNumber) : a.key? ≠ undefined.key? :=
  ha.key?_ne ⟨'u', by decide⟩ (by decide +kernel)

theorem IsNumber.key?_eq_of_same (ha : a.IsNumber) (hb : b.IsNumber) (h : a.same b = true) :
    a.key? = b.key? :=
  (ha.key?_eq_iff hb).2 ((ha.same_iff hb).1 h).1

end Value

namespace Realm

variable {σ : Type} {a b : Value}

theorem requireKey_eq_iff {k j : String} (ha : a.key? = some k) (hb : b.key? = some j)
    (r : Realm σ) : requireKey a r = requireKey b r ↔ a.key? = b.key? := by
  rw [requireKey_run, requireKey_run, ha, hb]
  simp

/--
Every number names a property. Two numbers name the same one if and only if they are equal as
numbers or both are NaN, and so they do where they are the same value; no number names the property
of a boolean or of `undefined`.
-/
theorem requireKey_number (ha : a.IsNumber) (hb : b.IsNumber) (r : Realm σ) :
    (∃ k, requireKey a r = .ok k r) ∧
      (requireKey a r = requireKey b r ↔
        a.NumericallyEqual b ∨ (a.isNaN = true ∧ b.isNaN = true)) ∧
      (a.same b = true → requireKey a r = requireKey b r) ∧
      (∀ c, requireKey a r ≠ requireKey (.bool c) r) ∧
      requireKey a r ≠ requireKey .undefined r := by
  obtain ⟨k, hk⟩ := ha.exists_key?
  obtain ⟨j, hj⟩ := hb.exists_key?
  refine ⟨⟨k, by rw [requireKey_run, hk]⟩, ?_, ?_, ?_, ?_⟩
  · rw [requireKey_eq_iff hk hj, ha.key?_eq_iff hb, ha.quantity?_eq_iff hb]
  · intro hsame
    exact (requireKey_eq_iff hk hj r).2 (ha.key?_eq_of_same hb hsame)
  · intro c hc
    exact ha.key?_ne_bool c ((requireKey_eq_iff hk rfl r).1 hc)
  · intro hundefined
    exact ha.key?_ne_undefined ((requireKey_eq_iff hk rfl r).1 hundefined)

theorem requireKey_number_zero :
    (Value.int 0).IsNumber ∧ (Value.float (.zero true) 1).IsNumber ∧
      (Value.int 0).same (.float (.zero true) 1) = false ∧
      requireKey (.int 0) ({ client := () } : Realm Unit) =
        requireKey (.float (.zero true) 1) { client := () } := by
  have hint : (Value.int 0).IsNumber := .int 0
  have hfloat : (Value.float (.zero true) 1).IsNumber := .float _ 1
  have hzero : (Binary64.zero true).toInt? = some 0 := by decide +kernel
  have hequal : (Value.int 0).NumericallyEqual (.float (.zero true) 1) :=
    ⟨_, rfl, Binary64.toInt?_eq_some_iff_quantity?.1 hzero⟩
  exact ⟨hint, hfloat, by decide +kernel, (requireKey_number hint hfloat _).2.1.2 (.inl hequal)⟩

end Realm

end ObjectModel
