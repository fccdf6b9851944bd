import ObjectModel.Number.Written
import ObjectModel.Proofs.Number.Shortest

/-!
The text of a binary64 number is read as that number, so different numbers have different texts.
The text of a decimal is a numeral of a decimal of the same value, and numerals are read in parts:
digits, a point and more digits, an exponent.
-/

namespace ObjectModel

namespace Decimal

variable {d : Decimal} {whole fraction rest text : List Char} {power : Int}

theorem span_isDigit (hdigits : ∀ c ∈ whole, c.isDigit = true)
    (hrest : ∀ c ∈ rest.head?, c.isDigit = false) :
    (whole ++ rest).span Char.isDigit = (whole, rest) := by
  have htake : rest.takeWhile Char.isDigit = [] := by
    cases rest with
    | nil => rfl
    | cons c rest => exact List.takeWhile_cons_of_neg (by simpa using hrest c rfl)
  have hdrop : rest.dropWhile Char.isDigit = rest := by
    cases rest with
    | nil => rfl
    | cons c rest => exact List.dropWhile_cons_of_neg (by simpa using hrest c rfl)
  rw [List.span_eq_takeWhile_dropWhile, List.takeWhile_append_of_pos hdigits, htake,
    List.dropWhile_append_of_pos hdigits, hdrop, List.append_nil]

theorem ofDigits_toDigits (n : Nat) : ofDigits (Nat.toDigits 10 n) = n :=
  Nat.ofDigitChars_ten_toDigits

theorem ofDigits_append (l l' : List Char) :
    ofDigits (l ++ l') = 10 ^ l'.length * ofDigits l + ofDigits l' :=
  (Nat.ofDigitChars_append 0).trans Nat.ofDigitChars_eq_ofDigitChars_zero

theorem ofDigits_zeros (count : Nat) : ofDigits (written.zeros count) = 0 :=
  Nat.ofDigitChars_replicate_zero

theorem ofDigits_zeros_append (count : Nat) (digits : List Char) :
    ofDigits (written.zeros count ++ digits) = ofDigits digits := by
  rw [ofDigits_append, ofDigits_zeros, Nat.mul_zero, Nat.zero_add]

theorem isDigit_of_mem_zeros {count : Nat} {c : Char} (hc : c ∈ written.zeros count) :
    c.isDigit = true := by
  rw [List.eq_of_mem_replicate hc]
  rfl

theorem isDigit_of_mem_toDigits {n : Nat} {c : Char} (hc : c ∈ Nat.toDigits 10 n) :
    c.isDigit = true :=
  Nat.isDigit_of_mem_toDigits (by decide) (by decide) hc

def exponentDigits (power : Int) : List Char :=
  (if power.natAbs < 10 then ['0'] else []) ++ Nat.toDigits 10 power.natAbs

theorem toList_writtenExponent (power : Int) : (writtenExponent power).toList =
    'e' :: (if power < 0 then '-' else '+') :: exponentDigits power := by
  simp only [writtenExponent, exponentDigits, Nat.toString_eq_ofList_toDigits]
  split <;> split <;> simp

theorem isDigit_of_mem_exponentDigits {c : Char} (hc : c ∈ exponentDigits power) :
    c.isDigit = true := by
  rw [exponentDigits, List.mem_append] at hc
  cases hc with
  | inl hc =>
    split at hc
    · rw [List.mem_singleton.1 hc]
      rfl
    · cases hc
  | inr hc => exact isDigit_of_mem_toDigits hc

theorem ofDigits_exponentDigits (power : Int) : ofDigits (exponentDigits power) = power.natAbs := by
  rw [exponentDigits, ofDigits_append, ofDigits_toDigits]
  split <;> simp [ofDigits]

theorem readExponent?_writtenExponent (power : Int) :
    readExponent? (writtenExponent power).toList = some power := by
  have hne : exponentDigits power ≠ [] := by simp [exponentDigits, Nat.toDigits_ne_nil]
  have hall : (exponentDigits power).all Char.isDigit = true :=
    List.all_eq_true.2 fun c => isDigit_of_mem_exponentDigits
  have hmark : 'e'.toLower = 'e' := by decide
  rw [toList_writtenExponent]
  by_cases hneg : power < 0
  · simp only [hneg, if_true, readExponent?, splitSign, hmark, hall, ofDigits_exponentDigits]
    simp only [ne_eq, hne, not_false_eq_true, and_self, if_true, Option.some.injEq]
    omega
  · simp only [hneg, if_false, readExponent?, splitSign, hmark, hall, ofDigits_exponentDigits]
    simp only [ne_eq, hne, not_false_eq_true, and_self, if_true, Bool.false_eq_true, if_false,
      Option.some.injEq]
    omega

inductive Ending : Int → List Char → Prop
  | none : Ending 0 []
  | exponent (power : Int) : Ending power (writtenExponent power).toList

theorem Ending.readExponent?_eq (h : Ending power text) : readExponent? text = some power := by
  cases h with
  | none => rfl
  | exponent => exact readExponent?_writtenExponent power

theorem Ending.head_not_isDigit (h : Ending power text) : ∀ c ∈ text.head?, c.isDigit = false := by
  cases h with
  | none => simp
  | exponent =>
    rw [toList_writtenExponent]
    rintro c ⟨⟩
    rfl

inductive Numeral : Decimal → List Char → Prop
  | point {whole fraction rest : List Char} {power : Int} (hne : whole ≠ [])
      (hwhole : ∀ c ∈ whole, c.isDigit = true) (hfraction : ∀ c ∈ fraction, c.isDigit = true)
      (hending : Ending power rest) :
      Numeral ⟨ofDigits (whole ++ fraction), power - fraction.length⟩
        (whole ++ '.' :: (fraction ++ rest))
  | bare {whole : List Char} (power : Int) (hne : whole ≠ [])
      (hwhole : ∀ c ∈ whole, c.isDigit = true) :
      Numeral ⟨ofDigits whole, power⟩ (whole ++ (writtenExponent power).toList)

theorem Numeral.read?_eq (h : Numeral d text) : read? text = some d := by
  cases h with
  | @point whole fraction rest power hne hwhole hfraction hending =>
    have hpoint : ∀ c ∈ ('.' :: (fraction ++ rest)).head?, c.isDigit = false := by
      rintro c ⟨⟩
      rfl
    simp only [read?, span_isDigit hwhole hpoint, span_isDigit hfraction hending.head_not_isDigit,
      List.append_eq_nil_iff, hne, false_and, if_false, hending.readExponent?_eq, Option.map_some]
  | bare power hne hwhole =>
    have hmark := (Ending.exponent power).head_not_isDigit
    have hrest := readExponent?_writtenExponent power
    rw [toList_writtenExponent] at hmark hrest ⊢
    simp only [read?, span_isDigit hwhole hmark]
    simp [hne, hrest]

theorem Numeral.head_isDigit (h : Numeral d text) :
    ∃ c rest, text = c :: rest ∧ c.isDigit = true := by
  cases h with
  | point hne hwhole =>
    obtain ⟨c, rest, rfl⟩ := List.exists_cons_of_ne_nil hne
    exact ⟨c, _, rfl, hwhole c List.mem_cons_self⟩
  | bare power hne hwhole =>
    obtain ⟨c, rest, rfl⟩ := List.exists_cons_of_ne_nil hne
    exact ⟨c, _, rfl, hwhole c List.mem_cons_self⟩

theorem Numeral.exists_mark (h : Numeral d text) : '.' ∈ text ∨ 'e' ∈ text := by
  cases h with
  | point => simp
  | bare power => simp [toList_writtenExponent]

theorem value_append_zeros {digits : List Char} (count : Nat) (e : Int) :
    value ⟨ofDigits (digits ++ written.zeros count), e⟩ = value ⟨ofDigits digits, count + e⟩ := by
  rw [ofDigits_append, ofDigits_zeros, written.zeros, List.length_replicate, value, value,
    zpow_add₀ (by decide), zpow_natCast]
  push_cast
  ring

def Denotes (text : List Char) (d : Decimal) : Prop :=
  ∃ d', Numeral d' text ∧ d'.value = d.value

theorem Denotes.of_eq (h : Denotes text d) {d' : Decimal} (hc : d.coefficient = d'.coefficient)
    (he : d.exponent = d'.exponent) : Denotes text d' := by
  cases d
  cases d'
  cases hc
  cases he
  exact h

section

variable {digits : List Char} (hdigits : ∀ c ∈ digits, c.isDigit = true)
include hdigits

theorem denotes_zeros (hne : digits ≠ []) (count : Nat) :
    Denotes (digits ++ written.zeros count ++ ['.', '0']) ⟨ofDigits digits, count⟩ := by
  have hwhole : ∀ c ∈ digits ++ written.zeros count, c.isDigit = true := by
    intro c hc
    exact (List.mem_append.1 hc).elim (hdigits c) isDigit_of_mem_zeros
  have hzero : ∀ c ∈ written.zeros 1, c.isDigit = true := fun c => isDigit_of_mem_zeros
  refine ⟨_, .point (by simp [hne]) hwhole hzero .none, ?_⟩
  rw [value_append_zeros, value_append_zeros, written.zeros, List.length_replicate]
  simp

theorem denotes_split {whole : Nat} (hne : digits ≠ []) (hwhole : 0 < whole)
    (hle : whole ≤ digits.length) :
    Denotes (digits.take whole ++ '.' :: digits.drop whole)
      ⟨ofDigits digits, whole - digits.length⟩ := by
  have htake : digits.take whole ≠ [] := by
    rw [Ne, List.take_eq_nil_iff]
    simp only [hne, or_false]
    omega
  rw [← List.append_nil (digits.drop whole)]
  refine ⟨_, .point htake (fun c hc => hdigits c (List.mem_of_mem_take hc))
    (fun c hc => hdigits c (List.mem_of_mem_drop hc)) .none, ?_⟩
  rw [List.take_append_drop, List.length_drop]
  congr 2
  omega

theorem denotes_fraction (count : Nat) :
    Denotes ('0' :: '.' :: written.zeros count ++ digits)
      ⟨ofDigits digits, -(count + digits.length)⟩ := by
  have hfraction : ∀ c ∈ written.zeros count ++ digits, c.isDigit = true := by
    intro c hc
    exact (List.mem_append.1 hc).elim isDigit_of_mem_zeros (hdigits c)
  have hzero : ∀ c ∈ written.zeros 1, c.isDigit = true := fun c => isDigit_of_mem_zeros
  have htext : '0' :: '.' :: written.zeros count ++ digits =
      written.zeros 1 ++ '.' :: (written.zeros count ++ digits ++ []) := by
    rw [List.append_nil]
    rfl
  rw [htext]
  refine ⟨_, .point (by simp [written.zeros]) hzero hfraction .none, ?_⟩
  rw [ofDigits_zeros_append, ofDigits_zeros_append, List.length_append, written.zeros,
    List.length_replicate]
  congr 2
  omega

end

theorem denotes_scientific {first : Char} {rest : List Char} (hfirst : first.isDigit = true)
    (hrest : ∀ c ∈ rest, c.isDigit = true) (power : Int) :
    Denotes (first :: '.' :: rest ++ (writtenExponent power).toList)
      ⟨ofDigits (first :: rest), power - rest.length⟩ :=
  ⟨_, .point (List.cons_ne_nil first []) (by simpa using hfirst) hrest (.exponent power), rfl⟩

theorem denotes_written (d : Decimal) : Denotes d.written.toList d := by
  obtain ⟨c, e⟩ := d
  have hdigits : ∀ x ∈ Nat.toDigits 10 c, x.isDigit = true := fun x => isDigit_of_mem_toDigits
  have hne : Nat.toDigits 10 c ≠ [] := Nat.toDigits_ne_nil
  have hof := ofDigits_toDigits c
  unfold written
  dsimp only
  generalize Nat.toDigits 10 c = digits at *
  -- the layouts differ in where the point is, which the exponent makes good
  split
  · split
    · rw [String.toList_append, String.toList_ofList]
      exact (denotes_zeros hdigits hne _).of_eq hof (by simpa)
    · split
      · rw [String.toList_ofList]
        exact (denotes_split hdigits hne (by omega) (by omega)).of_eq hof (by simp; omega)
      · rw [String.toList_ofList]
        exact (denotes_fraction hdigits _).of_eq hof (by simp; omega)
  · match digits, hne with
    | [first], _ =>
      rw [String.toList_append, String.toList_ofList]
      exact Denotes.of_eq ⟨_, .bare _ (by simp) hdigits, rfl⟩ hof (by simp)
    | first :: second :: rest, _ =>
      rw [String.toList_append, String.toList_ofList]
      refine (denotes_scientific (hdigits first List.mem_cons_self)
        (fun c hc => hdigits c (List.mem_cons_of_mem _ hc)) _).of_eq hof ?_
      simp
      omega

end Decimal

namespace Binary64

theorem toLower_of_isDigit {c : Char} (hc : c.isDigit = true) : c.toLower = c := by
  have hle : c.toNat ≤ '9'.toNat := (Char.isDigit_iff_toNat.1 hc).2
  refine dif_neg fun hupper => ?_
  have hge : 'A'.toNat ≤ c.toNat := UInt32.le_iff_toNat_le.1 hupper.1
  exact absurd (Nat.le_trans hge hle) (by decide)

theorem read?_signed {text : String} {d : Decimal} (h : Decimal.Denotes text.toList d)
    (negative : Bool) : read? (written.signed negative text) = some (d.toBinary64 negative) := by
  obtain ⟨d', hnumeral, hvalue⟩ := h
  obtain ⟨c, rest, htext, hc⟩ := hnumeral.head_isDigit
  have hsplit : Decimal.splitSign (written.signed negative text).toList =
      (negative, text.toList) := by
    cases negative with
    | true =>
      simp [written.signed, Decimal.splitSign]
    | false =>
      rw [written.signed, if_neg Bool.false_ne_true, htext]
      unfold Decimal.splitSign
      split
      · next heq => cases heq; cases hc
      · next heq => cases heq; cases hc
      · rfl
  -- it starts with a digit, and so it is none of the words
  have hword (first : Char) (letters : List Char) (hfirst : first.isDigit = false) :
      String.ofList (text.toList.map Char.toLower) ≠ String.ofList (first :: letters) := by
    intro heq
    rw [String.ofList_inj, htext, List.map_cons, toLower_of_isDigit hc, List.cons.injEq] at heq
    rw [← heq.1, hc] at hfirst
    cases hfirst
  have hnan := hword 'n' ['a', 'n'] rfl
  have hinf := hword 'i' ['n', 'f'] rfl
  have hinfinity := hword 'i' ['n', 'f', 'i', 'n', 'i', 't', 'y'] rfl
  unfold read?
  rw [hsplit]
  dsimp only
  rw [if_neg hnan, if_neg (fun h => h.elim hinf hinfinity), hnumeral.read?_eq, Option.map_some,
    Decimal.toBinary64_congr hvalue]

theorem read?_written_zero : ∀ negative, read? (zero negative).written = some (zero negative) := by
  decide +kernel

theorem read?_written (x : Binary64) : read? x.written = some x := by
  cases x with
  | nan => decide +kernel
  | infinity negative => cases negative <;> decide +kernel
  | finite negative m e hc =>
    by_cases hm : m = 0
    · subst hm
      obtain rfl : e = -1074 := hc.2.2.2.resolve_left (by decide)
      exact read?_written_zero negative
    · rw [written, if_neg hm, read?_signed (Decimal.denotes_written _), toBinary64_shortest hc hm]

end Binary64

end ObjectModel
