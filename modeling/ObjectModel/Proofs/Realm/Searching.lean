import ObjectModel.Proofs.Heap.Order
import ObjectModel.Proofs.Realm.Equations
import ObjectModel.Realm.Own

/-!
The walks of a realm along the chain of a record: what is above the record, which properties it has,
and who owns them. Each comes to what the chain says, and fails only where it comes to an end that
strays.
-/

namespace ObjectModel.Realm

variable {σ : Type} {r : Realm σ} {o a b c x : ObjectId} {key : Value} {k : String}
  {d : Descriptor}

structure Searches (r : Realm σ) (o : ObjectId) (m : RealmM σ Bool) (P : Prop) : Prop where
  found : P → m r = .ok true r
  missed : ¬ P → m r =
    match r.heap.strayEnd? (some o) with
    | some _ => .error .notRecord r
    | none => .ok false r

theorem Searches.holds_iff {m : RealmM σ Bool} {P : Prop} (h : r.Searches o m P) :
    m r = .ok true r ↔ P := by
  constructor
  · intro htrue
    by_contra hP
    rw [h.missed hP] at htrue
    split at htrue <;> cases htrue
  · exact h.found

theorem Searches.congr {m : RealmM σ Bool} {P Q : Prop} (h : r.Searches o m P) (hPQ : P ↔ Q) :
    r.Searches o m Q :=
  ⟨fun hQ => h.found (hPQ.2 hQ), fun hQ => h.missed (mt hPQ.1 hQ)⟩

theorem requireEnd_run (start : Option ObjectId) (r : Realm σ) :
    requireEnd start r =
      match r.heap.strayEnd? start with
      | some _ => .error .notRecord r
      | none => .ok () r := by
  rw [requireEnd, bind_run, readHeap_run]
  dsimp only
  cases r.heap.strayEnd? start <;> rfl

theorem isAbove_run (ancestor : Value) (o : ObjectId) (r : Realm σ) :
    isAbove ancestor o r =
      if (r.heap.object? ancestor).any (r.heap.isPrototypeOf · o) = true ∨
          r.heap.strayEnd? (some o) = some ancestor then .ok true r
      else
        match r.heap.strayEnd? (some o) with
        | some _ => .error .notRecord r
        | none => .ok false r := by
  simp only [isAbove, bind_run, readHeap_run, Bool.or_eq_true, decide_eq_true_eq]
  split
  · rfl
  · rw [bind_run, requireEnd_run]
    cases r.heap.strayEnd? (some o) <;> rfl

theorem searches_isAbove (hset : r.heap.Settled) (ho : o < r.heap.size) (ha : a < r.heap.size) :
    r.Searches o (isAbove (.object a) o) (a ∈ (r.heap.chain (some o)).tail) := by
  have hrun := isAbove_run (.object a) o r
  simp only [Heap.object?_object ha, Option.any_some, r.heap.strayEnd?_ne_object, or_false,
    hset.isPrototypeOf_iff ho] at hrun
  exact ⟨fun hmem => hrun.trans (if_pos hmem), fun hmem => hrun.trans (if_neg hmem)⟩

theorem searches_isPrototypeOf (hset : r.heap.Settled) (ho : o < r.heap.size)
    (ha : a < r.heap.size) :
    r.Searches o (isPrototypeOf (.object a) (.object o)) (a ∈ (r.heap.chain (some o)).tail) := by
  have hrun : isPrototypeOf (.object a) (.object o) r = isAbove (.object a) o r := by
    simp only [isPrototypeOf, bind_run, object?_run, Heap.object?_object ho]
  obtain ⟨hfound, hmissed⟩ := searches_isAbove hset ho ha
  exact ⟨fun h => hrun.trans (hfound h), fun h => hrun.trans (hmissed h)⟩

theorem isPrototypeOf_eq_ok_true_iff (hset : r.heap.Settled) :
    isPrototypeOf (.object a) (.object o) r = .ok true r ↔
      o < r.heap.size ∧ a ∈ (r.heap.chain (some o)).tail := by
  by_cases ho : o < r.heap.size
  · by_cases ha : a < r.heap.size
    · rw [(searches_isPrototypeOf hset ho ha).holds_iff]
      exact (and_iff_right ho).symm
    · have hmem : a ∉ (r.heap.chain (some o)).tail := fun hmem =>
        ha (hset.lt_size_of_mem_chain ho (List.mem_of_mem_tail hmem))
      have hnone : r.heap.object? (.object a) = none := if_neg ha
      refine iff_of_false (fun htrue => ?_) (fun h => hmem h.2)
      simp only [isPrototypeOf, bind_run, object?_run, Heap.object?_object ho, isAbove_run, hnone,
        Option.any_none, r.heap.strayEnd?_ne_object, Bool.false_eq_true, or_self, if_false] at htrue
      split at htrue <;> cases htrue
  · have hnone : r.heap.object? (.object o) = none := if_neg ho
    refine iff_of_false (fun htrue => ?_) (fun h => ho h.1)
    simp only [isPrototypeOf, bind_run, object?_run, hnone] at htrue
    cases htrue

structure Ordered (r : Realm σ) : Prop where
  irrefl : ∀ a, isPrototypeOf (.object a) (.object a) r ≠ .ok true r
  trans : ∀ a b c, isPrototypeOf (.object a) (.object b) r = .ok true r →
    isPrototypeOf (.object b) (.object c) r = .ok true r →
    isPrototypeOf (.object a) (.object c) r = .ok true r
  comparable : ∀ a b o, isPrototypeOf (.object a) (.object o) r = .ok true r →
    isPrototypeOf (.object b) (.object o) r = .ok true r → a ≠ b →
    isPrototypeOf (.object a) (.object b) r = .ok true r ∨
      isPrototypeOf (.object b) (.object a) r = .ok true r

theorem ordered_of_settled (hset : r.heap.Settled) : r.Ordered := by
  constructor
  · intro a htrue
    obtain ⟨ha, hmem⟩ := (isPrototypeOf_eq_ok_true_iff hset).1 htrue
    exact hset.not_mem_tail_self ha hmem
  · intro a b c hab hbc
    rw [isPrototypeOf_eq_ok_true_iff hset] at *
    exact ⟨hbc.1, hset.mem_tail_trans hbc.1 hab.2 hbc.2⟩
  · intro a b o hao hbo hne
    rw [isPrototypeOf_eq_ok_true_iff hset] at hao hbo
    rw [isPrototypeOf_eq_ok_true_iff hset, isPrototypeOf_eq_ok_true_iff hset]
    have ha := hset.lt_size_of_mem_chain hao.1 (List.mem_of_mem_tail hao.2)
    have hb := hset.lt_size_of_mem_chain hbo.1 (List.mem_of_mem_tail hbo.2)
    obtain hab | hba := hset.mem_tail_or_mem_tail hao.1 hao.2 hbo.2 hne
    · exact .inl ⟨hb, hab⟩
    · exact .inr ⟨ha, hba⟩

theorem hasOwn_run (ho : o < r.heap.size) (hkey : key.key? = some k) :
    hasOwn (.object o) key r = .ok ((r.heap.table o).contains k) r := by
  simp only [hasOwn, bind_run, requireObject_run, Heap.object?_object ho, requireKey_run, hkey,
    tableOf_run, pure_run]

theorem hasProperty_run (ho : o < r.heap.size) (hkey : key.key? = some k) :
    hasProperty (.object o) key r =
      (find (some o) k >>= fun found => pure found.isSome) r := by
  simp only [hasProperty, bind_run, requireObject_run, Heap.object?_object ho, requireKey_run, hkey]

theorem removeOwn_of_absent
    (hown : (r.heap.table o).lookup k = none) :
    removeOwn o k r = (find (some o) k >>= fun found => pure found.isSome) r := by
  have hcontains : (r.heap.table o).contains k = false := by
    rw [Table.contains, hown]
    rfl
  simp only [removeOwn, bind_run, tableOf_run, hcontains, Bool.false_eq_true, if_false, find_run]
  rw [inherits_run, Heap.ownedAbove_eq_isSome_findProperty hown]
  cases r.heap.findProperty (some o) k with
  | some found => rfl
  | none => cases r.heap.strayEnd? (some o) <;> rfl

theorem deleteOwn_eq_hasProperty (hown : hasOwn (.object o) key r = .ok false r) :
    deleteOwn (.object o) key r = hasProperty (.object o) key r := by
  simp only [hasOwn, deleteOwn, hasProperty, bind_run, requireObject_run] at hown ⊢
  cases ho : r.heap.object? (.object o) with
  | none => rfl
  | some o' =>
    rw [ho] at hown
    simp only [requireKey_run] at hown ⊢
    cases hkey : key.key? with
    | none => rfl
    | some k =>
      simp only [hkey, tableOf_run, pure_run, EStateM.Result.ok.injEq, and_true] at hown
      rw [Table.contains, Option.isSome_eq_false_iff, Option.isNone_iff_eq_none] at hown
      simp only [removeOwn_of_absent hown, bind_run]

theorem find_eq_ok_some_iff :
    find (some o) k r = .ok (some (x, d)) r ↔
      r.heap.firstOwner k (r.heap.chain (some o)) = some (x, d) := by
  rw [find_run, Heap.findProperty_eq_firstOwner]
  cases r.heap.firstOwner k (r.heap.chain (some o)) with
  | some found => simp
  | none => cases r.heap.strayEnd? (some o) <;> simp

theorem find_eq_ok_none_iff :
    find (some o) k r = .ok none r ↔
      r.heap.firstOwner k (r.heap.chain (some o)) = none ∧ r.heap.strayEnd? (some o) = none := by
  rw [find_run, Heap.findProperty_eq_firstOwner]
  cases r.heap.firstOwner k (r.heap.chain (some o)) with
  | some found => simp
  | none => cases r.heap.strayEnd? (some o) <;> simp

theorem searches_hasProperty (ho : o < r.heap.size) (hkey : key.key? = some k) :
    r.Searches o (hasProperty (.object o) key)
      (∃ x ∈ r.heap.chain (some o), (r.heap.table x).contains k = true) := by
  refine Searches.congr ?_ Heap.firstOwner_isSome_iff
  have hrun := hasProperty_run ho hkey
  rw [bind_run, find_run, Heap.findProperty_eq_firstOwner] at hrun
  cases hfound : r.heap.firstOwner k (r.heap.chain (some o)) with
  | some found =>
    rw [hfound] at hrun
    exact ⟨fun _ => hrun, fun habsent => absurd rfl habsent⟩
  | none =>
    rw [hfound] at hrun
    refine ⟨nofun, fun _ => ?_⟩
    rw [hrun]
    cases r.heap.strayEnd? (some o) <;> rfl

/-- The walks from a record agree with its chain, on which no record is met twice. -/
structure Walked (r : Realm σ) (o : ObjectId) : Prop where
  nodup : (r.heap.chain (some o)).Nodup
  /-- The check for cycles meets the records of the chain. -/
  reaches : ∀ a, r.heap.reaches (some o) a = (r.heap.chain (some o)).contains a
  isPrototypeOf : ∀ a < r.heap.size,
    r.Searches o (isPrototypeOf (.object a) (.object o)) (a ∈ (r.heap.chain (some o)).tail)
  hasProperty : ∀ key k, key.key? = some k →
    r.Searches o (hasProperty (.object o) key)
      (∃ x ∈ r.heap.chain (some o), hasOwn (.object x) key r = .ok true r)
  /-- What is found is the nearest record that owns the key, with what it has there. -/
  find_some : ∀ key k, key.key? = some k → ∀ x d,
    find (some o) k r = .ok (some (x, d)) r ↔
      ∃ before after, r.heap.chain (some o) = before ++ x :: after ∧
        (∀ y ∈ before, hasOwn (.object y) key r = .ok false r) ∧
        (r.heap.table x).lookup k = some d
  find_none : ∀ key k, key.key? = some k →
    (find (some o) k r = .ok none r ↔
      (∀ x ∈ r.heap.chain (some o), hasOwn (.object x) key r = .ok false r) ∧
        r.heap.strayEnd? (some o) = none)
  deleteOwn : ∀ key, hasOwn (.object o) key r = .ok false r →
    deleteOwn (.object o) key r = Realm.hasProperty (.object o) key r

theorem walked_of_settled (hset : r.heap.Settled) (ho : o < r.heap.size) : r.Walked o := by
  have hown {key : Value} {k : String} (hkey : key.key? = some k) {x : ObjectId}
      (hx : x ∈ r.heap.chain (some o)) :
      hasOwn (.object x) key r = .ok ((r.heap.table x).contains k) r :=
    hasOwn_run (hset.lt_size_of_mem_chain ho hx) hkey
  have howns {key : Value} {k : String} (hkey : key.key? = some k) {x : ObjectId}
      (hx : x ∈ r.heap.chain (some o)) :
      hasOwn (.object x) key r = .ok true r ↔ (r.heap.table x).contains k = true := by
    rw [hown hkey hx, EStateM.Result.ok.injEq, and_iff_left rfl]
  have hlacks {key : Value} {k : String} (hkey : key.key? = some k) {x : ObjectId}
      (hx : x ∈ r.heap.chain (some o)) :
      hasOwn (.object x) key r = .ok false r ↔ (r.heap.table x).lookup k = none := by
    rw [hown hkey hx, EStateM.Result.ok.injEq, and_iff_left rfl, Table.contains,
      Option.isSome_eq_false_iff, Option.isNone_iff_eq_none]
  constructor
  · exact hset.nodup_chain ho
  · exact r.heap.reaches_eq_contains (some o)
  · exact fun a => searches_isPrototypeOf hset ho
  · intro key k hkey
    exact (searches_hasProperty ho hkey).congr
      (exists_congr fun x => and_congr_right fun hx => (howns hkey hx).symm)
  · intro key k hkey x d
    rw [find_eq_ok_some_iff, Heap.firstOwner_eq_some_iff]
    refine exists_congr fun before => exists_congr fun after => and_congr_right fun hchain => ?_
    refine and_congr_left fun _ => forall₂_congr fun y hy => ?_
    exact (hlacks hkey (hchain ▸ List.mem_append_left _ hy)).symm
  · intro key k hkey
    rw [find_eq_ok_none_iff, Heap.firstOwner, List.findSome?_eq_none_iff]
    refine and_congr_left fun _ => forall₂_congr fun x hx => ?_
    rw [hlacks hkey hx, Option.map_eq_none_iff]
  · exact fun key => deleteOwn_eq_hasProperty

end ObjectModel.Realm
