import ObjectModel.Proofs.Heap.Commuting
import ObjectModel.Proofs.Heap.DataRecords
import ObjectModel.Proofs.Realm.Above

/-!
Two assignments that run no setter, to different properties. What comes of each is decided by the
heap alone, by nothing that the other one changes, so that they may be made in either order.
-/

namespace ObjectModel

abbrev Verdict :=
  Except Failure (Option ModelError)

def Verdict.settled (strict : Bool) : Verdict → Except Failure Bool
  | .ok none => .ok true
  | .ok (some error) => if strict then .error (.model error) else .ok false
  | .error failure => .error failure

theorem Verdict.settled_eq_true_iff {strict : Bool} {verdict : Verdict} :
    verdict.settled strict = .ok true ↔ verdict = .ok none := by
  cases verdict with
  | error failure => exact iff_of_false nofun nofun
  | ok refusal =>
    cases refusal with
    | none => exact iff_of_true rfl rfl
    | some error => cases strict <;> exact iff_of_false nofun nofun

namespace Table

variable {t t' : Table} {key : String}

instance (t : Table) (key : String) : Decidable (t.StuckAt key) :=
  inferInstanceAs (Decidable (∃ d ∈ t.lookup key, d.Stuck))

def verdict (t : Table) (key : String) : Verdict :=
  match t.unassignable? key with
  | some error => .ok (some error)
  | none => if t.StuckAt key then .error (.model (.conflict key .enumerable)) else .ok none

theorem verdict_congr (hlookup : t'.lookup key = t.lookup key)
    (hextensible : t'.extensible = t.extensible) : t'.verdict key = t.verdict key := by
  have hrefusal : t'.unassignable? key = t.unassignable? key := by
    rw [unassignable?, unassignable?, hlookup, hextensible]
  have hstuck : t'.StuckAt key ↔ t.StuckAt key := by
    rw [StuckAt, StuckAt, hlookup]
  simp only [verdict, hrefusal, hstuck]

theorem assigned_congr (hlookup : t'.lookup key = t.lookup key) (v : Value) :
    t'.assigned key v = t.assigned key v := by
  simp only [assigned, hlookup]

theorem value?_assigned (t : Table) (key : String) (v : Value) :
    (t.assigned key v).value? = some v := by
  rw [assigned]
  split <;> rfl

theorem assigned_of_lookup_eq_none (hnew : t.lookup key = none) (v : Value) :
    t.assigned key v = .ofValue v := by
  rw [assigned, hnew]

end Table

namespace Heap

variable {h : Heap} {o p : ObjectId} {j k key : String} {v : Value}

def passage (h : Heap) (o : ObjectId) (key : String) : Verdict :=
  match h.findProperty (some o) key with
  | some (_, { slot := .value .., .. }) => .ok none
  | some (_, { slot := .accessor .., .. }) => .ok (some (.noSetter key))
  | none => if (h.strayEnd? (some o)).isSome then .error .notRecord else .ok none

def verdict (h : Heap) (o : ObjectId) (key : String) : Verdict :=
  match h.passage o key with
  | .ok none => (h.table o).verdict key
  | hindrance => hindrance

def decided (h : Heap) (o : ObjectId) (key : String) (v : Value) : Verdict → Heap
  | .ok none => h.apply (.define o key ((h.table o).assigned key v))
  | _ => h

theorem passage_of_strays (hstray : h.Strays o key) : h.passage o key = .error .notRecord := by
  rw [passage, hstray.1]
  exact if_pos hstray.2

theorem passage_of_not_strays (hstray : ¬ h.Strays o key) :
    h.passage o key = .ok none ∨ h.passage o key = .ok (some (.noSetter key)) := by
  rw [passage]
  split
  · exact .inl rfl
  · exact .inr rfl
  · next hnone => exact .inl (if_neg fun hend => hstray ⟨hnone, hend⟩)

theorem passage_of_verdict (hfree : h.verdict o key = .ok none) : h.passage o key = .ok none := by
  unfold verdict at hfree
  split at hfree
  · assumption
  · exact hfree

section Defined

variable {d : Descriptor}

theorem passage_of_value {holder : ObjectId}
    (hfound : h.findProperty (some o) key = some (holder, d)) (hd : d.value?.isSome = true) :
    h.passage o key = .ok none := by
  obtain ⟨slot, enumerable, configurable⟩ := d
  cases slot with
  | value => rw [passage, hfound]
  | accessor => cases hd

theorem setter?_of_value {start : Option ObjectId} {holder : ObjectId}
    (hfound : h.findProperty start key = some (holder, d)) (hd : d.value?.isSome = true) :
    h.setter? start key = none := by
  obtain ⟨slot, enumerable, configurable⟩ := d
  cases slot with
  | value => rw [setter?, hfound]
  | accessor => cases hd

variable (hset : h.Settled) (ho : o < h.size) (hp : p < h.size) (hd : d.value?.isSome = true)
  (hfree : h.passage o j = .ok none)

include ho hd in
theorem setter?_define (hsetter : h.setter? (some p) k = none) :
    (h.apply (.define o j d)).setter? (some p) k = none := by
  by_cases hexposed : k = j ∧ h.Exposes j o (h.chain (some p))
  · obtain ⟨rfl, hexposed⟩ := hexposed
    exact setter?_of_value (findProperty_define_of_exposes ho d hexposed) hd
  · rw [setter?, findProperty_define_of_not_exposes ho d hexposed]
    exact hsetter

include hset ho hp hd hfree in
theorem passage_define : (h.apply (.define o j d)).passage p k = h.passage p k := by
  by_cases hexposed : k = j ∧ h.Exposes j o (h.chain (some p))
  · obtain ⟨rfl, hexposed⟩ := hexposed
    obtain ⟨hfound, hend⟩ := hset.search_eq_of_exposes hp hexposed
    have hbefore : h.passage p k = .ok none := by
      rw [← hfree, passage, passage, hfound, hend]
    rw [hbefore]
    exact passage_of_value (findProperty_define_of_exposes ho d hexposed) hd
  · rw [passage, findProperty_define_of_not_exposes ho d hexposed, apply, strayEnd?_updateTable]
    rfl

include hset ho hp hd hfree in
theorem verdict_define (hapart : o ≠ p ∨ j ≠ k) :
    (h.apply (.define o j d)).verdict p k = h.verdict p k := by
  have htable : ((h.apply (.define o j d)).table p).verdict k = (h.table p).verdict k := by
    apply Table.verdict_congr
    · rw [lookup_define ho, if_neg]
      rintro ⟨rfl, rfl⟩
      exact hapart.elim (fun hne => hne rfl) fun hne => hne rfl
    · exact extensible_define _ _ _ _ _
  rw [verdict, verdict, passage_define hset ho hp hd hfree, htable]

end Defined

section Decided

variable (hset : h.Settled) (ho : o < h.size) (hp : p < h.size) (hapart : o ≠ p ∨ j ≠ k)

theorem size_decided (h : Heap) (o : ObjectId) (key : String) (v : Value) (verdict : Verdict) :
    (h.decided o key v verdict).size = h.size := by
  unfold decided
  split
  · exact size_define _ _ _ _
  · rfl

include ho in
theorem setter?_decided (v : Value) (verdict : Verdict) (hsetter : h.setter? (some p) k = none) :
    (h.decided o j v verdict).setter? (some p) k = none := by
  unfold decided
  split
  · exact setter?_define ho (by rw [Table.value?_assigned]; rfl) hsetter
  · exact hsetter

include hset ho hp hapart in
theorem verdict_decided (v : Value) :
    (h.decided o j v (h.verdict o j)).verdict p k = h.verdict p k := by
  unfold decided
  split
  · next hfree =>
    exact verdict_define hset ho hp (by rw [Table.value?_assigned]; rfl) (passage_of_verdict hfree)
      hapart
  · rfl

theorem assigned_decided (ho : o < h.size) (hapart : o ≠ p ∨ j ≠ k) (v : Value) (verdict : Verdict)
    (w : Value) : ((h.decided o j v verdict).table p).assigned k w = (h.table p).assigned k w := by
  unfold decided
  split
  · apply Table.assigned_congr
    rw [lookup_define ho, if_neg]
    rintro ⟨rfl, rfl⟩
    exact hapart.elim (fun hne => hne rfl) fun hne => hne rfl
  · rfl

theorem decided_comm (ho : o < h.size) (hp : p < h.size) (hapart : o ≠ p ∨ j ≠ k) (v w : Value)
    {first second : Verdict}
    (hold : o = p → first = .ok none → second = .ok none →
      j ∈ (h.table o).keys ∨ k ∈ (h.table o).keys) :
    (h.decided o j v first).decided p k w second =
      (h.decided p k w second).decided o j v first := by
  have hsecond := assigned_decided ho hapart v first w
  have hfirst := assigned_decided hp (hapart.imp Ne.symm Ne.symm) w second v
  match first, second with
  | .ok none, .ok none =>
    simp only [decided] at hfirst hsecond ⊢
    rw [hfirst, hsecond]
    exact h.apply_define_comm hapart _ _ fun heq => hold heq rfl rfl
  | .ok (some _), _ | .error _, _ | .ok none, .ok (some _) | .ok none, .error _ => rfl

theorem exists_decided_decided (ho : o < h.size) (hne : j ≠ k) (hj : j ∉ (h.table o).keys)
    (hk : k ∉ (h.table o).keys) (v w : Value) :
    ∃ t : Table, (h.decided o j v (.ok none)).decided o k w (.ok none) =
        h.updateTable o (fun _ => t) ∧ t.extensible = (h.table o).extensible ∧
      t.entries = (h.table o).entries ++ [(j, .ofValue v), (k, .ofValue w)] := by
  have hnew {i : String} (hi : i ∉ (h.table o).keys) : (h.table o).lookup i = none :=
    (Table.lookup_eq_none_iff _ _).2 hi
  have hassigned : ((h.decided o j v (.ok none)).table o).assigned k w =
      (h.table o).assigned k w := assigned_decided ho (.inr hne) v _ w
  rw [decided, hassigned, Table.assigned_of_lookup_eq_none (hnew hk), decided,
    Table.assigned_of_lookup_eq_none (hnew hj)]
  refine ⟨((h.table o).put j (.ofValue v)).put k (.ofValue w), ?_, rfl, ?_⟩
  · simp only [apply, updateTable_updateTable]
    exact h.updateTable_congr o rfl
  · have hk' : k ∉ ((h.table o).put j (.ofValue v)).keys := by
      rw [Table.keys_put, if_neg hj]
      simp [hk, hne.symm]
    rw [Table.entries_put _ hk', Table.entries_put _ hj, List.append_assoc]
    rfl

end Decided

end Heap

namespace Realm

variable {σ α : Type} {call : Caller σ} {r r' : Realm σ} {o o₁ o₂ : ObjectId} {k k₁ k₂ : String}
  {key key₁ key₂ v v₁ v₂ : Value} {strict : Bool} {verdict : Verdict}

def reply : EStateM.Result Failure (Realm σ) α → Except Failure α
  | .ok a _ => .ok a
  | .error failure _ => .error failure

structure Judged (r : Realm σ) (o : ObjectId) (k : String) (v : Value) (verdict : Verdict)
    (result : EStateM.Result Failure (Realm σ) (Option ModelError)) : Prop where
  reply_eq : reply result = verdict
  heap_eq : (ending result).heap = r.heap.decided o k v verdict

theorem judged_writeOwn (ho : o < r.heap.size) (k : String) (v : Value) :
    r.Judged o k v ((r.heap.table o).verdict k) (writeOwn (.object o) k v r) := by
  rw [writeOwn_run, Heap.object?_object ho]
  dsimp only
  rw [Table.verdict]
  cases htakes : (r.heap.table o).unassignable? k with
  | some error => exact ⟨rfl, rfl⟩
  | none =>
    dsimp only
    rw [bind_run, define_run]
    obtain ⟨hstuck, hrefusal⟩ | ⟨hstuck, hrefusal⟩ :=
      Table.refusal?_assigned r.pool v (Table.unassignable?_eq_none_iff.1 htakes)
    · rw [hrefusal, if_pos hstuck]
      exact ⟨rfl, rfl⟩
    · rw [hrefusal, if_neg hstuck]
      exact ⟨rfl, rfl⟩

theorem assign_eq_passage (ho : o < r.heap.size) (hkey : key.key? = some k)
    (hsetter : r.heap.setter? (some o) k = none) (v receiver : Value) :
    assign call (.object o) key v receiver r =
      match r.heap.passage o k with
      | .ok none => writeOwn (receiverOr receiver (.object o)) k v r
      | .ok (some error) => .ok (some error) r
      | .error failure => .error failure r := by
  rw [assign_run ho, bind_run, requireKey_run, hkey]
  dsimp only
  rw [write_run, Heap.passage]
  rw [Heap.setter?] at hsetter
  -- no setter runs, so it depends on the search alone whether the receiver is asked
  cases hfound : r.heap.findProperty (some o) k with
  | none => cases r.heap.strayEnd? (some o) <;> rfl
  | some found =>
    obtain ⟨holder, slot, enumerable, configurable⟩ := found
    cases slot with
    | value => rfl
    | accessor get set =>
      rw [hfound] at hsetter
      obtain rfl : set = none := hsetter
      rfl

theorem judged_assign (ho : o < r.heap.size) (hkey : key.key? = some k)
    (hsetter : r.heap.setter? (some o) k = none) (v : Value) :
    r.Judged o k v (r.heap.verdict o k) (assign call (.object o) key v .none r) := by
  rw [assign_eq_passage ho hkey hsetter, Heap.verdict]
  match r.heap.passage o k with
  | .ok none => exact judged_writeOwn ho k v
  | .ok (some error) | .error failure => exact ⟨rfl, rfl⟩

theorem Judged.settled {m : RealmM σ (Option ModelError)} (hm : r.Judged o k v verdict (m r))
    (strict : Bool) :
    reply ((m >>= settle strict) r) = verdict.settled strict ∧
      (ending ((m >>= settle strict) r)).heap = r.heap.decided o k v verdict := by
  obtain ⟨hreply, hheap⟩ := hm
  cases hrun : m r with
  | error failure r' =>
    rw [hrun] at hreply hheap
    rw [bind_error hrun]
    cases hreply
    exact ⟨rfl, hheap⟩
  | ok refusal r' =>
    rw [hrun] at hreply hheap
    rw [bind_ok hrun]
    cases hreply
    cases refusal with
    | none => exact ⟨rfl, hheap⟩
    | some error => cases strict <;> exact ⟨rfl, hheap⟩

theorem setProperty_eq_verdict (call : Caller σ) (ho : o < r.heap.size) (hkey : key.key? = some k)
    (hsetter : r.heap.setter? (some o) k = none) (v : Value) (strict : Bool) :
    reply (setProperty call (.object o) key v .none strict r) =
        (r.heap.verdict o k).settled strict ∧
      (ending (setProperty call (.object o) key v .none strict r)).heap =
        r.heap.decided o k v (r.heap.verdict o k) :=
  (judged_assign ho hkey hsetter v).settled strict

/--
Two assignments in either order: each comes to the same, and they leave the same heap, but for the
order of two keys that both of them add to one record.
-/
structure Commutes (r : Realm σ) (o₁ : ObjectId) (k₁ : String) (v₁ : Value) (o₂ : ObjectId)
    (k₂ : String) (v₂ : Value) (m₁ m₂ : RealmM σ Bool) : Prop where
  first : reply (m₁ (ending (m₂ r))) = reply (m₁ r)
  second : reply (m₂ (ending (m₁ r))) = reply (m₂ r)
  heap_eq :
    ¬ (o₁ = o₂ ∧ k₁ ∉ (r.heap.table o₁).keys ∧ k₂ ∉ (r.heap.table o₁).keys ∧
      reply (m₁ r) = .ok true ∧ reply (m₂ r) = .ok true) →
    (ending (m₂ (ending (m₁ r)))).heap = (ending (m₁ (ending (m₂ r)))).heap
  /-- Only the table of the record differs, and that in the order of its last two entries. -/
  appended : o₁ = o₂ → k₁ ∉ (r.heap.table o₁).keys → k₂ ∉ (r.heap.table o₁).keys →
    reply (m₁ r) = .ok true → reply (m₂ r) = .ok true →
    ∃ t₁ t₂ : Table, (ending (m₂ (ending (m₁ r)))).heap = r.heap.updateTable o₁ (fun _ => t₁) ∧
      (ending (m₁ (ending (m₂ r)))).heap = r.heap.updateTable o₁ (fun _ => t₂) ∧
      t₁.extensible = t₂.extensible ∧
      t₁.entries = (r.heap.table o₁).entries ++ [(k₁, .ofValue v₁), (k₂, .ofValue v₂)] ∧
      t₂.entries = (r.heap.table o₁).entries ++ [(k₂, .ofValue v₂), (k₁, .ofValue v₁)]

section Settled

variable (hset : r.heap.Settled) (ho₁ : o₁ < r.heap.size) (ho₂ : o₂ < r.heap.size)
  (hkey₁ : key₁.key? = some k₁) (hkey₂ : key₂.key? = some k₂) (hapart : o₁ ≠ o₂ ∨ k₁ ≠ k₂)
  (hsetter₁ : r.heap.setter? (some o₁) k₁ = none) (hsetter₂ : r.heap.setter? (some o₂) k₂ = none)
include hset ho₁ ho₂ hkey₁ hkey₂ hapart hsetter₁ hsetter₂

theorem setProperty_after_setProperty (call : Caller σ) (v₁ v₂ : Value) (strict : Bool) :
    let m₁ : RealmM σ Bool := setProperty call (.object o₁) key₁ v₁ .none strict
    let m₂ : RealmM σ Bool := setProperty call (.object o₂) key₂ v₂ .none strict
    reply (m₂ (ending (m₁ r))) = (r.heap.verdict o₂ k₂).settled strict ∧
      (ending (m₂ (ending (m₁ r)))).heap =
        (r.heap.decided o₁ k₁ v₁ (r.heap.verdict o₁ k₁)).decided o₂ k₂ v₂
          (r.heap.verdict o₂ k₂) := by
  intro m₁ m₂
  obtain ⟨-, hheap⟩ : reply (m₁ r) = _ ∧ (ending (m₁ r)).heap = _ :=
    setProperty_eq_verdict call ho₁ hkey₁ hsetter₁ v₁ strict
  have ho : o₂ < (ending (m₁ r)).heap.size := by
    rw [hheap, Heap.size_decided]
    exact ho₂
  have hsetter : (ending (m₁ r)).heap.setter? (some o₂) k₂ = none := by
    rw [hheap]
    exact Heap.setter?_decided ho₁ v₁ _ hsetter₂
  have hverdict : (ending (m₁ r)).heap.verdict o₂ k₂ = r.heap.verdict o₂ k₂ := by
    rw [hheap]
    exact Heap.verdict_decided hset ho₁ ho₂ hapart v₁
  have hafter := setProperty_eq_verdict call ho hkey₂ hsetter v₂ strict
  rw [hverdict, hheap] at hafter
  exact hafter

theorem commutes_of_settled (call : Caller σ) (v₁ v₂ : Value) (strict : Bool) :
    r.Commutes o₁ k₁ v₁ o₂ k₂ v₂ (setProperty call (.object o₁) key₁ v₁ .none strict)
      (setProperty call (.object o₂) key₂ v₂ .none strict) := by
  obtain ⟨hsecond, hheap⟩ := setProperty_after_setProperty hset ho₁ ho₂ hkey₁ hkey₂ hapart hsetter₁
    hsetter₂ call v₁ v₂ strict
  obtain ⟨hfirst, hheap'⟩ := setProperty_after_setProperty hset ho₂ ho₁ hkey₂ hkey₁
    (hapart.imp Ne.symm Ne.symm) hsetter₂ hsetter₁ call v₂ v₁ strict
  obtain ⟨halone₁, -⟩ := setProperty_eq_verdict call ho₁ hkey₁ hsetter₁ v₁ strict
  obtain ⟨halone₂, -⟩ := setProperty_eq_verdict call ho₂ hkey₂ hsetter₂ v₂ strict
  constructor
  · rw [hfirst, halone₁]
  · rw [hsecond, halone₂]
  · intro hold
    rw [hheap, hheap']
    refine Heap.decided_comm ho₁ ho₂ hapart v₁ v₂ fun heq htaken₁ htaken₂ => ?_
    rw [halone₁, halone₂, Verdict.settled_eq_true_iff, Verdict.settled_eq_true_iff] at hold
    by_contra hnew
    rw [not_or] at hnew
    exact hold ⟨heq, hnew.1, hnew.2, htaken₁, htaken₂⟩
  · rintro rfl hnew₁ hnew₂ htrue₁ htrue₂
    rw [halone₁, Verdict.settled_eq_true_iff] at htrue₁
    rw [halone₂, Verdict.settled_eq_true_iff] at htrue₂
    have hne : k₁ ≠ k₂ := hapart.resolve_left fun hne => hne rfl
    rw [hheap, hheap', htrue₁, htrue₂]
    obtain ⟨t₁, h₁, hextensible₁, hentries₁⟩ :=
      Heap.exists_decided_decided ho₁ hne hnew₁ hnew₂ v₁ v₂
    obtain ⟨t₂, h₂, hextensible₂, hentries₂⟩ :=
      Heap.exists_decided_decided ho₁ hne.symm hnew₂ hnew₁ v₂ v₁
    exact ⟨t₁, t₂, h₁, h₂, hextensible₁.trans hextensible₂.symm, hentries₁, hentries₂⟩

end Settled

end Realm

end ObjectModel
