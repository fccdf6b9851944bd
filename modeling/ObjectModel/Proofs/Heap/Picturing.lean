import Mathlib.Data.Finset.Card
import Mathlib.Data.Finset.Range
import Mathlib.Logic.Relation
import ObjectModel.Proofs.Heap.Holding

/-!
Pictures of a heap in dicts: one dict for each record, with an entry for each enumerable property.
A picture is drawn record by record, and what is drawn already is never drawn over, so pictures of
parts can be put together.
-/

namespace ObjectModel

def Descriptor.getter? (d : Descriptor) : Option Value :=
  match d.slot with
  | .accessor getter _ => getter
  | .value .. => none

namespace Table

def held (t : Table) (key : String) : Value :=
  ((t.lookup key).bind (·.value?)).getD .undefined

theorem exists_of_mem_enumerableKeys {t : Table} {key : String} (h : key ∈ t.enumerableKeys) :
    ∃ d, t.lookup key = some d ∧ d.enumerable.holds = true := by
  obtain ⟨⟨_, d⟩, hentry, rfl⟩ := List.mem_map.1 h
  obtain ⟨hmem, henumerable⟩ := List.mem_filter.1 hentry
  exact ⟨d, (t.lookup_eq_some_iff _ d).2 hmem, henumerable⟩

end Table

namespace Pool

variable {p : Pool} {id : Nat} (entries : List (Value × Value))

theorem size_addDict (p : Pool) : (p.addDict entries).dicts.size = p.dicts.size + 1 :=
  Array.size_push _

theorem size_fillDict (p : Pool) (id : Nat) : (p.fillDict id entries).dicts.size = p.dicts.size :=
  Array.size_setIfInBounds

theorem dict_addDict_of_lt (hid : id < p.dicts.size) : (p.addDict entries).dict id = p.dict id := by
  rw [dict, dict, addDict, Array.getElem?_push_lt hid, Array.getElem?_eq_getElem hid]

theorem dict_fillDict_self (hid : id < p.dicts.size) :
    (p.fillDict id entries).dict id = entries := by
  rw [dict, fillDict, Array.getElem?_setIfInBounds_self_of_lt hid, Option.getD_some]

theorem dict_fillDict_of_ne {id' : Nat} (hne : id' ≠ id) :
    (p.fillDict id entries).dict id' = p.dict id' := by
  rw [dict, dict, fillDict, Array.getElem?_setIfInBounds_ne hne.symm]

end Pool

namespace Heap

def Shows (h : Heap) (x y : ObjectId) : Prop :=
  ∃ key ∈ (h.table x).enumerableKeys, h.object? ((h.table x).held key) = some y

abbrev LeadsTo (h : Heap) : ObjectId → ObjectId → Prop :=
  Relation.ReflTransGen h.Shows

def Plain (h : Heap) (x : ObjectId) : Prop :=
  ∀ key ∈ (h.table x).enumerableKeys, ∀ d ∈ (h.table x).lookup key, d.getter? = none

instance (h : Heap) (x : ObjectId) : Decidable (h.Plain x) :=
  inferInstanceAs (Decidable (∀ key ∈ (h.table x).enumerableKeys,
    ∀ d ∈ (h.table x).lookup key, d.getter? = none))

def picture (h : Heap) (f : ObjectId → Value) : Value → Value
  | .undefined => .none
  | v =>
    match h.object? v with
    | some y => f y
    | none => v

def entries (h : Heap) (f : ObjectId → Value) (x : ObjectId) : List (Value × Value) :=
  (h.table x).enumerableKeys.map fun key => (.str key, h.picture f ((h.table x).held key))

variable {h : Heap} {P : ObjectId → Prop} {f g : ObjectId → Value} {o x : ObjectId} {v : Value}
  {seen seen' seen'' : List (ObjectId × Value)} {p p' p'' : Pool} {id : Nat}

theorem lt_size_of_leadsTo (ho : o < h.size) (hx : h.LeadsTo o x) : x < h.size := by
  cases hx with
  | refl => exact ho
  | tail _ hx =>
    obtain ⟨_, _, hx⟩ := hx
    exact (object?_eq_some hx).2

theorem picture_of_ne_undefined (hv : v ≠ .undefined) (f : ObjectId → Value) :
    h.picture f v =
      match h.object? v with
      | some y => f y
      | none => v := by
  unfold picture
  split
  · exact absurd rfl hv
  · rfl

theorem picture_congr (hfg : ∀ y, h.object? v = some y → f y = g y) :
    h.picture f v = h.picture g v := by
  unfold picture
  split
  · rfl
  · cases hy : h.object? v with
    | none => rfl
    | some y => exact hfg y hy

theorem entries_congr (hfg : ∀ y, h.Shows x y → f y = g y) : h.entries f x = h.entries g x := by
  refine List.map_congr_left fun key hkey => ?_
  rw [picture_congr fun y hy => hfg y ⟨key, hkey, hy⟩]

def unseen (h : Heap) (seen : List (ObjectId × Value)) : Nat :=
  ((Finset.range h.size).filter fun x => seen.lookup x = none).card

theorem unseen_le_size (h : Heap) (seen : List (ObjectId × Value)) : h.unseen seen ≤ h.size :=
  (Finset.card_filter_le _ _).trans_eq (Finset.card_range _)

theorem unseen_le (hkept : ∀ x v, seen.lookup x = some v → seen'.lookup x = some v) :
    h.unseen seen' ≤ h.unseen seen := by
  refine Finset.card_le_card fun x hx => ?_
  rw [Finset.mem_filter] at hx ⊢
  refine ⟨hx.1, ?_⟩
  cases hv : seen.lookup x with
  | none => rfl
  | some v =>
    rw [hkept x v hv] at hx
    cases hx.2

theorem lookup_cons_of_ne (hx : x ≠ o) (v : Value) (seen : List (ObjectId × Value)) :
    ((o, v) :: seen).lookup x = seen.lookup x := by
  rw [List.lookup_cons, beq_eq_false_iff_ne.2 hx]

theorem unseen_cons_lt (ho : o < h.size) (hnew : seen.lookup o = none) (v : Value) :
    h.unseen ((o, v) :: seen) < h.unseen seen := by
  refine Finset.card_lt_card (Finset.ssubset_iff_of_subset ?_ |>.2 ⟨o, ?_, ?_⟩)
  · intro x hx
    rw [Finset.mem_filter] at hx ⊢
    by_cases hxo : x = o
    · exact ⟨hx.1, hxo ▸ hnew⟩
    · rwa [lookup_cons_of_ne hxo] at hx
  · exact Finset.mem_filter.2 ⟨Finset.mem_range.2 ho, hnew⟩
  · rw [Finset.mem_filter, List.lookup_cons_self]
    exact fun h => nomatch h.2

def standing (seen : List (ObjectId × Value)) (x : ObjectId) : Value :=
  (seen.lookup x).getD .none

/-- The dict numbered `id` is the picture of `x`, and all that `x` shows is in the picture too. -/
structure Drawn (h : Heap) (seen : List (ObjectId × Value)) (p : Pool) (x : ObjectId) (id : Nat) :
    Prop where
  lt_size : id < p.dicts.size
  dict : p.dict id = h.entries (standing seen) x
  shown : ∀ y, h.Shows x y → (seen.lookup y).isSome = true

/-- The second picture is the first one and more, in new dicts, of records that `P` admits. -/
structure Pictures (h : Heap) (P : ObjectId → Prop) (seen seen' : List (ObjectId × Value))
    (p p' : Pool) : Prop where
  kept : ∀ x v, seen.lookup x = some v → seen'.lookup x = some v
  pool : p' = { p with dicts := p'.dicts }
  size_le : p.dicts.size ≤ p'.dicts.size
  dict_eq : ∀ id < p.dicts.size, p'.dict id = p.dict id
  drawn : ∀ x v, seen.lookup x = none → seen'.lookup x = some v →
    P x ∧ ∃ id, v = .dict id ∧ p.dicts.size ≤ id ∧ h.Drawn seen' p' x id
  distinct : ∀ x y v, seen.lookup x = none → seen.lookup y = none →
    seen'.lookup x = some v → seen'.lookup y = some v → x = y
  onto : ∀ id, p.dicts.size ≤ id → id < p'.dicts.size →
    ∃ x, seen.lookup x = none ∧ seen'.lookup x = some (.dict id)

theorem Pictures.lookup_eq (hpics : h.Pictures P seen seen' p p')
    (hx : (seen.lookup x).isSome = true) : seen'.lookup x = seen.lookup x := by
  obtain ⟨v, hv⟩ := Option.isSome_iff_exists.1 hx
  rw [hv, hpics.kept x v hv]

theorem Drawn.mono (hx : h.Drawn seen p x id) (hpics : h.Pictures P seen seen' p p') :
    h.Drawn seen' p' x id := by
  constructor
  · exact Nat.lt_of_lt_of_le hx.lt_size hpics.size_le
  · rw [hpics.dict_eq id hx.lt_size, hx.dict]
    refine entries_congr fun y hy => ?_
    rw [standing, standing, hpics.lookup_eq (hx.shown y hy)]
  · intro y hy
    rw [hpics.lookup_eq (hx.shown y hy)]
    exact hx.shown y hy

namespace Pictures

theorem refl (seen : List (ObjectId × Value)) (p : Pool) : h.Pictures P seen seen p p where
  kept := fun _ _ hv => hv
  pool := rfl
  size_le := Nat.le_refl _
  dict_eq := fun _ _ => rfl
  drawn := fun x v hnew hv => by rw [hnew] at hv; cases hv
  distinct := fun x _ _ hnew _ hv _ => by rw [hnew] at hv; cases hv
  onto := fun id hle hlt => absurd hlt (Nat.not_lt.2 hle)

theorem trans (hfirst : h.Pictures P seen seen' p p') (hsecond : h.Pictures P seen' seen'' p' p'') :
    h.Pictures P seen seen'' p p'' := by
  -- what is added on the whole is added in one of the parts, and the parts use different dicts
  have hadded {x : ObjectId} {v : Value} (hnew : seen.lookup x = none)
      (hv : seen''.lookup x = some v) :
      (seen'.lookup x = some v ∧ ∃ id, v = .dict id ∧ id < p'.dicts.size) ∨
        (seen'.lookup x = none ∧ ∃ id, v = .dict id ∧ p'.dicts.size ≤ id) := by
    cases hmid : seen'.lookup x with
    | none =>
      obtain ⟨-, id, rfl, hle, -⟩ := hsecond.drawn x v hmid hv
      exact .inr ⟨rfl, id, rfl, hle⟩
    | some v' =>
      obtain ⟨-, id, rfl, -, hdrawn⟩ := hfirst.drawn x v' hnew hmid
      rw [hsecond.kept x _ hmid] at hv
      cases hv
      exact .inl ⟨rfl, id, rfl, hdrawn.lt_size⟩
  constructor
  · exact fun x v hv => hsecond.kept x v (hfirst.kept x v hv)
  · rw [hsecond.pool, hfirst.pool]
  · exact Nat.le_trans hfirst.size_le hsecond.size_le
  · intro id hid
    rw [hsecond.dict_eq id (Nat.lt_of_lt_of_le hid hfirst.size_le), hfirst.dict_eq id hid]
  · intro x v hnew hv
    obtain ⟨hmid, -⟩ | ⟨hmid, -⟩ := hadded hnew hv
    · obtain ⟨hP, id, hid, hle, hdrawn⟩ := hfirst.drawn x v hnew hmid
      exact ⟨hP, id, hid, hle, hdrawn.mono hsecond⟩
    · obtain ⟨hP, id, hid, hle, hdrawn⟩ := hsecond.drawn x v hmid hv
      exact ⟨hP, id, hid, Nat.le_trans hfirst.size_le hle, hdrawn⟩
  · intro x y v hx hy hxv hyv
    obtain ⟨hxmid, id, rfl, hid⟩ | ⟨hxmid, id, rfl, hid⟩ := hadded hx hxv
    all_goals obtain ⟨hymid, id', hv, hid'⟩ | ⟨hymid, id', hv, hid'⟩ := hadded hy hyv
    all_goals cases hv
    · exact hfirst.distinct x y _ hx hy hxmid hymid
    · omega
    · omega
    · exact hsecond.distinct x y _ hxmid hymid hxv hyv
  · intro id hle hlt
    by_cases hmid : id < p'.dicts.size
    · obtain ⟨x, hnew, hv⟩ := hfirst.onto id hle hmid
      exact ⟨x, hnew, hsecond.kept x _ hv⟩
    · obtain ⟨x, hnew, hv⟩ := hsecond.onto id (Nat.le_of_not_lt hmid) hlt
      refine ⟨x, ?_, hv⟩
      cases hold : seen.lookup x with
      | none => rfl
      | some v =>
        rw [hfirst.kept x v hold] at hnew
        cases hnew

/-! A record that is new gets the first dict that is free, before what it shows is drawn. -/

section Record

variable {n : Nat} (hpics : h.Pictures P ((o, .dict n) :: seen) seen' (p.addDict []) p')
include hpics

theorem lookup_self : seen'.lookup o = some (.dict n) :=
  hpics.kept o _ List.lookup_cons_self

theorem added (hx : seen.lookup x = none) (hv : seen'.lookup x = some v) :
    (x = o ∧ v = .dict n) ∨
      (x ≠ o ∧ ((o, .dict n) :: seen).lookup x = none ∧
        ∃ id, v = .dict id ∧ p.dicts.size < id) := by
  by_cases hxo : x = o
  · subst hxo
    rw [hpics.lookup_self] at hv
    cases hv
    exact .inl ⟨rfl, rfl⟩
  · have hxnew : ((o, .dict n) :: seen).lookup x = none := by
      rw [lookup_cons_of_ne hxo, hx]
    obtain ⟨-, id, rfl, hle, -⟩ := hpics.drawn x v hxnew hv
    rw [Pool.size_addDict] at hle
    exact .inr ⟨hxo, hxnew, id, rfl, hle⟩

theorem fill (ho : P o) (hn : n = p.dicts.size) (hnew : seen.lookup o = none)
    (hshown : ∀ y, h.Shows o y → (seen'.lookup y).isSome = true) :
    h.Pictures P seen seen' p (p'.fillDict n (h.entries (standing seen') o)) := by
  have hlt : n < p'.dicts.size := by
    have hle := hpics.size_le
    rw [Pool.size_addDict] at hle
    omega
  constructor
  · intro x v hv
    have hx : x ≠ o := by
      rintro rfl
      rw [hnew] at hv
      cases hv
    apply hpics.kept
    rw [lookup_cons_of_ne hx, hv]
  · rw [Pool.fillDict, hpics.pool]
    rfl
  · rw [Pool.size_fillDict]
    omega
  · intro id hid
    rw [Pool.dict_fillDict_of_ne _ (by omega), hpics.dict_eq id (by rw [Pool.size_addDict]; omega),
      Pool.dict_addDict_of_lt _ hid]
  · intro x v hx hv
    obtain ⟨rfl, rfl⟩ | ⟨hxo, hxnew, -⟩ := hpics.added hx hv
    · refine ⟨ho, n, rfl, Nat.le_of_eq hn.symm, ?_, Pool.dict_fillDict_self _ hlt, hshown⟩
      rwa [Pool.size_fillDict]
    · obtain ⟨hP, id, hid, hle, hdrawn⟩ := hpics.drawn x v hxnew hv
      rw [Pool.size_addDict] at hle
      refine ⟨hP, id, hid, by omega, ?_, ?_, hdrawn.shown⟩
      · rw [Pool.size_fillDict]
        exact hdrawn.lt_size
      · rw [Pool.dict_fillDict_of_ne _ (by omega), hdrawn.dict]
  · intro x y v hx hy hxv hyv
    obtain ⟨rfl, rfl⟩ | ⟨-, hxnew, id, rfl, hid⟩ := hpics.added hx hxv
    all_goals obtain ⟨rfl, hv⟩ | ⟨-, hynew, id', hv, hid'⟩ := hpics.added hy hyv
    all_goals cases hv
    · rfl
    · omega
    · omega
    · exact hpics.distinct x y _ hxnew hynew hxv hyv
  · intro id hle hid
    rw [Pool.size_fillDict] at hid
    by_cases hself : id = n
    · exact ⟨o, hnew, hself ▸ hpics.lookup_self⟩
    · obtain ⟨x, hxnew, hv⟩ := hpics.onto id (by rw [Pool.size_addDict]; omega) hid
      have hx : x ≠ o := by
        rintro rfl
        rw [List.lookup_cons_self] at hxnew
        cases hxnew
      rw [lookup_cons_of_ne hx] at hxnew
      exact ⟨x, hxnew, hv⟩

end Record

end Pictures

end Heap

end ObjectModel
