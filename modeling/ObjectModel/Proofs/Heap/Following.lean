import Mathlib.Data.Set.Finite.Basic
import ObjectModel.Proofs.Heap.Order
import ObjectModel.Proofs.Heap.Picturing
import ObjectModel.Proofs.Value.Data

/-!
Paths of keys along enumerable properties, from record to record. Two heaps are compared by what
such paths lead to: one graph of records may be another one over again, or it may be unfolded to a
tree that has a record for each path.
-/

namespace ObjectModel

def Value.IsScalar : Value → Prop
  | bool _ | int _ | float .. | str _ => True
  | _ => False

instance (v : Value) : Decidable v.IsScalar := by
  unfold Value.IsScalar
  split <;> infer_instance

theorem Value.IsScalar.isLeaf {v : Value} (hv : v.IsScalar) : v.IsLeaf := by
  cases v with
  | object | dict => exact hv.elim
  | _ => trivial

namespace Heap

def ShowsData (h : Heap) (x : ObjectId) : Prop :=
  ∀ key ∈ (h.table x).enumerableKeys, ∀ d ∈ (h.table x).lookup key,
    ∃ v ∈ d.value?, v.IsScalar ∨ ∃ y, v = .object y

instance (v : Value) : Decidable (∃ y, v = .object y) :=
  match v with
  | .object y => .isTrue ⟨y, rfl⟩
  | .none | .undefined | .bool _ | .int _ | .float .. | .str _ | .function _ | .list _ | .dict _
  | .descriptor _ => .isFalse nofun

instance (h : Heap) (x : ObjectId) : Decidable (h.ShowsData x) :=
  inferInstanceAs (Decidable (∀ key ∈ (h.table x).enumerableKeys,
    ∀ d ∈ (h.table x).lookup key, ∃ v ∈ d.value?, v.IsScalar ∨ ∃ y, v = .object y))

def shown? (h : Heap) (x : ObjectId) (key : String) : Option ObjectId :=
  if key ∈ (h.table x).enumerableKeys then h.object? ((h.table x).held key) else none

def follow (h : Heap) (x : ObjectId) : List String → Option ObjectId
  | [] => some x
  | key :: path => (h.shown? x key).bind fun y => h.follow y path

def Circles (h : Heap) (o : ObjectId) : Prop :=
  ∃ x, h.LeadsTo o x ∧ Relation.TransGen h.Shows x x

def Unshared (h : Heap) (o : ObjectId) : Prop :=
  ∀ path path' x, h.follow o path = some x → h.follow o path' = some x → path = path'

/-- The record `x'` has the properties that `x` shows; those that hold records may hold others. -/
structure Resembles (h h' : Heap) (x x' : ObjectId) : Prop where
  keys : (h'.table x').keys = (h.table x).enumerableKeys
  enumerableKeys : (h'.table x').enumerableKeys = (h.table x).enumerableKeys
  scalar : ∀ key ∈ (h.table x).enumerableKeys, ((h.table x).held key).IsScalar →
    (h'.table x').lookup key = some (.ofValue ((h.table x).held key))

/-- The same paths lead to records from `o'` as from `o`, and to records that resemble them. -/
structure Matches (h h' : Heap) (o o' : ObjectId) : Prop where
  isSome : ∀ path, (h'.follow o' path).isSome = (h.follow o path).isSome
  resembles : ∀ path x x', h.follow o path = some x → h'.follow o' path = some x' →
    h.Resembles h' x x'

/-- What `o` leads to is there again from `o'` on: the same paths meet there as here. -/
structure Rebuilds (h h' : Heap) (o o' : ObjectId) : Prop extends h.Matches h' o o' where
  same_iff : ∀ path path', (h.follow o path).isSome = true →
    (h'.follow o' path = h'.follow o' path' ↔ h.follow o path = h.follow o path')

/-- There is a record of its own for each path from `o`, and no other record is new. -/
structure Unfolds (h h' : Heap) (o o' : ObjectId) : Prop extends h.Matches h' o o' where
  unshared : h'.Unshared o'
  fresh : ∀ path x', h'.follow o' path = some x' → h.size ≤ x'
  onto : ∀ x', h.size ≤ x' → x' < h'.size → ∃ path, h'.follow o' path = some x'

variable {h h' : Heap} {o o' x x' y : ObjectId} {key : String} {v : Value}

theorem object?_of_isScalar (hv : v.IsScalar) : h.object? v = none := by
  cases v with
  | bool | int | float | str => rfl
  | _ => exact hv.elim

theorem ShowsData.plain (hdata : h.ShowsData x) : h.Plain x := by
  intro key hkey d hd
  obtain ⟨v, hv, -⟩ := hdata key hkey d hd
  obtain ⟨slot, enumerable, configurable⟩ := d
  cases slot with
  | value => rfl
  | accessor => cases hv

theorem ShowsData.held (hdata : h.ShowsData x) (hclosed : h.Closed)
    (hkey : key ∈ (h.table x).enumerableKeys) :
    ((h.table x).held key).IsScalar ∨ ∃ y, h.object? ((h.table x).held key) = some y := by
  obtain ⟨d, hd, -⟩ := Table.exists_of_mem_enumerableKeys hkey
  obtain ⟨v, hv, hdata⟩ := hdata key hkey d hd
  have hheld : (h.table x).held key = v := by
    rw [Table.held, hd, Option.bind_some, hv, Option.getD_some]
  rw [hheld]
  refine hdata.imp_right ?_
  rintro ⟨y, rfl⟩
  exact ⟨y, object?_object ((hclosed.table hd).value? hv)⟩

theorem shown?_eq_some_iff : h.shown? x key = some y ↔
    key ∈ (h.table x).enumerableKeys ∧ h.object? ((h.table x).held key) = some y := by
  rw [shown?]
  split
  · next hkey => exact (and_iff_right hkey).symm
  · next hkey => exact ⟨nofun, fun hshown => absurd hshown.1 hkey⟩

theorem shows_iff : h.Shows x y ↔ ∃ key, h.shown? x key = some y := by
  simp only [shown?_eq_some_iff]
  rfl

theorem follow_append (x : ObjectId) (path rest : List String) :
    h.follow x (path ++ rest) = (h.follow x path).bind fun y => h.follow y rest := by
  induction path generalizing x with
  | nil => rfl
  | cons key path ih =>
    rw [List.cons_append, follow, follow]
    cases h.shown? x key with
    | none => rfl
    | some y => exact ih y

theorem follow_concat {path : List String} (hx : h.follow o path = some x)
    (hy : h.shown? x key = some y) : h.follow o (path ++ [key]) = some y := by
  rw [follow_append, hx, Option.bind_some, follow, hy]
  rfl

theorem exists_follow_of_leadsTo (hx : h.LeadsTo o x) : ∃ path, h.follow o path = some x := by
  induction hx with
  | refl => exact ⟨[], rfl⟩
  | tail _ hshows ih =>
    obtain ⟨path, hpath⟩ := ih
    obtain ⟨key, hkey⟩ := shows_iff.1 hshows
    exact ⟨path ++ [key], follow_concat hpath hkey⟩

theorem exists_follow_of_transGen (hy : Relation.TransGen h.Shows x y) :
    ∃ path, path ≠ [] ∧ h.follow x path = some y := by
  obtain ⟨z, hz, hshows⟩ := Relation.TransGen.tail'_iff.1 hy
  obtain ⟨path, hpath⟩ := exists_follow_of_leadsTo hz
  obtain ⟨key, hkey⟩ := shows_iff.1 hshows
  exact ⟨path ++ [key], List.append_ne_nil_of_right_ne_nil _ (List.cons_ne_nil _ _),
    follow_concat hpath hkey⟩

theorem Unshared.not_circles (hunshared : h.Unshared o) : ¬ h.Circles o := by
  rintro ⟨x, hx, hround⟩
  obtain ⟨path, hpath⟩ := exists_follow_of_leadsTo hx
  obtain ⟨round, hne, hback⟩ := exists_follow_of_transGen hround
  have hagain : h.follow o (path ++ round) = some x := by
    rw [follow_append, hpath, Option.bind_some, hback]
  exact hne (List.append_right_eq_self.1 (hunshared _ _ x hagain hpath))

theorem not_circles_of_lt (hlt : ∀ x ≤ o, ∀ y, h.Shows x y → y < x) : ¬ h.Circles o := by
  rintro ⟨x, hx, hround⟩
  have hle : x ≤ o := by
    clear hround
    induction hx with
    | refl => exact Nat.le_refl _
    | tail _ hshows ih => exact Nat.le_trans (Nat.le_of_lt (hlt _ ih _ hshows)) ih
  have hdown {y : ObjectId} (hy : Relation.TransGen h.Shows x y) : y < x := by
    induction hy with
    | single hshows => exact hlt x hle _ hshows
    | tail _ hshows ih =>
      exact Nat.lt_trans (hlt _ (Nat.le_trans (Nat.le_of_lt ih) hle) _ hshows) ih
  exact Nat.lt_irrefl _ (hdown hround)

theorem of_not_circles (ho : o < h.size) (hnot : ¬ h.Circles o) {motive : ObjectId → Prop}
    (hstep : ∀ x, h.LeadsTo o x → (∀ y, h.Shows x y → motive y) → motive x)
    (hx : h.LeadsTo o x) : motive x := by
  let after (y x : { x // h.LeadsTo o x }) : Prop := Relation.TransGen h.Shows x.1 y.1
  have : Finite { x // h.LeadsTo o x } :=
    (Set.finite_lt_nat h.size).subset fun x hx => lt_size_of_leadsTo ho hx
  have : IsTrans _ after := ⟨fun _ _ _ hab hbc => hbc.trans hab⟩
  have : Std.Irrefl after := ⟨fun x hround => hnot ⟨x.1, x.2, hround⟩⟩
  have hwf : WellFounded after := Finite.wellFounded_of_trans_of_irrefl after
  refine hwf.induction (C := fun x => motive x.1) ⟨x, hx⟩ fun x ih => ?_
  exact hstep x.1 x.2 fun y hy => ih ⟨y, x.2.tail hy⟩ (.single hy)

theorem matches_of_step {R : ObjectId → ObjectId → Prop} (hrel : R o o')
    (hresembles : ∀ x x', R x x' → h.Resembles h' x x')
    (hstep : ∀ x x' key, R x x' → Option.Rel R (h.shown? x key) (h'.shown? x' key)) :
    h.Matches h' o o' := by
  have hfollow (path : List String) {x x' : ObjectId} (hx : R x x') :
      Option.Rel R (h.follow x path) (h'.follow x' path) := by
    induction path generalizing x x' with
    | nil => exact .some hx
    | cons key path ih =>
      have hshown := hstep x x' key hx
      rw [follow, follow]
      generalize h.shown? x key = y? at hshown
      generalize h'.shown? x' key = y?' at hshown
      cases hshown with
      | none => exact .none
      | some hy => exact ih hy
  constructor
  · intro path
    have hboth := hfollow path hrel
    generalize h.follow o path = y? at hboth
    generalize h'.follow o' path = y?' at hboth
    cases hboth <;> rfl
  · intro path x x' hx hx'
    have hboth := hfollow path hrel
    rw [hx, hx'] at hboth
    cases hboth with
    | some hrel => exact hresembles x x' hrel

theorem Unfolds.rebuilds_iff (hunfolds : h.Unfolds h' o o') :
    h.Rebuilds h' o o' ↔ h.Unshared o := by
  have hsome {path : List String} {x : ObjectId} (hx : h.follow o path = some x) :
      ∃ x', h'.follow o' path = some x' := by
    rw [← Option.isSome_iff_exists, hunfolds.isSome, hx, Option.isSome_some]
  constructor
  · intro hrebuilds path path' x hx hx'
    obtain ⟨x', hpath⟩ := hsome hx
    have hsame : h'.follow o' path = h'.follow o' path' :=
      (hrebuilds.same_iff path path' (by rw [hx, Option.isSome_some])).2 (hx.trans hx'.symm)
    exact hunfolds.unshared path path' x' hpath (hsame.symm.trans hpath)
  · intro hunshared
    refine ⟨hunfolds.toMatches, fun path path' hpath => ?_⟩
    obtain ⟨x, hx⟩ := Option.isSome_iff_exists.1 hpath
    obtain ⟨x', hx'⟩ := hsome hx
    constructor
    · intro hsame
      rw [hunfolds.unshared path path' x' hx' (hsame.symm.trans hx')]
    · intro hsame
      rw [hunshared path path' x hx (hsame.symm.trans hx)]

end Heap

end ObjectModel
