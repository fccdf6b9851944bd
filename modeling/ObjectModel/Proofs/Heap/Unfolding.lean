import ObjectModel.Proofs.Heap.Following
import ObjectModel.Proofs.Heap.DataRecords

/-!
Records that stand for data form a tree. What is below an entry has the records from one number to
another for itself, so different paths come to different records, and every record has a path. If
the data is what a picture of records holds, the tree unfolds the records.
-/

namespace ObjectModel

namespace Entries

inductive Under (name : String) (d : Data) (first : Nat) : Entries → Nat → Prop
  | head {key : Value} {rest : Entries} (hname : key.name = name) :
    Under name d first (.cons key d rest) first
  | tail {key : Value} {d' : Data} {rest : Entries} {o : Nat}
    (hrest : Under name d first rest (o + d'.dicts)) : Under name d first (.cons key d' rest) o

variable {name name' : String} {d d' : Data} {first first' o x : Nat} {entries : Entries} {h : Heap}

theorem Under.mem_properties (hunder : entries.Under name d first o) :
    (name, .ofValue (d.value first)) ∈ entries.properties o := by
  induction hunder with
  | head hname =>
    rw [← hname]
    exact List.mem_cons_self
  | tail _ ih => exact List.mem_cons_of_mem _ ih

theorem exists_under : ∀ (entries : Entries) (o : Nat), ∀ entry ∈ entries.properties o,
    ∃ d first, entries.Under entry.1 d first o ∧ entry.2 = .ofValue (d.value first)
  | nil, _ => List.forall_mem_nil _
  | cons key d rest, o => by
    rw [properties, List.forall_mem_cons]
    refine ⟨⟨d, o, .head rfl, rfl⟩, fun entry hentry => ?_⟩
    obtain ⟨d', first, hunder, hvalue⟩ := exists_under rest _ entry hentry
    exact ⟨d', first, .tail hunder, hvalue⟩

theorem map_fst_properties : ∀ (entries : Entries) (o : Nat),
    (entries.properties o).map Prod.fst = entries.names
  | nil, _ => rfl
  | cons _ _ rest, _ => congrArg _ (map_fst_properties rest _)

theorem Under.proper (hunder : entries.Under name d first o) (hproper : entries.Proper) :
    d.Proper := by
  induction hunder with
  | head => exact hproper.2.1
  | tail _ ih => exact ih hproper.2.2

theorem Under.stands (hunder : entries.Under name d first o) (hstand : entries.Stand h o) :
    d.Stands h first := by
  induction hunder with
  | head => exact hstand.1
  | tail _ ih => exact ih hstand.2

theorem Under.holds {p : Pool} {pairs : List (Value × Value)}
    (hunder : entries.Under name d first o) (hholds : p.HoldsAll pairs entries) :
    ∃ entry ∈ pairs, entry.1.name = name ∧ p.Holds entry.2 d := by
  induction hunder generalizing pairs with
  | head hname =>
    cases hholds with
    | cons hd => exact ⟨_, List.mem_cons_self, hname, hd⟩
  | tail _ ih =>
    cases hholds with
    | cons _ hrest =>
      obtain ⟨entry, hmem, hentry⟩ := ih hrest
      exact ⟨entry, List.mem_cons_of_mem _ hmem, hentry⟩

theorem Under.within (hunder : entries.Under name d first o) :
    o ≤ first ∧ first + d.dicts ≤ o + entries.dicts := by
  induction hunder with
  | head =>
    rw [dicts]
    omega
  | tail _ ih =>
    rw [dicts]
    omega

theorem Under.apart (hunder : entries.Under name d first o) (hne : name ≠ name')
    (hunder' : entries.Under name' d' first' o) :
    first + d.dicts ≤ first' ∨ first' + d'.dicts ≤ first := by
  induction hunder with
  | head hname =>
    cases hunder' with
    | head hname' => exact absurd (hname.symm.trans hname') hne
    | tail hrest' => exact .inl hrest'.within.1
  | tail hrest ih =>
    cases hunder' with
    | head => exact .inr hrest.within.1
    | tail hrest' => exact ih hrest'

theorem exists_under_of_lt : ∀ (entries : Entries) {o : Nat}, o ≤ x → x < o + entries.dicts →
    ∃ name d first, entries.Under name d first o ∧ first ≤ x ∧ x < first + d.dicts
  | nil, _, hle, hlt => absurd hlt (Nat.not_lt.2 hle)
  | cons key d rest, o, hle, hlt => by
    rw [dicts] at hlt
    by_cases hx : x < o + d.dicts
    · exact ⟨key.name, d, o, .head rfl, hle, hx⟩
    · obtain ⟨name, d', first, hunder, hfirst⟩ :=
        exists_under_of_lt rest (Nat.le_of_not_lt hx) (by omega)
      exact ⟨name, d', first, .tail hunder, hfirst⟩

end Entries

namespace Heap

structure Grown (h : Heap) (entries : Entries) (x : Nat) : Prop where
  proper : (Data.dict entries).Proper
  stands : (Data.dict entries).Stands h x

variable {h h' : Heap} {p : Pool} {D : ObjectId → Nat} {entries entries' : Entries}
  {o o' x x' y first : Nat} {name : String} {path path' : List String} {d : Data} {v : Value}

namespace Grown

variable (hgrown : h.Grown entries x)
include hgrown

theorem entries_eq : (h.table x).entries = entries.properties (x + 1) :=
  hgrown.stands.2.1

theorem keys_eq : (h.table x).keys = entries.names := by
  rw [Table.keys, hgrown.entries_eq, Entries.map_fst_properties]

theorem enumerableKeys_eq : (h.table x).enumerableKeys = entries.names := by
  rw [← hgrown.keys_eq]
  refine Table.enumerableKeys_eq_keys fun entry hentry => ?_
  rw [hgrown.entries_eq] at hentry
  obtain ⟨d, first, -, hvalue⟩ := entries.exists_under _ entry hentry
  exact ⟨_, hvalue⟩

theorem lookup_eq (hunder : entries.Under name d first (x + 1)) :
    (h.table x).lookup name = some (.ofValue (d.value first)) := by
  rw [Table.lookup_eq_some_iff, hgrown.entries_eq]
  exact hunder.mem_properties

theorem held_eq (hunder : entries.Under name d first (x + 1)) :
    (h.table x).held name = d.value first := by
  rw [Table.held, hgrown.lookup_eq hunder]
  rfl

theorem mem_enumerableKeys (hunder : entries.Under name d first (x + 1)) :
    name ∈ (h.table x).enumerableKeys := by
  rw [hgrown.enumerableKeys_eq, ← entries.map_fst_properties (x + 1)]
  exact List.mem_map.2 ⟨_, hunder.mem_properties, rfl⟩

theorem exists_under (hname : name ∈ (h.table x).enumerableKeys) :
    ∃ d first, entries.Under name d first (x + 1) := by
  rw [hgrown.enumerableKeys_eq, ← entries.map_fst_properties (x + 1)] at hname
  obtain ⟨entry, hentry, rfl⟩ := List.mem_map.1 hname
  obtain ⟨d, first, hunder, -⟩ := entries.exists_under _ entry hentry
  exact ⟨d, first, hunder⟩

theorem below (hunder : entries.Under name (.dict entries') y (x + 1)) : h.Grown entries' y :=
  ⟨hunder.proper hgrown.proper.2, hunder.stands hgrown.stands.2.2⟩

theorem shown?_eq_some_iff :
    h.shown? x name = some y ↔ ∃ entries', entries.Under name (.dict entries') y (x + 1) := by
  rw [Heap.shown?_eq_some_iff]
  constructor
  · rintro ⟨hname, hy⟩
    obtain ⟨d, first, hunder⟩ := hgrown.exists_under hname
    rw [hgrown.held_eq hunder] at hy
    have hproper := hunder.proper hgrown.proper.2
    obtain ⟨rfl, hpos⟩ := Data.value_eq_object hproper (object?_eq_some hy).1
    cases d with
    | leaf => exact absurd hpos (Nat.lt_irrefl 0)
    | dict entries' => exact ⟨entries', hunder⟩
  · rintro ⟨entries', hunder⟩
    refine ⟨hgrown.mem_enumerableKeys hunder, ?_⟩
    rw [hgrown.held_eq hunder]
    exact object?_object (hgrown.below hunder).stands.1

end Grown

theorem Grown.follow_cons (hgrown : h.Grown entries x)
    (hy : h.follow x (name :: path) = some y) :
    ∃ entries' z, entries.Under name (.dict entries') z (x + 1) ∧ h.Grown entries' z ∧
      h.follow z path = some y := by
  obtain ⟨z, hz, hpath⟩ := Option.bind_eq_some_iff.1 hy
  obtain ⟨entries', hunder⟩ := hgrown.shown?_eq_some_iff.1 hz
  exact ⟨entries', z, hunder, hgrown.below hunder, hpath⟩

theorem Grown.follow_within (hgrown : h.Grown entries x) (hy : h.follow x path = some y) :
    x ≤ y ∧ y < x + (Data.dict entries).dicts := by
  induction path generalizing x entries with
  | nil =>
    cases hy
    exact ⟨Nat.le_refl _, Nat.lt_add_of_pos_right (Nat.succ_pos _)⟩
  | cons name path ih =>
    obtain ⟨entries', z, hunder, hbelow, hpath⟩ := hgrown.follow_cons hy
    have hwithin := hunder.within
    have hy := ih hbelow hpath
    rw [Data.dicts]
    omega

theorem Grown.lt_of_follow_cons (hgrown : h.Grown entries x)
    (hy : h.follow x (name :: path) = some y) : x < y := by
  obtain ⟨entries', z, hunder, hbelow, hpath⟩ := hgrown.follow_cons hy
  have hwithin := hunder.within
  have hy := hbelow.follow_within hpath
  omega

theorem Grown.unshared (hgrown : h.Grown entries x) : h.Unshared x := by
  intro path path' y hy hy'
  induction path generalizing x entries path' with
  | nil =>
    cases hy
    cases path' with
    | nil => rfl
    | cons => exact absurd (hgrown.lt_of_follow_cons hy') (Nat.lt_irrefl _)
  | cons name path ih =>
    cases path' with
    | nil =>
      cases hy'
      exact absurd (hgrown.lt_of_follow_cons hy) (Nat.lt_irrefl _)
    | cons name' path' =>
      obtain ⟨entries₁, z, hunder, hbelow, hpath⟩ := hgrown.follow_cons hy
      obtain ⟨entries₂, z', hunder', hbelow', hpath'⟩ := hgrown.follow_cons hy'
      by_cases hname : name = name'
      · subst hname
        have hz : h.shown? x name = some z := hgrown.shown?_eq_some_iff.2 ⟨_, hunder⟩
        have hz' : h.shown? x name = some z' := hgrown.shown?_eq_some_iff.2 ⟨_, hunder'⟩
        cases hz.symm.trans hz'
        rw [ih hbelow path' hpath hpath']
      · -- the entries have different records below them, where the paths cannot meet again
        have hwithin := hbelow.follow_within hpath
        have hwithin' := hbelow'.follow_within hpath'
        have hapart := hunder.apart hname hunder'
        omega

theorem Grown.exists_follow (hgrown : h.Grown entries x) (hle : x ≤ y)
    (hlt : y < x + (Data.dict entries).dicts) : ∃ path, h.follow x path = some y := by
  -- each record on the way comes after the one before, and none comes after `y`
  induction hn : y - x using Nat.strong_induction_on generalizing x entries with
  | _ n ih =>
    obtain rfl | hlt' := Nat.eq_or_lt_of_le hle
    · exact ⟨[], rfl⟩
    rw [Data.dicts] at hlt
    obtain ⟨name, d, first, hunder, hfirst, hlast⟩ :=
      entries.exists_under_of_lt (Nat.succ_le_of_lt hlt') (by omega)
    cases d with
    | leaf =>
      rw [Data.dicts] at hlast
      omega
    | dict entries' =>
      have hwithin := hunder.within
      obtain ⟨path, hpath⟩ := ih (y - first) (by omega) (hgrown.below hunder) hfirst hlast rfl
      refine ⟨name :: path, ?_⟩
      rw [follow, hgrown.shown?_eq_some_iff.2 ⟨entries', hunder⟩]
      exact hpath

structure Pictured (h : Heap) (p : Pool) (D : ObjectId → Nat) (o : ObjectId) : Prop where
  dict_eq : ∀ x, h.LeadsTo o x → p.dict (D x) = h.entries (fun y => .dict (D y)) x
  held : ∀ x, h.LeadsTo o x → ∀ key ∈ (h.table x).enumerableKeys,
    ((h.table x).held key).IsScalar ∨ ∃ y, h.object? ((h.table x).held key) = some y

theorem picture_of_isScalar (hv : v.IsScalar) (f : ObjectId → Value) : h.picture f v = v := by
  cases v with
  | bool | int | float | str => rfl
  | _ => exact hv.elim

theorem picture_of_object? (hv : h.object? v = some y) (f : ObjectId → Value) :
    h.picture f v = f y := by
  have hne : v ≠ .undefined := by
    rintro rfl
    cases hv
  rw [picture_of_ne_undefined hne, hv]

theorem stored_of_isScalar (hv : v.IsScalar) : v.stored = v := by
  cases v with
  | bool | int | float | str => rfl
  | _ => exact hv.elim

namespace Pictured

variable (hpic : h.Pictured p D o) (hx : h.LeadsTo o x)
include hpic hx

section Holds

variable (hholds : p.Holds (.dict (D x)) (.dict entries))
include hholds

theorem holdsAll : p.HoldsAll (h.entries (fun y => .dict (D y)) x) entries := by
  cases hholds with
  | dict hentries => rwa [← hpic.dict_eq x hx]

theorem names_eq : entries.names = (h.table x).enumerableKeys := by
  rw [(hpic.holdsAll hx hholds).names_eq, Heap.entries, List.map_map]
  exact List.map_id _

theorem holds_under (hunder : entries.Under name d first o') :
    p.Holds (h.picture (fun y => .dict (D y)) ((h.table x).held name)) d := by
  obtain ⟨entry, hentry, hname, hd⟩ := hunder.holds (hpic.holdsAll hx hholds)
  obtain ⟨key, -, rfl⟩ := List.mem_map.1 hentry
  obtain rfl : key = name := hname
  exact hd

theorem held_of_isScalar (hunder : entries.Under name d first (x' + 1))
    (hv : ((h.table x).held name).IsScalar) :
    d.value first = (h.table x).held name := by
  have hd := hpic.holds_under hx hholds hunder
  rw [picture_of_isScalar hv] at hd
  generalize (h.table x).held name = v at hd hv
  cases hd with
  | leaf => exact stored_of_isScalar hv
  | dict => exact hv.elim

theorem resembles (hgrown : h'.Grown entries x') : h.Resembles h' x x' where
  keys := by rw [hgrown.keys_eq, hpic.names_eq hx hholds]
  enumerableKeys := by rw [hgrown.enumerableKeys_eq, hpic.names_eq hx hholds]
  scalar := by
    intro key hkey hv
    rw [← hpic.names_eq hx hholds, ← hgrown.enumerableKeys_eq] at hkey
    obtain ⟨d, first, hunder⟩ := hgrown.exists_under hkey
    rw [hgrown.lookup_eq hunder, hpic.held_of_isScalar hx hholds hunder hv]

theorem shown_below (hgrown : h'.Grown entries x') (hname : name ∈ (h.table x).enumerableKeys)
    (hy : h.object? ((h.table x).held name) = some y) :
    ∃ entries' y', p.Holds (.dict (D y)) (.dict entries') ∧
      entries.Under name (.dict entries') y' (x' + 1) := by
  rw [← hpic.names_eq hx hholds, ← hgrown.enumerableKeys_eq] at hname
  obtain ⟨d, first, hunder⟩ := hgrown.exists_under hname
  have hd := hpic.holds_under hx hholds hunder
  rw [picture_of_object? hy] at hd
  cases hd with
  | leaf hv => exact hv.elim
  | dict hentries => exact ⟨_, first, .dict hentries, hunder⟩

end Holds

end Pictured

def Sprouts (h h' : Heap) (p : Pool) (D : ObjectId → Nat) (o x x' : Nat) : Prop :=
  h.LeadsTo o x ∧ ∃ entries, p.Holds (.dict (D x)) (.dict entries) ∧ h'.Grown entries x'

theorem Pictured.sprouts_shown (hpic : h.Pictured p D o) (hx : h.Sprouts h' p D o x x')
    (name : String) : Option.Rel (h.Sprouts h' p D o) (h.shown? x name) (h'.shown? x' name) := by
  obtain ⟨hx, entries, hholds, hgrown⟩ := hx
  have hkeys := (hpic.resembles hx hholds hgrown).enumerableKeys
  by_cases hname : name ∈ (h.table x).enumerableKeys
  · obtain hv | ⟨y, hy⟩ := hpic.held x hx name hname
    · have hname' := hname
      rw [← hkeys] at hname'
      obtain ⟨d, first, hunder⟩ := hgrown.exists_under hname'
      rw [shown?, if_pos hname, object?_of_isScalar hv, shown?, if_pos hname',
        hgrown.held_eq hunder, hpic.held_of_isScalar hx hholds hunder hv,
        object?_of_isScalar hv]
      exact .none
    · have hshown : h.shown? x name = some y := shown?_eq_some_iff.2 ⟨hname, hy⟩
      obtain ⟨entries', y', hholds', hunder⟩ := hpic.shown_below hx hholds hgrown hname hy
      rw [hshown, hgrown.shown?_eq_some_iff.2 ⟨entries', hunder⟩]
      exact .some ⟨hx.tail (shows_iff.2 ⟨name, hshown⟩), entries', hholds', hgrown.below hunder⟩
  · rw [shown?, if_neg hname, shown?, if_neg (hkeys ▸ hname)]
    exact .none

theorem Pictured.unfolds (hpic : h.Pictured p D o) (hholds : p.Holds (.dict (D o)) (.dict entries))
    (hgrown : h'.Grown entries h.size) (hsize : h'.size = h.size + (Data.dict entries).dicts) :
    h.Unfolds h' o h.size where
  toMatches := by
    refine matches_of_step (R := h.Sprouts h' p D o) ⟨.refl, entries, hholds, hgrown⟩ ?_ ?_
    · rintro x x' ⟨hx, entries', hholds', hgrown'⟩
      exact hpic.resembles hx hholds' hgrown'
    · exact fun x x' name hx => hpic.sprouts_shown hx name
  unshared := hgrown.unshared
  fresh _ _ hx' := (hgrown.follow_within hx').1
  onto _ hle hlt := hgrown.exists_follow hle (hsize ▸ hlt)

namespace Pictured

variable (hpic : h.Pictured p D o)
include hpic

theorem height_lt (hx : h.LeadsTo o x) (hxy : Relation.TransGen h.Shows x y)
    (hd : p.Holds (.dict (D x)) d) : ∃ d', p.Holds (.dict (D y)) d' ∧ d'.height < d.height := by
  have hstep {x y : Nat} {d : Data} (hx : h.LeadsTo o x) (hshows : h.Shows x y)
      (hd : p.Holds (.dict (D x)) d) : ∃ d', p.Holds (.dict (D y)) d' ∧ d'.height < d.height := by
    obtain ⟨key, hkey, hy⟩ := hshows
    cases hd with
    | leaf hv => exact hv.elim
    | dict hentries =>
      rw [hpic.dict_eq x hx] at hentries
      obtain ⟨d', hd', hle⟩ := hentries.exists_of_mem (List.mem_map.2 ⟨key, hkey, rfl⟩)
      dsimp only at hd'
      rw [picture_of_object? hy] at hd'
      exact ⟨d', hd', Nat.lt_succ_of_le hle⟩
  induction hxy with
  | single hshows => exact hstep hx hshows hd
  | tail hxz hshows ih =>
    obtain ⟨d', hd', hlt⟩ := ih
    obtain ⟨d'', hd'', hlt'⟩ := hstep (hx.trans hxz.to_reflTransGen) hshows hd'
    exact ⟨d'', hd'', Nat.lt_trans hlt' hlt⟩

theorem not_holds_of_circles (hcircles : h.Circles o) (d : Data) :
    ¬ p.Holds (.dict (D o)) d := by
  intro hd
  obtain ⟨x, hx, hround⟩ := hcircles
  obtain ⟨d', hd'⟩ : ∃ d', p.Holds (.dict (D x)) d' := by
    obtain rfl | hpath := Relation.reflTransGen_iff_eq_or_transGen.1 hx
    · exact ⟨d, hd⟩
    · obtain ⟨d', hd', -⟩ := hpic.height_lt .refl hpath hd
      exact ⟨d', hd'⟩
  -- the way around leads back to the same dict, which would hold less than itself
  obtain ⟨d'', hd'', hlt⟩ := hpic.height_lt hx hround hd'
  rw [hd''.unique hd'] at hlt
  exact Nat.lt_irrefl _ hlt

theorem entry_of_mem (hx : h.LeadsTo o x) {entry : Value × Value} (hentry : entry ∈ p.dict (D x)) :
    entry.1.key?.isSome = true ∧
      (entry.2.IsLeaf ∨ ∃ y, h.Shows x y ∧ entry.2 = .dict (D y)) := by
  rw [hpic.dict_eq x hx] at hentry
  obtain ⟨key, hkey, rfl⟩ := List.mem_map.1 hentry
  refine ⟨rfl, ?_⟩
  obtain hv | ⟨y, hy⟩ := hpic.held x hx key hkey
  · left
    dsimp only
    rw [picture_of_isScalar hv]
    exact hv.isLeaf
  · right
    exact ⟨y, ⟨key, hkey, hy⟩, picture_of_object? hy _⟩

theorem nodup_names (hx : h.LeadsTo o x) :
    ((p.dict (D x)).map fun entry => entry.1.name).Nodup := by
  have hnames : ((p.dict (D x)).map fun entry => entry.1.name) = (h.table x).enumerableKeys := by
    rw [hpic.dict_eq x hx, Heap.entries, List.map_map]
    exact List.map_id _
  rw [hnames]
  exact (h.table x).nodup.sublist (List.filter_sublist.map _)

theorem orderly : p.Orderly fun id => ∃ x, h.LeadsTo o x ∧ D x = id where
  key := by
    rintro _ ⟨x, hx, rfl⟩ entry hentry
    exact (hpic.entry_of_mem hx hentry).1
  nodup := by
    rintro _ ⟨x, hx, rfl⟩
    exact hpic.nodup_names hx
  value := by
    rintro _ ⟨x, hx, rfl⟩ entry hentry
    refine (hpic.entry_of_mem hx hentry).2.imp_right ?_
    rintro ⟨y, hy, hvalue⟩
    exact ⟨D y, ⟨y, hx.tail hy, rfl⟩, hvalue⟩

theorem exists_holds (ho : o < h.size) (hnot : ¬ h.Circles o) (hx : h.LeadsTo o x) :
    ∃ entries, p.Holds (.dict (D x)) (.dict entries) ∧ (Data.dict entries).Proper := by
  refine of_not_circles (motive := fun x => ∃ entries, p.Holds (.dict (D x)) (.dict entries) ∧
    (Data.dict entries).Proper) ho hnot (fun x hx ih => ?_) hx
  have hpairs : ∀ entry ∈ p.dict (D x), entry.1.key?.isSome = true ∧
      ∃ d, p.Holds entry.2 d ∧ d.Proper := by
    intro entry hentry
    obtain ⟨hkey, hvalue⟩ := hpic.entry_of_mem hx hentry
    refine ⟨hkey, ?_⟩
    obtain hleaf | ⟨y, hy, hvalue⟩ := hvalue
    · exact ⟨.leaf entry.2, .leaf hleaf, hleaf⟩
    · obtain ⟨entries, hentries, hproper⟩ := ih y hy
      rw [hvalue]
      exact ⟨.dict entries, hentries, hproper⟩
  obtain ⟨entries, hentries, hproper⟩ := Pool.exists_holdsAll hpairs
  refine ⟨entries, .dict hentries, ?_, hproper⟩
  rw [hentries.names_eq]
  exact hpic.nodup_names hx

end Pictured

end Heap

end ObjectModel
