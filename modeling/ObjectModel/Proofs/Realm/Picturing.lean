import ObjectModel.Proofs.Heap.Picturing
import ObjectModel.Proofs.Realm.Assigning

/-!
Snapshots as pictures. A snapshot follows the enumerable properties from record to record and draws
each record that it has not seen yet, so it ends, and what it leaves is a picture of all that can be
reached.
-/

namespace ObjectModel.Realm

variable {σ : Type} {call : Caller σ} {r : Realm σ} {h : Heap} {P : ObjectId → Prop}
  {o : ObjectId} {v : Value} {seen : Seen} {p : Pool}

def withPool (r : Realm σ) (p : Pool) : Realm σ :=
  { r with pool := p }

theorem read_of_plain (ho : o < r.heap.size) (hplain : r.heap.Plain o) {key : String}
    (hkey : key ∈ (r.heap.table o).enumerableKeys) (receiver : Value) :
    read call o key receiver r = .ok ((r.heap.table o).held key) r := by
  obtain ⟨d, hd, -⟩ := Table.exists_of_mem_enumerableKeys hkey
  have hgetter : d.getter? = none := hplain key hkey d hd
  simp only [read, bind_run, find_run, Heap.findProperty_of_lookup ho hd, Table.held, hd]
  obtain ⟨slot, enumerable, configurable⟩ := d
  cases slot with
  | value v writable => rfl
  | accessor getter setter =>
    cases hgetter
    rfl

def Draws (h : Heap) (P : ObjectId → Prop) (convert : Value → Seen → RealmM σ (Value × Seen))
    (n : Nat) : Prop :=
  ∀ v seen r, r.heap = h → (∀ y, h.object? v = some y → P y) → h.unseen seen < n →
    ∃ seen' p', convert v seen r = .ok (h.picture (Heap.standing seen') v, seen') (r.withPool p') ∧
      h.Pictures P seen seen' r.pool p' ∧
      ∀ y, h.object? v = some y → (seen'.lookup y).isSome = true

structure Walls (h : Heap) (P : ObjectId → Prop) : Prop where
  lt_size : ∀ x, P x → x < h.size
  plain : ∀ x, P x → h.Plain x
  shows : ∀ x y, P x → h.Shows x y → P y

theorem draws_snapshotProperties (call : Caller σ) (hP : Walls h P)
    {convert : Value → Seen → RealmM σ (Value × Seen)} {n : Nat} (hconvert : Draws h P convert n)
    (ho : P o) {keys : List String} (hkeys : ∀ key ∈ keys, key ∈ (h.table o).enumerableKeys)
    (seen : Seen) (r : Realm σ) (hr : r.heap = h) (hn : h.unseen seen < n) :
    ∃ seen' p', snapshotProperties call convert o keys seen r =
        .ok (keys.map fun key =>
          (.str key, h.picture (Heap.standing seen') ((h.table o).held key)), seen')
          (r.withPool p') ∧
      h.Pictures P seen seen' r.pool p' ∧
      ∀ key ∈ keys, ∀ y, h.object? ((h.table o).held key) = some y →
        (seen'.lookup y).isSome = true := by
  induction keys generalizing seen r with
  | nil => exact ⟨seen, r.pool, rfl, .refl seen r.pool, nofun⟩
  | cons key keys ih =>
    rw [List.forall_mem_cons] at hkeys
    have hread : read call o key (.object o) r = .ok ((h.table o).held key) r := by
      subst hr
      exact read_of_plain (hP.lt_size o ho) (hP.plain o ho) hkeys.1 _
    obtain ⟨seen₁, p₁, hrun₁, hpics₁, hseen₁⟩ := hconvert ((h.table o).held key) seen r hr
      (fun y hy => hP.shows o y ho ⟨key, hkeys.1, hy⟩) hn
    obtain ⟨seen₂, p₂, hrun₂, hpics₂, hseen₂⟩ := ih hkeys.2 seen₁ (r.withPool p₁) hr
      (Nat.lt_of_le_of_lt (Heap.unseen_le hpics₁.kept) hn)
    -- what the first conversion has drawn stands for the same in the picture on the whole
    have hpicture : h.picture (Heap.standing seen₂) ((h.table o).held key) =
        h.picture (Heap.standing seen₁) ((h.table o).held key) := by
      refine Heap.picture_congr fun y hy => ?_
      rw [Heap.standing, Heap.standing, hpics₂.lookup_eq (hseen₁ y hy)]
    refine ⟨seen₂, p₂, ?_, hpics₁.trans hpics₂, ?_⟩
    · rw [snapshotProperties, bind_ok hread, bind_ok hrun₁]
      dsimp only
      rw [bind_ok hrun₂, List.map_cons, hpicture]
      rfl
    · rw [List.forall_mem_cons]
      refine ⟨fun y hy => ?_, hseen₂⟩
      rw [hpics₂.lookup_eq (hseen₁ y hy)]
      exact hseen₁ y hy

theorem newDict_run (r : Realm σ) :
    newDict r = .ok r.pool.dicts.size (r.withPool (r.pool.addDict [])) := by
  have hsize : (r.pool.addDict []).dicts.size - 1 = r.pool.dicts.size := by
    rw [Pool.addDict, Array.size_push, Nat.add_sub_cancel]
  rw [← hsize]
  rfl

def drawRecord (call : Caller σ) (convert : Value → Seen → RealmM σ (Value × Seen)) (o : ObjectId)
    (seen : Seen) : RealmM σ (Value × Seen) := do
  let id ← newDict
  let keys := (← tableOf o).enumerableKeys
  let (entries, seen) ← snapshotProperties call convert o keys ((o, .dict id) :: seen)
  fillDict id entries
  return (.dict id, seen)

theorem snapshot_go_run (hv : v ≠ .undefined) (depth : Nat) (seen : Seen) (r : Realm σ) :
    snapshot.go call (depth + 1) v seen r =
      match r.heap.object? v with
      | none => .ok (v, seen) r
      | some o =>
        match seen.lookup o with
        | some dict => .ok (dict, seen) r
        | none => drawRecord call (snapshot.go call depth) o seen r := by
  rw [snapshot.go.eq_3 _ _ _ _ hv, bind_run, object?_run]
  cases r.heap.object? v with
  | none => rfl
  | some o =>
    dsimp only
    cases seen.lookup o <;> rfl

theorem draws_record (call : Caller σ) (hP : Walls h P)
    {convert : Value → Seen → RealmM σ (Value × Seen)} {n : Nat} (hconvert : Draws h P convert n)
    (ho : P o) (seen : Seen) (hnew : seen.lookup o = none) (r : Realm σ) (hr : r.heap = h)
    (hn : h.unseen seen < n + 1) :
    ∃ seen' p', drawRecord call convert o seen r =
        .ok (.dict r.pool.dicts.size, seen') (r.withPool p') ∧
      h.Pictures P seen seen' r.pool p' ∧ seen'.lookup o = some (.dict r.pool.dicts.size) := by
  have hless := Heap.unseen_cons_lt (hP.lt_size o ho) hnew (.dict r.pool.dicts.size)
  obtain ⟨seen', p', hrun, hpics, hseen⟩ := draws_snapshotProperties call hP hconvert ho
    (fun _ hkey => hkey) ((o, .dict r.pool.dicts.size) :: seen)
    (r.withPool (r.pool.addDict [])) hr (by omega)
  have hshown : ∀ y, h.Shows o y → (seen'.lookup y).isSome = true := by
    rintro y ⟨key, hkey, hy⟩
    exact hseen key hkey y hy
  refine ⟨seen', _, ?_, hpics.fill ho rfl hnew hshown, hpics.lookup_self⟩
  subst hr
  rw [drawRecord, bind_ok (newDict_run r), bind_ok (tableOf_run o _)]
  exact bind_ok hrun

theorem draws_snapshot_go (call : Caller σ) (hP : Walls h P) (depth : Nat) :
    Draws h P (snapshot.go call depth) depth := by
  induction depth with
  | zero => exact fun _ _ _ _ _ hn => absurd hn (Nat.not_lt_zero _)
  | succ depth ih =>
    intro v seen r hr hv hn
    by_cases hundefined : v = .undefined
    · subst hundefined
      exact ⟨seen, r.pool, rfl, .refl seen r.pool, nofun⟩
    simp only [snapshot_go_run hundefined, Heap.picture_of_ne_undefined hundefined, hr]
    cases hobj : h.object? v with
    | none => exact ⟨seen, r.pool, rfl, .refl seen r.pool, nofun⟩
    | some o =>
      cases hold : seen.lookup o with
      | some dict =>
        have hdict : Heap.standing seen o = dict := by
          rw [Heap.standing, hold, Option.getD_some]
        refine ⟨seen, r.pool, ?_, .refl seen r.pool, ?_⟩
        · dsimp only
          rw [hold, hdict]
          rfl
        · rintro _ ⟨⟩
          rw [hold, Option.isSome_some]
      | none =>
        obtain ⟨seen', p', hrun, hpics, hself⟩ :=
          draws_record call hP ih (hv o hobj) seen hold r hr hn
        have hdict : Heap.standing seen' o = .dict r.pool.dicts.size := by
          rw [Heap.standing, hself, Option.getD_some]
        refine ⟨seen', p', ?_, hpics, ?_⟩
        · dsimp only
          rw [hold, hdict]
          exact hrun
        · rintro _ ⟨⟩
          rw [hself, Option.isSome_some]

/-- What is left of a snapshot: a dict for each record that can be reached, and nothing else. -/
structure Mirrors (r r' : Realm σ) (o : ObjectId) (D : ObjectId → Nat) : Prop where
  /-- Only dicts are new. -/
  pool : r' = r.withPool { r.pool with dicts := r'.pool.dicts }
  dict_eq : ∀ id < r.pool.dicts.size, r'.pool.dict id = r.pool.dict id
  fresh : ∀ x, r.heap.LeadsTo o x → r.pool.dicts.size ≤ D x ∧ D x < r'.pool.dicts.size
  injective : ∀ x y, r.heap.LeadsTo o x → r.heap.LeadsTo o y → D x = D y → x = y
  onto : ∀ id, r.pool.dicts.size ≤ id → id < r'.pool.dicts.size →
    ∃ x, r.heap.LeadsTo o x ∧ D x = id
  entries : ∀ x, r.heap.LeadsTo o x →
    r'.pool.dict (D x) = r.heap.entries (fun y => .dict (D y)) x

def dictOf (seen : Seen) (x : ObjectId) : Nat :=
  match seen.lookup x with
  | some (.dict id) => id
  | _ => 0

section Drawn

variable {seen : Seen} {p p' : Pool} (hpics : h.Pictures P [] seen p p')
  (hseen : (seen.lookup o).isSome = true)
include hpics hseen

theorem exists_drawn {x : ObjectId} (hx : h.LeadsTo o x) :
    seen.lookup x = some (.dict (dictOf seen x)) ∧ p.dicts.size ≤ dictOf seen x ∧
      h.Drawn seen p' x (dictOf seen x) := by
  have hsome : (seen.lookup x).isSome = true := by
    induction hx with
    | refl => exact hseen
    | tail _ hy ih =>
      obtain ⟨v, hv⟩ := Option.isSome_iff_exists.1 ih
      obtain ⟨-, id, rfl, -, hdrawn⟩ := hpics.drawn _ v rfl hv
      exact hdrawn.shown _ hy
  obtain ⟨v, hv⟩ := Option.isSome_iff_exists.1 hsome
  obtain ⟨-, id, rfl, hle, hdrawn⟩ := hpics.drawn x v rfl hv
  have hid : dictOf seen x = id := by
    rw [dictOf, hv]
  rw [hid]
  exact ⟨hv, hle, hdrawn⟩

theorem standing_of_leadsTo {x : ObjectId} (hx : h.LeadsTo o x) :
    Heap.standing seen x = .dict (dictOf seen x) := by
  rw [Heap.standing, (exists_drawn hpics hseen hx).1, Option.getD_some]

end Drawn

theorem mirrors_of_pictures {seen : Seen} {p : Pool}
    (hpics : r.heap.Pictures (r.heap.LeadsTo o) [] seen r.pool p)
    (hseen : (seen.lookup o).isSome = true) : r.Mirrors (r.withPool p) o (dictOf seen) := by
  have hdrawn {x : ObjectId} (hx : r.heap.LeadsTo o x) := exists_drawn hpics hseen hx
  constructor
  · exact congrArg r.withPool hpics.pool
  · exact hpics.dict_eq
  · exact fun x hx => ⟨(hdrawn hx).2.1, (hdrawn hx).2.2.lt_size⟩
  · intro x y hx hy heq
    have hxv := (hdrawn hx).1
    have hyv := (hdrawn hy).1
    rw [heq] at hxv
    exact hpics.distinct x y _ rfl rfl hxv hyv
  · intro id hle hlt
    obtain ⟨x, -, hv⟩ := hpics.onto id hle hlt
    refine ⟨x, (hpics.drawn x _ rfl hv).1, ?_⟩
    rw [dictOf, hv]
  · intro x hx
    refine (hdrawn hx).2.2.dict.trans (Heap.entries_congr fun y hy => ?_)
    exact standing_of_leadsTo hpics hseen (hx.tail hy)

/--
Where no record that can be reached shows a getter, a snapshot ends and mirrors what can be reached:
one dict for each record, whatever cycles there are.
-/
theorem mirrors_snapshot (call : Caller σ) {r : Realm σ} {o : ObjectId} (ho : o < r.heap.size)
    (hplain : ∀ x, r.heap.LeadsTo o x → r.heap.Plain x) :
    ∃ D r', snapshot call (.object o) r = .ok (.dict (D o)) r' ∧ r.Mirrors r' o D := by
  have hP : Walls r.heap (r.heap.LeadsTo o) :=
    ⟨fun x hx => Heap.lt_size_of_leadsTo ho hx, hplain, fun x y hx hy => hx.tail hy⟩
  have hobj : r.heap.object? (.object o) = some o := Heap.object?_object ho
  have hstart : ∀ y, r.heap.object? (.object o) = some y → r.heap.LeadsTo o y := by
    intro y hy
    rw [hobj] at hy
    cases hy
    exact .refl
  have hless : r.heap.unseen [] < r.heap.size + snapshotSlack := by
    have := r.heap.unseen_le_size []
    rw [snapshotSlack]
    omega
  obtain ⟨seen, p, hrun, hpics, hseen⟩ :=
    draws_snapshot_go call hP _ (.object o) [] r rfl hstart hless
  have hself : (seen.lookup o).isSome = true := hseen o hobj
  have hpicture : r.heap.picture (Heap.standing seen) (.object o) = .dict (dictOf seen o) := by
    have hv : Value.object o ≠ .undefined := by simp
    rw [Heap.picture_of_ne_undefined hv, hobj]
    exact standing_of_leadsTo hpics hself .refl
  refine ⟨dictOf seen, r.withPool p, ?_, mirrors_of_pictures hpics hself⟩
  rw [snapshot, bind_ok (readHeap_run r), bind_ok hrun, hpicture]
  rfl

def circling : Realm Unit :=
  let build : RealmM Unit Unit := do
    let a ← createObject .none
    let b ← createObject .none
    define a "left" (.ofValue (.object b))
    define a "right" (.ofValue (.object b))
    define b "up" (.ofValue (.object a))
    define b "gone" (.ofValue .undefined)
    define b "set" { slot := .accessor none (some (.function "f")) }
    define b "got" { slot := .accessor (some (.function "f")) none, enumerable := false }
  ending (build { client := () })

theorem heap_circling :
    circling.heap.size = 2 ∧ (∀ x < 2, circling.heap.Plain x) ∧
      "left" ∈ (circling.heap.table 0).enumerableKeys ∧
      circling.heap.object? ((circling.heap.table 0).held "left") = some 1 := by
  decide +kernel

theorem mirrors_snapshot_circling :
    ∃ (D : ObjectId → Nat) (r' : Realm Unit),
      snapshot (fun _ _ _ => throw .exhausted) (.object 0) circling = .ok (.dict (D 0)) r' ∧
      r'.heap = circling.heap ∧ D 0 ≠ D 1 ∧
      r'.pool.dict (D 0) = [(.str "left", .dict (D 1)), (.str "right", .dict (D 1))] ∧
      r'.pool.dict (D 1) =
        [(.str "up", .dict (D 0)), (.str "gone", .none), (.str "set", .none)] := by
  obtain ⟨hsize, hall, hkey, hobject⟩ := heap_circling
  have ho : 0 < circling.heap.size := hsize ▸ by decide
  have hplain : ∀ x, circling.heap.LeadsTo 0 x → circling.heap.Plain x :=
    fun x hx => hall x (hsize ▸ Heap.lt_size_of_leadsTo ho hx)
  obtain ⟨D, r', hrun, hmirrors⟩ := mirrors_snapshot (fun _ _ _ => throw .exhausted) ho hplain
  have hshown : circling.heap.LeadsTo 0 1 := .single ⟨"left", hkey, hobject⟩
  refine ⟨D, r', hrun, ?_, ?_, ?_, ?_⟩
  · rw [hmirrors.pool]
    rfl
  · intro heq
    cases hmirrors.injective 0 1 .refl hshown heq
  · rw [hmirrors.entries 0 .refl]
    rfl
  · rw [hmirrors.entries 1 hshown]
    rfl

end ObjectModel.Realm
