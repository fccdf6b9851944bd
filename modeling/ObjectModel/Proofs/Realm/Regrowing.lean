import ObjectModel.Proofs.Heap.Unfolding
import ObjectModel.Proofs.Realm.Returning

/-!
Building from a picture of records. Building does not know a dict again: where dicts form a tree it
makes records for all of it, and where a dict contains itself it runs out of depth. So what is built
from a snapshot unfolds what the snapshot was taken of.
-/

namespace ObjectModel.Realm

variable {σ α : Type} {call : Caller σ} {r : Realm σ} {h h' : Heap} {pool : Pool} {P : Nat → Prop}
  {v : Value} {depth : Nat} {o : ObjectId}

theorem not_straysFrom_none (h : Heap) (key : String) : ¬ h.StraysFrom none key := by
  rintro ⟨-, hend⟩
  rw [h.strayEnd?_none] at hend
  cases hend

theorem findsValues_none (h : Heap) (key : String) : h.FindsValues none key := by
  intro found hfound
  rw [h.findProperty_none] at hfound
  cases hfound

theorem Building.exists_ok {keys : List String} {a : α}
    {result : EStateM.Result Failure (Realm σ) α} (hbuilding : Building h none keys r a h' result) :
    ∃ r', result = .ok a r' ∧ r.Built r' ∧ r'.heap = h' := by
  cases hbuilding with
  | strayed hkeys =>
    obtain ⟨k, -, hstray⟩ := hkeys
    exact absurd hstray (not_straysFrom_none h k)
  | built _ hbuilt hheap => exact ⟨_, rfl, hbuilt, hheap⟩

structure Filling (h : Heap) (pool : Pool) (before : List Record) (table : Table) (r : Realm σ) :
    Prop where
  dicts : r.pool.dicts = pool.dicts
  room : table.extensible = true
  heap : ∃ after, r.heap = h.extend (before ++ { link := .ofLink none, table } :: after)

theorem exists_storeEntry (call : Caller σ) {before : List Record} {table : Table}
    (hfilling : Filling h pool before table r) {key : Value} (hkey : key.key?.isSome = true)
    (hnew : key.name ∉ table.keys) {d : Data} (hd : pool.Holds v d) (hproper : d.Proper)
    (hheight : d.height ≤ depth) :
    ∃ e r', storeEntry call (build.go call (.ofLink none) depth) (h.size + before.length) (key, v)
        r = .ok () r' ∧ Filling h pool before (table.put key.name e) r' := by
  obtain ⟨hdicts, hroom, after, hr⟩ := hfilling
  obtain ⟨r₁, hrun₁, hbuilt₁, hr₁⟩ := (building_data call .top d hheight hproper
    (fun k _ => findsValues_none h k) hd hdicts hr).exists_ok
  rw [List.append_assoc, List.cons_append] at hr₁
  obtain ⟨r₂, hrun₂, hbuilt₂, hr₂⟩ :=
    (building_setByPolicy call .top hr₁ rfl (Value.key?_eq_name hkey) (findsValues_none h _)
      ((table.lookup_eq_none_iff _).2 hnew) hroom).exists_ok
  refine ⟨_, r₂, ?_, ?_, hroom, _, hr₂⟩
  · rw [storeEntry, bind_ok hrun₁]
    exact bind_ok hrun₂
  · rw [hbuilt₂.dicts_eq, hbuilt₁.dicts_eq, hdicts]

def Concludes (call : Caller σ) (h : Heap) (pool : Pool) (depth : Nat) (v : Value) : Prop :=
  (∃ d, pool.Holds v d ∧ d.Proper ∧ d.height ≤ depth) ∨
    ∀ (records : List Record) (r : Realm σ), r.pool.dicts = pool.dicts → r.heap = h.extend records →
      ∃ r', build.go call (.ofLink none) depth v r = .error .exhausted r'

theorem concludes_entries {pairs : List (Value × Value)}
    (hkeys : ∀ entry ∈ pairs, entry.1.key?.isSome = true)
    (hvalues : ∀ entry ∈ pairs, Concludes call h pool depth entry.2) :
    (∃ entries, pool.HoldsAll pairs entries ∧ entries.Proper ∧ entries.height ≤ depth) ∨
      ∀ (before : List Record) (table : Table) (r : Realm σ),
        (pairs.map fun entry => entry.1.name).Nodup →
        (∀ entry ∈ pairs, entry.1.name ∉ table.keys) → Filling h pool before table r →
        ∃ r', pairs.forM (storeEntry call (build.go call (.ofLink none) depth)
          (h.size + before.length)) r = .error .exhausted r' := by
  induction pairs with
  | nil => exact .inl ⟨.nil, .nil, trivial, Nat.zero_le _⟩
  | cons entry pairs ih =>
    obtain ⟨key, v⟩ := entry
    obtain ⟨hkey, hkeys⟩ := List.forall_mem_cons.1 hkeys
    obtain ⟨hvalue, hvalues⟩ := List.forall_mem_cons.1 hvalues
    obtain ⟨d, hd, hproper, hheight⟩ | hexhausted := hvalue
    · obtain ⟨rest, hrest, hproper', hheight'⟩ | hexhausted := ih hkeys hvalues
      · left
        exact ⟨.cons key d rest, .cons hd hrest, ⟨hkey, hproper, hproper'⟩,
          Nat.max_le.2 ⟨hheight, hheight'⟩⟩
      · -- the first value is stored, and one of those after it uses up the depth
        right
        intro before table r hnodup hnew hfilling
        rw [List.map_cons, List.nodup_cons] at hnodup
        rw [List.forall_mem_cons] at hnew
        obtain ⟨e, r₁, hrun, hfilling₁⟩ :=
          exists_storeEntry call hfilling hkey hnew.1 hd hproper hheight
        obtain ⟨r₂, hrest⟩ := hexhausted before _ r₁ hnodup.2 (fun entry hentry => by
          rw [Table.keys_put, if_neg hnew.1, List.mem_append, List.mem_singleton, not_or]
          refine ⟨hnew.2 entry hentry, fun hname => hnodup.1 ?_⟩
          exact List.mem_map.2 ⟨entry, hentry, hname⟩) hfilling₁
        exact ⟨r₂, (bind_ok hrun).trans hrest⟩
    · right
      intro before table r _ _ hfilling
      obtain ⟨after, hr⟩ := hfilling.heap
      obtain ⟨r', hrun⟩ := hexhausted _ r hfilling.dicts hr
      rw [forM_storeEntry_cons]
      exact ⟨r', bind_error hrun⟩

theorem concludes (call : Caller σ) (h : Heap) (horderly : pool.Orderly P) (depth : Nat)
    (hv : v.IsLeaf ∨ ∃ id, P id ∧ v = .dict id) : Concludes call h pool depth v := by
  induction depth generalizing v with
  | zero => exact .inr fun _ r _ _ => ⟨r, rfl⟩
  | succ depth ih =>
    obtain hleaf | ⟨id, hid, rfl⟩ := hv
    · exact .inl ⟨.leaf v, .leaf hleaf, hleaf, Nat.succ_le_succ (Nat.zero_le _)⟩
    obtain ⟨entries, hentries, hproper, hheight⟩ | hexhausted :=
      concludes_entries (horderly.key id hid) fun entry hentry =>
        ih (horderly.value id hid entry hentry)
    · left
      refine ⟨.dict entries, .dict hentries, ⟨?_, hproper⟩, Nat.succ_le_succ hheight⟩
      rw [hentries.names_eq]
      exact horderly.nodup id hid
    · -- the record that stands for the dict is made before its entries are stored in it
      right
      intro records r hdicts hr
      obtain ⟨r₁, hrun₁, hbuilt₁, hr₁⟩ := (building_createObject .top hr).exists_ok
      have hdicts₁ := hbuilt₁.dicts_eq.trans hdicts
      obtain ⟨r₂, hrun₂⟩ := hexhausted records .empty r₁ (horderly.nodup id hid)
        (fun _ _ => nofun) ⟨hdicts₁, rfl, [], hr₁⟩
      have hpairs : r₁.pool.dict id = pool.dict id := by
        rw [Pool.dict, hdicts₁, Pool.dict]
      refine ⟨r₂, ?_⟩
      rw [build_go_dict]
      refine (bind_ok hrun₁).trans ?_
      rw [bind_run, get_run]
      dsimp only
      rw [hpairs]
      exact bind_error hrun₂

theorem build_of_not_holds (call : Caller σ) (horderly : r.pool.Orderly P) {id : Nat} (hid : P id)
    (hnot : ∀ d, ¬ r.pool.Holds (.dict id) d) :
    ∃ r', build call (.dict id) .none r = .error .exhausted r' := by
  obtain ⟨d, hd, -⟩ | hexhausted := concludes call r.heap horderly (r.pool.dicts.size + 1)
    (.inr ⟨id, hid, rfl⟩)
  · exact absurd hd (hnot d)
  · rw [build_run]
    exact hexhausted [] r rfl r.heap.extend_nil.symm

theorem build_of_holds (call : Caller σ) {d : Data} (hd : r.pool.Holds v d) (hproper : d.Proper) :
    ∃ r', build call v .none r = .ok (d.value r.heap.size) r' ∧ r.BuiltFrom r' d none := by
  obtain ⟨r', hrun, hbuilt, hheap⟩ :=
    (building_build call .top hproper (fun k _ => findsValues_none _ k) hd).exists_ok
  exact ⟨r', hrun, builtFrom_of_extend hbuilt hproper hheap⟩

/--
What comes of building from `v`, a snapshot of `o`: a tree that unfolds what `o` leads to, unless
something there leads back to itself, where building runs out of depth.
-/
structure Regrows (call : Caller σ) (r : Realm σ) (o : ObjectId) (v : Value) : Prop where
  unfolds : ¬ r.heap.Circles o → ∃ r' d, build call v .none r = .ok (.object r.heap.size) r' ∧
    r.BuiltFrom r' d none ∧ r.heap.Unfolds r'.heap o r.heap.size
  exhausts : r.heap.Circles o → ∃ r', build call v .none r = .error .exhausted r'
  /-- So what `o` leads to is there again exactly if different paths lead to different records. -/
  rebuilds_iff : (∃ r', build call v .none r = .ok (.object r.heap.size) r' ∧
    r.heap.Rebuilds r'.heap o r.heap.size) ↔ r.heap.Unshared o

theorem regrows_of_pictured (call : Caller σ) {D : ObjectId → Nat} (ho : o < r.heap.size)
    (hpic : r.heap.Pictured r.pool D o) : r.Regrows call o (.dict (D o)) := by
  have hunfolds (hnot : ¬ r.heap.Circles o) : ∃ r' d,
      build call (.dict (D o)) .none r = .ok (.object r.heap.size) r' ∧
        r.BuiltFrom r' d none ∧ r.heap.Unfolds r'.heap o r.heap.size := by
    obtain ⟨entries, hholds, hproper⟩ := hpic.exists_holds ho hnot .refl
    obtain ⟨r', hrun, hbuilt⟩ := build_of_holds call hholds hproper
    exact ⟨r', .dict entries, hrun, hbuilt,
      hpic.unfolds hholds ⟨hproper, hbuilt.stands⟩ hbuilt.size⟩
  have hexhausts (hcircles : r.heap.Circles o) :
      ∃ r', build call (.dict (D o)) .none r = .error .exhausted r' :=
    build_of_not_holds call hpic.orderly ⟨o, .refl, rfl⟩ (hpic.not_holds_of_circles hcircles)
  refine ⟨hunfolds, hexhausts, ?_⟩
  constructor
  · rintro ⟨r', hrun, hrebuilds⟩
    by_cases hcircles : r.heap.Circles o
    · obtain ⟨r'', hrun'⟩ := hexhausts hcircles
      cases hrun.symm.trans hrun'
    · obtain ⟨r'', d, hrun', -, htree⟩ := hunfolds hcircles
      cases hrun.symm.trans hrun'
      exact htree.rebuilds_iff.1 hrebuilds
  · intro hunshared
    obtain ⟨r', d, hrun, -, htree⟩ := hunfolds hunshared.not_circles
    exact ⟨r', hrun, htree.rebuilds_iff.2 hunshared⟩

theorem regrows_of_closed (call : Caller σ) (hclosed : r.heap.Closed) (ho : o < r.heap.size)
    (hdata : ∀ x, r.heap.LeadsTo o x → r.heap.ShowsData x) :
    ∃ v r', snapshot call (.object o) r = .ok v r' ∧ r'.heap = r.heap ∧ r'.Regrows call o v := by
  obtain ⟨D, r', hrun, hmirrors⟩ := mirrors_snapshot call ho fun x hx => (hdata x hx).plain
  have hheap : r'.heap = r.heap := by
    rw [hmirrors.pool]
    rfl
  have hpic : r'.heap.Pictured r'.pool D o := by
    rw [hheap]
    exact ⟨hmirrors.entries, fun x hx key hkey => (hdata x hx).held hclosed hkey⟩
  exact ⟨.dict (D o), r', hrun, hheap, regrows_of_pictured call (hheap ▸ ho) hpic⟩

end ObjectModel.Realm
