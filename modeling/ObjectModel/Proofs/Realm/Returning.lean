import ObjectModel.Proofs.Realm.Building
import ObjectModel.Proofs.Realm.Picturing

/-!
Snapshots of records that stand for data. What such records hold are values that are stored, and
records that stand for the data in it, so a snapshot of them is that data again, and building and a
snapshot make a round trip.
-/

namespace ObjectModel

open Realm

variable {h : Heap} {d : Data} {link : Value} {seen : Seen} {p p' : Pool} {P : ObjectId → Prop}
  {x : ObjectId}

theorem Table.held_of_mem {t : Table} {key : String} {v : Value}
    (hmem : (key, .ofValue v) ∈ t.entries) : t.held key = v := by
  rw [Table.held, (t.lookup_eq_some_iff key _).2 hmem]
  rfl

theorem Heap.entries_eq_map (f : ObjectId → Value)
    (hheld : ∀ entry ∈ (h.table x).entries, ∃ v, entry.2 = .ofValue v) :
    h.entries f x = (h.table x).entries.map fun entry =>
      (.str entry.1, h.picture f ((h.table x).held entry.1)) := by
  rw [Heap.entries, Table.enumerableKeys_eq_keys hheld, Table.keys, List.map_map]
  rfl

theorem Heap.shows_of_mem {key : String} {v : Value}
    (hmem : (key, .ofValue v) ∈ (h.table x).entries) {y : ObjectId} (hy : h.object? v = some y) :
    h.Shows x y := by
  refine ⟨key, ?_, ?_⟩
  · exact List.mem_map.2 ⟨(key, .ofValue v), List.mem_filter.2 ⟨hmem, rfl⟩, rfl⟩
  · rw [Table.held_of_mem hmem, hy]

theorem Value.IsLeaf.normal {v : Value} (hv : v.IsLeaf) : v.normal.IsLeaf := by
  unfold Value.normal
  split
  · trivial
  · exact hv

theorem Heap.picture_stored {v : Value} (hv : v.IsLeaf) (f : ObjectId → Value) :
    h.picture f v.stored = v.normal := by
  cases v with
  | object => exact hv.elim
  | _ => rfl

theorem exists_standsFor (hproper : d.Proper) (hle : h.size ≤ x)
    (hlt : x < (h.extend (d.records link h.size)).size) :
    ∃ record : Record, record.StandsFor link h.size (h.size + d.dicts) ∧
      (h.extend (d.records link h.size)).link x = record.link ∧
      (h.extend (d.records link h.size)).table x = record.table := by
  obtain ⟨record, hmem, hrecord⟩ := Heap.exists_mem_of_size_le hle hlt
  refine ⟨record, d.standsFor_of_mem link h.size hproper record hmem, ?_, ?_⟩
  · rw [Heap.link, hrecord]
    rfl
  · rw [Heap.table, hrecord]
    rfl

theorem stands_extend_records (hproper : d.Proper) :
    d.Stands (h.extend (d.records link h.size)) h.size := by
  have hstands := d.stands_extend h link [] [] hproper
  rwa [List.length_nil, List.nil_append, List.append_nil, Nat.add_zero] at hstands

theorem walls_extend (hproper : d.Proper) :
    Walls (h.extend (d.records link h.size))
      fun x => h.size ≤ x ∧ x < (h.extend (d.records link h.size)).size where
  lt_size _ hx := hx.2
  plain x hx := by
    obtain ⟨record, hstands, -, htable⟩ := exists_standsFor hproper hx.1 hx.2
    intro key _ e he
    rw [htable] at he
    obtain ⟨v, hv, -⟩ := hstands.held (key, e) ((Table.lookup_eq_some_iff _ _ _).1 he)
    obtain rfl : e = .ofValue v := hv
    rfl
  shows x y hx := by
    obtain ⟨record, hstands, -, htable⟩ := exists_standsFor hproper hx.1 hx.2
    rintro ⟨key, hkey, hy⟩
    obtain ⟨e, he, -⟩ := Table.exists_of_mem_enumerableKeys hkey
    rw [htable] at hy he
    obtain ⟨v, hv, hobject⟩ := hstands.held (key, e) ((Table.lookup_eq_some_iff _ _ _).1 he)
    obtain rfl : e = .ofValue v := hv
    rw [Table.held, he] at hy
    obtain ⟨hv, hlt⟩ := Heap.object?_eq_some hy
    exact ⟨(hobject y hv).1, hlt⟩

mutual

theorem holds_picture (hpics : h.Pictures P [] seen p p') (d : Data) {o : Nat}
    (hproper : d.Proper) (hstands : d.Stands h o)
    (hseen : ∀ y, h.object? (d.value o) = some y → (seen.lookup y).isSome = true) :
    p'.Holds (h.picture (Heap.standing seen) (d.value o)) d.normal := by
  cases d with
  | leaf v =>
    rw [Data.value, Heap.picture_stored hproper, Data.normal]
    exact .leaf (Value.IsLeaf.normal hproper)
  | dict entries =>
    rw [Data.Proper] at hproper
    obtain ⟨ho, htable, hrest⟩ := hstands
    have hobject : h.object? (.object o) = some o := Heap.object?_object ho
    -- the record was drawn between the two moments, as nothing had been drawn at the first
    obtain ⟨v, hv⟩ := Option.isSome_iff_exists.1 (hseen o hobject)
    obtain ⟨-, id, rfl, -, hdrawn⟩ := hpics.drawn o v rfl hv
    have hpicture : h.picture (Heap.standing seen) (.object o) = .dict id := by
      rw [Heap.picture_of_ne_undefined (by simp), hobject]
      show Heap.standing seen o = _
      rw [Heap.standing, hv, Option.getD_some]
    have hheld := entries.held_properties (o + 1) hproper.2
    have hentries : p'.dict id = (entries.properties (o + 1)).map fun entry =>
        (.str entry.1, h.picture (Heap.standing seen) ((h.table o).held entry.1)) := by
      rw [hdrawn.dict, Heap.entries_eq_map, htable]
      intro entry hentry
      rw [htable] at hentry
      obtain ⟨v, hv, -⟩ := hheld entry hentry
      exact ⟨v, hv⟩
    rw [Data.value, hpicture, Data.normal]
    refine .dict ?_
    rw [hentries]
    refine holdsAll_picture hpics entries hproper.2 hrest fun (key, e) hentry => ?_
    obtain ⟨v, hv, -⟩ := hheld (key, e) hentry
    obtain rfl : e = .ofValue v := hv
    rw [← htable] at hentry
    refine ⟨hentry, fun y hy => hdrawn.shown y (Heap.shows_of_mem hentry ?_)⟩
    rw [← Table.held_of_mem hentry, hy]

theorem holdsAll_picture (hpics : h.Pictures P [] seen p p') (entries : Entries) {o : Nat}
    {t : Table} (hproper : entries.Proper) (hstand : entries.Stand h o)
    (hseen : ∀ entry ∈ entries.properties o, entry ∈ t.entries ∧
      ∀ y, h.object? (t.held entry.1) = some y → (seen.lookup y).isSome = true) :
    p'.HoldsAll ((entries.properties o).map fun entry =>
      (.str entry.1, h.picture (Heap.standing seen) (t.held entry.1))) entries.normal := by
  cases entries with
  | nil => exact .nil
  | cons key d rest =>
    rw [Entries.Proper] at hproper
    rw [Entries.properties, List.forall_mem_cons] at hseen
    rw [Entries.properties, List.map_cons, Entries.normal]
    have hheld : t.held key.name = d.value o := Table.held_of_mem hseen.1.1
    refine .cons ?_ (holdsAll_picture hpics rest hproper.2.2 hstand.2 hseen.2)
    dsimp only
    rw [hheld]
    refine holds_picture hpics d hproper.2.1 hstand.1 fun y hy => hseen.1.2 y ?_
    dsimp only
    rw [hheld, hy]

end

theorem holds_snapshot {σ : Type} (call : Caller σ) {r : Realm σ} (hproper : d.Proper)
    (hr : r.heap = h.extend (d.records link h.size)) :
    ∃ v p', snapshot call (d.value h.size) r = .ok v (r.withPool p') ∧
      p' = { r.pool with dicts := p'.dicts } ∧ p'.Holds v d.normal := by
  have hwalls : Walls r.heap fun x => h.size ≤ x ∧ x < r.heap.size := by
    rw [hr]
    exact walls_extend hproper
  have hstands : d.Stands r.heap h.size := by
    rw [hr]
    exact stands_extend_records hproper
  have hstart : ∀ y, r.heap.object? (d.value h.size) = some y →
      h.size ≤ y ∧ y < r.heap.size := by
    intro y hy
    obtain ⟨hv, hlt⟩ := Heap.object?_eq_some hy
    obtain ⟨rfl, -⟩ := Data.value_eq_object hproper hv
    exact ⟨Nat.le_refl _, hlt⟩
  have hless : r.heap.unseen [] < r.heap.size + snapshotSlack :=
    Nat.lt_of_le_of_lt (r.heap.unseen_le_size []) (Nat.lt_add_of_pos_right (by decide))
  obtain ⟨seen, p', hrun, hpics, hseen⟩ :=
    draws_snapshot_go call hwalls _ (d.value h.size) [] r rfl hstart hless
  refine ⟨_, p', ?_, hpics.pool, holds_picture hpics d hproper hstands hseen⟩
  rw [snapshot, bind_ok (readHeap_run r), bind_ok hrun]
  rfl

namespace Realm

variable {σ : Type}

structure BuiltFrom (r r' : Realm σ) (d : Data) (prototype : Option ObjectId) : Prop where
  built : r.Built r'
  old_record : ∀ x < r.heap.size, r'.heap.records[x]? = r.heap.records[x]?
  size : r'.heap.size = r.heap.size + d.dicts
  objectCount : r'.heap.objectCount = r.heap.objectCount + d.dicts
  epoch : r'.heap.epoch = r.heap.epoch
  link : ∀ x, r.heap.size ≤ x → x < r'.heap.size → r'.heap.link x = .ofLink prototype
  stands : d.Stands r'.heap r.heap.size

theorem builtFrom_of_extend {r r' : Realm σ} {prototype : Option ObjectId} (hbuilt : r.Built r')
    (hproper : d.Proper)
    (hheap : r'.heap = r.heap.extend (d.records (.ofLink prototype) r.heap.size)) :
    r.BuiltFrom r' d prototype := by
  have hrecords := d.standsFor_of_mem (.ofLink prototype) r.heap.size hproper
  constructor
  · exact hbuilt
  · intro x hx
    rw [hheap, Heap.getElem?_extend_of_lt hx]
  · rw [hheap, Heap.size_extend, Data.length_records]
  · rw [hheap, Heap.objectCount_extend _ fun record hrecord => (hrecords record hrecord).counted,
      Data.length_records]
  · rw [hheap]
    rfl
  · intro x hle hlt
    rw [hheap] at hlt ⊢
    obtain ⟨record, hstands, hlink, -⟩ := exists_standsFor hproper hle hlt
    rw [hlink, hstands.link]
  · rw [hheap]
    exact stands_extend_records hproper

/--
What comes of building records from the data that is in `v` and of taking a snapshot of them. It
fails only where a key strays from the prototype.
-/
structure RoundTrips (call : Caller σ) (r : Realm σ) (v : Value) (d : Data)
    (prototype : Option ObjectId) : Prop where
  returns : (∀ k ∈ d.keys, ¬ r.heap.StraysFrom prototype k) → ∃ r' v' r'',
    build call v (.ofLink prototype) r = .ok (d.value r.heap.size) r' ∧
      r.BuiltFrom r' d prototype ∧ snapshot call (d.value r.heap.size) r' = .ok v' r'' ∧
      r'' = r'.withPool { r'.pool with dicts := r''.pool.dicts } ∧ r''.pool.Holds v' d.normal
  strays : (∃ k ∈ d.keys, r.heap.StraysFrom prototype k) →
    ∃ r', build call v (.ofLink prototype) r = .error .notRecord r'

theorem roundTrips_of_settled (call : Caller σ) {r : Realm σ} (hset : r.heap.Settled)
    {prototype : Option ObjectId} (hprototype : ∀ q ∈ prototype, q < r.heap.size) {v : Value}
    (hholds : r.pool.Holds v d) (hproper : d.Proper)
    (hvalues : ∀ k ∈ d.keys, r.heap.FindsValues prototype k) :
    r.RoundTrips call v d prototype := by
  obtain ⟨os, ha⟩ := hset.ascent hprototype
  have hbuilding := building_build call ha hproper hvalues hholds
  generalize hrun : build call v (.ofLink prototype) r = result at hbuilding
  cases hbuilding with
  | strayed hkeys =>
    refine ⟨fun hnone => ?_, fun _ => ⟨_, hrun⟩⟩
    obtain ⟨k, hk, hstray⟩ := hkeys
    exact absurd hstray (hnone k hk)
  | @built r' hnone hbuilt hheap =>
    refine ⟨fun _ => ?_, fun ⟨k, hk, hstray⟩ => absurd hstray (hnone k hk)⟩
    obtain ⟨v', p', hsnapshot, hpool, hreturned⟩ := holds_snapshot call hproper hheap
    exact ⟨r', v', _, hrun, builtFrom_of_extend hbuilt hproper hheap, hsnapshot,
      congrArg r'.withPool hpool, hreturned⟩

end Realm

end ObjectModel
