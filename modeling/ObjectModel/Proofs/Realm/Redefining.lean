import ObjectModel.Proofs.Descriptor.Redefinition
import ObjectModel.Proofs.Realm.Locking

/-!
Own properties that are defined again. A property may be defined again as it is, unless it is stuck,
and what it may come to in two steps it may come to in one.
-/

namespace ObjectModel

namespace Pool

theorem equal_go_installed (p : Pool) (installed : Array (List (String × Nat))) (depth : Nat) :
    equal.go { p with installed } depth = equal.go p depth := by
  induction depth with
  | zero => rfl
  | succ depth ih =>
    funext a b
    rw [equal.go, equal.go, ih]
    rfl

theorem equal_installed (p : Pool) (installed : Array (List (String × Nat))) :
    ({ p with installed } : Pool).equal = p.equal := by
  funext a b
  exact congrFun (congrFun (p.equal_go_installed installed (p.size + 1)) a) b

theorem equal_install (p : Pool) (o : ObjectId) (key : String) (id : Nat) :
    (p.install o key id).equal = p.equal :=
  p.equal_installed _

theorem equal_uninstall (p : Pool) (o : ObjectId) (key : String) :
    (p.uninstall o key).equal = p.equal :=
  p.equal_installed _

theorem descriptorOf?_installed (p : Pool) (installed : Array (List (String × Nat))) :
    ({ p with installed } : Pool).descriptorOf? = p.descriptorOf? := by
  funext v
  cases v <;> rfl

theorem descriptorOf?_install (p : Pool) (o : ObjectId) (key : String) (id : Nat) :
    (p.install o key id).descriptorOf? = p.descriptorOf? :=
  p.descriptorOf?_installed _

theorem descriptorOf?_uninstall (p : Pool) (o : ObjectId) (key : String) :
    (p.uninstall o key).descriptorOf? = p.descriptorOf? :=
  p.descriptorOf?_installed _

end Pool

theorem Descriptor.conflict?_self (p : Pool) (d : Descriptor) :
    d.conflict? p.equal d = if d.Stuck then some .enumerable else none := by
  split
  · next hstuck =>
    obtain ⟨hclosed, hnan⟩ := hstuck
    simp [conflict?, Flag.same, Pool.equal_self, hclosed, hnan]
  · next hfree =>
    refine yieldsTo_iff.2 ?_
    cases hclosed : d.configurable.holds with
    | true => exact .inl rfl
    | false =>
      have hnan : d.enumerable.value.isNaN = false := by
        rw [← Bool.not_eq_true]
        exact fun hnan => hfree ⟨hclosed, hnan⟩
      exact .inr ⟨rfl, by simp [Flag.same, Pool.equal_self, hnan], .refl _⟩

namespace Table

variable {key : String} {d : Descriptor}

theorem putEntry_putEntry (key : String) (d e : Descriptor)
    (entries : List (String × Descriptor)) :
    putEntry key e (putEntry key d entries) = putEntry key e entries := by
  induction entries with
  | nil => simp [putEntry]
  | cons entry rest ih =>
    by_cases hkey : entry.1 = key
    · simp [putEntry, hkey]
    · rw [putEntry, if_neg hkey, putEntry, if_neg hkey, ih, putEntry, if_neg hkey]

theorem put_put (t : Table) (key : String) (d e : Descriptor) :
    (t.put key d).put key e = t.put key e :=
  ext_of_entries (putEntry_putEntry key d e t.entries) rfl

theorem putEntry_self {entries : List (String × Descriptor)} (hd : entries.lookup key = some d) :
    putEntry key d entries = entries := by
  induction entries with
  | nil => cases hd
  | cons entry rest ih =>
    rw [lookup_cons] at hd
    by_cases hkey : entry.1 = key
    · rw [if_pos hkey.symm, Option.some.injEq] at hd
      rw [putEntry, if_pos hkey, ← hd, ← hkey]
    · rw [if_neg (Ne.symm hkey)] at hd
      rw [putEntry, if_neg hkey, ih hd]

theorem put_self {t : Table} (hd : t.lookup key = some d) : t.put key d = t :=
  ext_of_entries (putEntry_self hd) rfl

end Table

namespace Heap

variable {h : Heap} {o : ObjectId} {key : String} {d e : Descriptor}

theorem apply_define_define (h : Heap) (o : ObjectId) (key : String) (d e : Descriptor) :
    (h.apply (.define o key d)).apply (.define o key e) = h.apply (.define o key e) := by
  simp only [apply, updateTable_updateTable]
  exact h.updateTable_congr o (Table.put_put _ key d e)

theorem apply_define_self (hd : (h.table o).lookup key = some d) :
    h.apply (.define o key d) = h := by
  rw [apply, h.updateTable_congr o (g := id) (Table.put_self hd), updateTable_id]

end Heap

namespace Realm

variable {σ : Type} {r r' r'' : Realm σ} {o : ObjectId} {k : String} {v v' : Value} {id : Nat}
  {d e : Descriptor}

theorem install_of_lookup (hd : (r.heap.table o).lookup k = some d)
    (hv : r.pool.descriptorOf? v = some (id, e)) : install o k v r =
      match d.conflict? r.pool.equal e with
      | some conflict => .error (.model (.conflict k conflict)) r
      | none => .ok () { r with
          heap := r.heap.apply (.define o k e)
          trace := r.trace.push (.changed (.define o k e))
          pool := (r.pool.uninstall o k).install o k id } := by
  rw [install_run, hv]
  dsimp only
  rw [bind_run, define_run, Table.refusal?, hd]
  dsimp only
  cases d.conflict? r.pool.equal e <;> rfl

theorem exists_install (hd : (r.heap.table o).lookup k = some d)
    (hv : r.pool.descriptorOf? v = some (id, e)) (h : d.YieldsTo r.pool e) :
    ∃ r', install o k v r = .ok () r' ∧ r'.heap = r.heap.apply (.define o k e) := by
  rw [install_of_lookup hd hv, show d.conflict? r.pool.equal e = none from h]
  exact ⟨_, rfl, rfl⟩

theorem yieldsTo_of_install (hd : (r.heap.table o).lookup k = some d)
    (hv : r.pool.descriptorOf? v = some (id, e)) (h : install o k v r = .ok () r') :
    d.YieldsTo r.pool e := by
  rw [install_of_lookup hd hv] at h
  cases hconflict : d.conflict? r.pool.equal e with
  | some conflict => rw [hconflict] at h; cases h
  | none => exact hconflict

theorem exists_descriptorOf?_of_install (h : install o k v r = .ok () r') :
    ∃ id e, r.pool.descriptorOf? v = some (id, e) := by
  rw [install_run] at h
  split at h
  · next id e hv => exact ⟨id, e, hv⟩
  · cases h

theorem install_ok (hd : (r.heap.table o).lookup k = some d)
    (h : install o k v r = .ok () r') :
    ∃ id e, r.pool.descriptorOf? v = some (id, e) ∧ d.YieldsTo r.pool e ∧
      r'.heap = r.heap.apply (.define o k e) ∧ r'.pool = (r.pool.uninstall o k).install o k id := by
  obtain ⟨id, e, hv⟩ := exists_descriptorOf?_of_install h
  have hyields := yieldsTo_of_install hd hv h
  rw [install_of_lookup hd hv, show d.conflict? r.pool.equal e = none from hyields] at h
  cases h
  exact ⟨id, e, hv, hyields, rfl, rfl⟩

structure Redefines (r : Realm σ) : Prop where
  accepts : ∀ o k v id d e, (r.heap.table o).lookup k = some d →
    r.pool.descriptorOf? v = some (id, e) →
    ((∃ r', install o k v r = .ok () r') ↔ d.YieldsTo r.pool e)
  keeps : ∀ o k v id d, (r.heap.table o).lookup k = some d →
    r.pool.descriptorOf? v = some (id, d) → ¬ d.Stuck →
    ∃ r', install o k v r = .ok () r' ∧ r'.heap = r.heap
  refuses : ∀ o k v id d, (r.heap.table o).lookup k = some d →
    r.pool.descriptorOf? v = some (id, d) → d.Stuck →
    install o k v r = .error (.model (.conflict k .enumerable)) r
  composes : ∀ o k v v' r' r'', k ∈ (r.heap.table o).keys → install o k v r = .ok () r' →
    install o k v' r' = .ok () r'' → ∃ s, install o k v' r = .ok () s ∧ s.heap = r''.heap

theorem install_install (hmem : k ∈ (r.heap.table o).keys) (h : install o k v r = .ok () r')
    (h' : install o k v' r' = .ok () r'') :
    ∃ s, install o k v' r = .ok () s ∧ s.heap = r''.heap := by
  obtain ⟨d, hd⟩ := Table.exists_lookup_of_mem hmem
  obtain ⟨id, e, -, hyields, hheap, hpool⟩ := install_ok hd h
  have he : (r'.heap.table o).lookup k = some e := by
    rw [hheap, Heap.lookup_define (Heap.lt_size_of_lookup hd), if_pos ⟨rfl, rfl⟩]
  obtain ⟨id', e', hv', hyields', hheap', -⟩ := install_ok he h'
  -- the step between has left in the pool what decides
  have hequal : r'.pool.equal = r.pool.equal := by
    rw [hpool, Pool.equal_install, Pool.equal_uninstall]
  have hv : r.pool.descriptorOf? v' = some (id', e') := by
    rw [← hv', hpool, Pool.descriptorOf?_install, Pool.descriptorOf?_uninstall]
  rw [Descriptor.YieldsTo, hequal] at hyields'
  obtain ⟨s, hrun, hs⟩ := exists_install hd hv (hyields.trans hyields')
  refine ⟨s, hrun, ?_⟩
  rw [hs, hheap', hheap, Heap.apply_define_define]

theorem redefines (r : Realm σ) : r.Redefines where
  accepts o k v id d e hd hv := by
    constructor
    · rintro ⟨r', h⟩
      exact yieldsTo_of_install hd hv h
    · intro h
      obtain ⟨r', hrun, -⟩ := exists_install hd hv h
      exact ⟨r', hrun⟩
  keeps o k v id d hd hv hfree := by
    have hself : d.YieldsTo r.pool d := by rw [Descriptor.YieldsTo, d.conflict?_self, if_neg hfree]
    obtain ⟨r', hrun, hheap⟩ := exists_install hd hv hself
    exact ⟨r', hrun, hheap.trans (Heap.apply_define_self hd)⟩
  refuses o k v id d hd hv hstuck := by
    rw [install_of_lookup hd hv, d.conflict?_self, if_pos hstuck]
  composes _ _ _ _ _ _ hmem h h' := install_install hmem h h'

end Realm

end ObjectModel
