import ObjectModel.Proofs.Heap.Splicing
import ObjectModel.Proofs.Realm.Constructing

/-!
Setting a prototype from end to end: which links are refused and why, and what a new one does to all
chains.
-/

namespace ObjectModel.Realm

variable {σ : Type} {r : Realm σ} {o : ObjectId} {prototype : Option ObjectId}

def relinked (r : Realm σ) (o : ObjectId) (prototype : Option ObjectId) : Realm σ :=
  let r' := r.committed (.relink o prototype)
  r'.logged (.relinked (Display.value r.heap r.pool (.object o))
    (Display.value r'.heap r'.pool (.ofLink prototype)) r'.heap.epoch)

theorem relink_run (o : ObjectId) (prototype : Option ObjectId) (r : Realm σ) :
    relink o prototype r =
      if .ofLink prototype = r.heap.link o then .ok () r
      else if (r.heap.table o).extensible = false then .error (.model .linkFixed) r
      else if r.heap.reaches prototype o = true then
        .error (.model .cycle) (r.logged (.cycleRejected (Display.value r.heap r.pool (.object o))))
      else
        match r.heap.strayEnd? prototype with
        | some _ => .error .notRecord r
        | none => .ok () (r.relinked o prototype) := by
  simp only [relink, bind_run, readHeap_run, Bool.not_eq_true']
  split
  · rfl
  · split
    · rfl
    · split
      · rfl
      · simp only [display, bind_run, get_run, pure_run, requireEnd_run]
        cases r.heap.strayEnd? prototype <;> rfl

theorem heap_of_relink_eq_error {failure : Failure} {r' : Realm σ}
    (h : relink o prototype r = .error failure r') : r'.heap = r.heap := by
  rw [relink_run] at h
  split at h
  · cases h
  · split at h
    · cases h
      rfl
    · split at h
      · cases h
        rfl
      · split at h
        · cases h
          rfl
        · cases h

def ClosesCycle (r : Realm σ) (o : ObjectId) (prototype : Option ObjectId) : Prop :=
  ∃ p ∈ prototype, p = o ∨ isPrototypeOf (.object o) (.object p) r = .ok true r

theorem reaches_iff_closesCycle (hset : r.heap.Settled)
    (hprototype : ∀ p ∈ prototype, p < r.heap.size) :
    r.heap.reaches prototype o = true ↔ r.ClosesCycle o prototype := by
  rw [Heap.reaches_eq_contains, List.contains_iff_mem, ClosesCycle]
  cases prototype with
  | none => simp [Heap.chain_none]
  | some p =>
    have hp : p < r.heap.size := hprototype p rfl
    simp only [Option.mem_some_iff, exists_eq_left', isPrototypeOf_eq_ok_true_iff hset, hp,
      true_and, hset.chain_eq_cons hp, List.mem_cons, List.tail_cons, eq_comm]

/-- How it ends to set the prototype of `o`, in the order in which the reasons are looked for. -/
structure SetsPrototype (r : Realm σ) (o : ObjectId) (prototype : Option ObjectId) : Prop where
  linked : .ofLink prototype = r.heap.link o →
    setPrototype (.object o) (.ofLink prototype) r = .ok () r
  fixed : .ofLink prototype ≠ r.heap.link o → (r.heap.table o).extensible = false →
    setPrototype (.object o) (.ofLink prototype) r = .error (.model .linkFixed) r
  cycle_iff : .ofLink prototype ≠ r.heap.link o → (r.heap.table o).extensible = true →
    ((∃ r', setPrototype (.object o) (.ofLink prototype) r = .error (.model .cycle) r') ↔
      r.ClosesCycle o prototype)
  strays : .ofLink prototype ≠ r.heap.link o → (r.heap.table o).extensible = true →
    ¬ r.ClosesCycle o prototype → r.heap.strayEnd? prototype ≠ none →
    setPrototype (.object o) (.ofLink prototype) r = .error .notRecord r
  splices : .ofLink prototype ≠ r.heap.link o → (r.heap.table o).extensible = true →
    ¬ r.ClosesCycle o prototype → r.heap.strayEnd? prototype = none →
    ∃ r', setPrototype (.object o) (.ofLink prototype) r = .ok () r' ∧
      r.heap.Spliced r'.heap o prototype
  heap_of_error : ∀ failure r',
    setPrototype (.object o) (.ofLink prototype) r = .error failure r' → r'.heap = r.heap

theorem setPrototype_run (ho : o < r.heap.size) (hprototype : ∀ p ∈ prototype, p < r.heap.size) :
    setPrototype (.object o) (.ofLink prototype) r = relink o prototype r := by
  simp only [setPrototype, bind_run, requireObject_run, Heap.object?_object ho,
    requirePrototype_run, Heap.asLink?_ofLink hprototype]

theorem setsPrototype_of_settled (hset : r.heap.Settled) (ho : o < r.heap.size)
    (hprototype : ∀ p ∈ prototype, p < r.heap.size) : r.SetsPrototype o prototype := by
  have hrun := (setPrototype_run ho hprototype).trans (relink_run o prototype r)
  have hcycle : r.heap.reaches prototype o = true ↔ r.ClosesCycle o prototype :=
    reaches_iff_closesCycle hset hprototype
  have hroom (hext : (r.heap.table o).extensible = true) :
      ¬ (r.heap.table o).extensible = false := by
    rw [hext]
    nofun
  constructor
  · intro hlinked
    rw [hrun, if_pos hlinked]
  · intro hchange hfixed
    rw [hrun, if_neg hchange, if_pos hfixed]
  · intro hchange hext
    rw [hrun, if_neg hchange, if_neg (hroom hext)]
    constructor
    · rintro ⟨r', herror⟩
      rw [← hcycle]
      by_contra hopen
      rw [if_neg hopen] at herror
      split at herror <;> cases herror
    · intro hcloses
      exact ⟨_, if_pos (hcycle.2 hcloses)⟩
  · intro hchange hext hopen hend
    obtain ⟨v, hstray⟩ := Option.ne_none_iff_exists'.1 hend
    rw [hrun, if_neg hchange, if_neg (hroom hext), if_neg (mt hcycle.1 hopen), hstray]
  · intro hchange hext hopen hend
    have hadm : r.heap.AdmitsRelink o prototype := {
      object := ho
      target := hprototype
      changes := hchange
      extensible := hext
      acyclic := eq_false_of_ne_true (mt hcycle.1 hopen)
      ends := hend }
    rw [hrun, if_neg hchange, if_neg (hroom hext), if_neg (mt hcycle.1 hopen), hend]
    exact ⟨_, rfl, hadm.spliced hset⟩
  · intro failure r' herror
    exact heap_of_relink_eq_error ((setPrototype_run ho hprototype).symm.trans herror)

end ObjectModel.Realm
