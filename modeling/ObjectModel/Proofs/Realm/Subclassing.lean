import ObjectModel.Proofs.Heap.Subclassing
import ObjectModel.Proofs.Realm.Splicing

/-!
Extending a constructor at once, and creating one that is linked afterwards. Both make the same
records. Only the second has to walk the chains that it links to, and counts as relinking.
-/

namespace ObjectModel

theorem Display.value_congr {h h' : Heap} (hsize : h'.size = h.size)
    (hconstructor : ∀ o, h'.constructor? o = h.constructor? o)
    (htable : ∀ o, h'.table o = h.table o) (p : Pool) (v : Value) : value h' p v = value h p v := by
  have hgo (depth : Nat) : value.go h' p depth = value.go h p depth := by
    induction depth with
    | zero => rfl
    | succ depth ih =>
      funext within v
      cases v with
      | object o => simp only [value.go, hconstructor, htable, ih]
      | _ => simp only [value.go, ih]
  rw [value, value, hsize, hgo]

namespace Realm

variable {σ : Type} {r : Realm σ} {o sub sup q : ObjectId} {name initializer : Value}
  {link parent prototype : Option ObjectId} {c k : Constructor}

/-- Creates a constructor, and then links it and the record of its instances as `extend` does. -/
def extendByLinks (sup name initializer : Value) : RealmM σ ObjectId := do
  let sub ← createConstructor name initializer .none .none
  linkStatic (.object sub) sup
  linkInstancePrototype (.object sub) sup
  return sub

def lines (r : Realm σ) : List LogEntry :=
  r.trace.toList.filterMap Event.entry?

theorem lines_logged (r : Realm σ) (entry : LogEntry) :
    (r.logged entry).lines = r.lines ++ [entry] := by
  simp [lines, logged, Event.entry?]

theorem lines_committed (r : Realm σ) (change : Change) : (r.committed change).lines = r.lines := by
  simp [lines, committed, Event.entry?]

def shown (r : Realm σ) (o : ObjectId) : String :=
  Display.value r.heap r.pool (.object o)

theorem shown_relinked (r : Realm σ) (o p x : ObjectId) :
    (r.relinked o (some p)).shown x = r.shown x :=
  Display.value_congr (Heap.size_relink _ _ _) (Heap.constructor?_relink _ _ _)
    (Heap.table_relink _ _ _) _ _

theorem pool_constructed (r : Realm σ) (name initializer : Value) (link parent : Option ObjectId) :
    (r.constructed name initializer link parent).pool =
      ((r.pool.uninstall (r.heap.size + 1) "constructor").uninstall r.heap.size
        "prototype").uninstall r.heap.size "name" :=
  rfl

theorem shown_constructed (r : Realm σ) (name initializer : Value)
    (link parent link' parent' : Option ObjectId) (x : ObjectId) :
    (r.constructed name initializer link parent).shown x =
      (r.constructed name initializer link' parent').shown x := by
  rw [shown, shown, pool_constructed, pool_constructed, heap_constructed, heap_constructed]
  refine Display.value_congr ?_ (fun o => ?_) (Heap.table_construct_congr _ _ _ _ _ _) _ _
  · rw [Heap.size_construct, Heap.size_construct]
  · rw [Heap.constructor?_construct, Heap.constructor?_construct]

theorem lines_constructed (r : Realm σ) (name initializer : Value) (link parent : Option ObjectId) :
    (r.constructed name initializer link parent).lines = r.lines ++
      [.createdConstructor ((r.constructed name initializer link parent).shown r.heap.size)] := by
  have hdefined (r : Realm σ) (o : ObjectId) (key : String) (d : Descriptor) :
      (r.defined o key d).lines = r.lines := lines_committed r _
  rw [constructed, lines_logged, equipped, hdefined, hdefined, hdefined, lines_committed, bare,
    lines_committed]
  rfl

theorem lines_relinked (r : Realm σ) (o p : ObjectId) :
    (r.relinked o (some p)).lines = r.lines ++
      [.relinked (r.shown o) (r.shown p) (r.heap.epoch + 1)] := by
  rw [← shown_relinked r o p p, relinked, lines_logged, lines_committed]
  rfl

theorem linkStatic_run (hsub : r.heap.constructor? sub = some c)
    (hsup : r.heap.constructor? sup = some k) :
    linkStatic (.object sub) (.object sup) r = relink sub (some sup) r := by
  simp only [linkStatic, bind_run, requireConstructor_run, Heap.asConstructor?_object hsub,
    requireStaticLink_run, Heap.asStaticLink?_object hsup]

theorem linkInstancePrototype_run (hsub : r.heap.constructor? sub = some c)
    (hsup : r.heap.constructor? sup = some k) (hq : r.heap.constructionPrototype sub = some q) :
    linkInstancePrototype (.object sub) (.object sup) r =
      relink q (r.heap.constructionPrototype sup) r := by
  simp only [linkInstancePrototype, bind_run, requireConstructor_run,
    Heap.asConstructor?_object hsub, Heap.asConstructor?_object hsup, readHeap_run, hq]

def linked (r : Realm σ) (o : ObjectId) : Option ObjectId → Realm σ
  | none => r
  | some p => r.relinked o (some p)

section Unlinked

variable (hlink : r.heap.link o = .none) (hroom : (r.heap.table o).extensible = true)
  (hapart : r.heap.reaches prototype o = false)
include hlink hroom hapart

theorem relink_of_unlinked (hend : r.heap.strayEnd? prototype = none) :
    relink o prototype r = .ok () (r.linked o prototype) := by
  cases prototype with
  | none =>
    rw [relink_run, hlink]
    exact if_pos rfl
  | some p =>
    rw [relink_run, hlink, if_neg nofun, hroom, if_neg nofun, hapart, if_neg nofun, hend, linked]

theorem relink_of_unlinked_of_strays (hend : r.heap.strayEnd? prototype ≠ none) :
    relink o prototype r = .error .notRecord r := by
  cases prototype with
  | none => exact absurd r.heap.strayEnd?_none hend
  | some p =>
    obtain ⟨stray, hstray⟩ := Option.ne_none_iff_exists'.1 hend
    rw [relink_run, hlink, if_neg nofun, hroom, if_neg nofun, hapart, if_neg nofun, hstray]

end Unlinked

theorem createConstructor_unlinked (name initializer : Value) (r : Realm σ) :
    createConstructor name initializer .none .none r =
      .ok r.heap.size (r.constructed name initializer none none) :=
  createConstructor_of_links rfl rfl

theorem linkStatic_constructed (hset : r.heap.Settled) (hsup : r.heap.constructor? sup = some k)
    (name initializer : Value) :
    let r₁ := r.constructed name initializer none none
    (r.heap.strayEnd? (some sup) = none → linkStatic (.object r.heap.size) (.object sup) r₁ =
        .ok () (r₁.relinked r.heap.size (some sup))) ∧
      (r.heap.strayEnd? (some sup) ≠ none →
        linkStatic (.object r.heap.size) (.object sup) r₁ = .error .notRecord r₁) := by
  intro r₁
  let made : Constructor := { name, initializer := initializer.toOption }
  have hheap : r₁.heap = r.heap.construct none none made :=
    heap_constructed r name initializer none none
  have hlt : sup < r.heap.size := Heap.lt_size_of_constructor? hsup
  have hsize : r.heap.size ≤ r₁.heap.size := by
    rw [hheap, Heap.size_construct]
    exact Nat.le_add_right _ _
  have hsub : r₁.heap.constructor? r.heap.size = some made := by
    rw [hheap]
    exact r.heap.constructor?_construct_self _ _ _
  have hsup₁ : r₁.heap.constructor? sup = some k := by
    rw [hheap, Heap.constructor?_construct_of_lt hlt]
    exact hsup
  have hunlinked : r₁.heap.link r.heap.size = .none := by
    rw [hheap, Heap.link_construct, if_neg (Nat.ne_of_lt (Nat.lt_succ_self _))]
    exact if_pos rfl
  have hroom : (r₁.heap.table r.heap.size).extensible = true := by
    rw [hheap]
    exact (r.heap.extensible_construct _ _ _).1
  obtain ⟨hapart, hend⟩ := hset.apart hsize
    (fun x hx => by rw [hheap]; exact Heap.link_construct_of_lt hx) (some sup)
    (by rintro _ ⟨⟩; exact hlt) (Nat.le_refl r.heap.size)
  rw [linkStatic_run hsub hsup₁, ← hend]
  exact ⟨relink_of_unlinked hunlinked hroom hapart,
    relink_of_unlinked_of_strays hunlinked hroom hapart⟩

theorem heap_relinked_constructed (r : Realm σ) (name initializer : Value) (sup : ObjectId) :
    ((r.constructed name initializer none none).relinked r.heap.size (some sup)).heap =
      ({ r.heap with epoch := r.heap.epoch + 1 } : Heap).construct (some sup) none
        { name, initializer := initializer.toOption } :=
  r.heap.relink_construct none none _ (some sup)

theorem linkInstancePrototype_relinked (hset : r.heap.Settled) (hclosed : r.heap.Closed)
    (hsup : r.heap.constructor? sup = some k) (name initializer : Value) :
    let r₂ := (r.constructed name initializer none none).relinked r.heap.size (some sup)
    (r.heap.strayEnd? (r.heap.constructionPrototype sup) = none →
        linkInstancePrototype (.object r.heap.size) (.object sup) r₂ =
          .ok () (r₂.linked (r.heap.size + 1) (r.heap.constructionPrototype sup))) ∧
      (r.heap.strayEnd? (r.heap.constructionPrototype sup) ≠ none →
        linkInstancePrototype (.object r.heap.size) (.object sup) r₂ = .error .notRecord r₂) := by
  intro r₂
  let base : Heap := { r.heap with epoch := r.heap.epoch + 1 }
  let made : Constructor := { name, initializer := initializer.toOption }
  have hheap : r₂.heap = base.construct (some sup) none made :=
    heap_relinked_constructed r name initializer sup
  have hlt : sup < base.size := Heap.lt_size_of_constructor? hsup
  have hsize : r.heap.size ≤ r₂.heap.size := by
    rw [hheap, Heap.size_construct]
    exact Nat.le_add_right _ _
  have hsub : r₂.heap.constructor? r.heap.size = some made := by
    rw [hheap]
    exact base.constructor?_construct_self _ _ _
  have hsup₂ : r₂.heap.constructor? sup = some k := by
    rw [hheap, Heap.constructor?_construct_of_lt hlt]
    exact hsup
  have hprototype : r₂.heap.constructionPrototype r.heap.size = some (r.heap.size + 1) := by
    rw [hheap]
    exact base.constructionPrototype_construct _ _ _
  have htable : r₂.heap.table sup = r.heap.table sup := by
    rw [hheap, Heap.table_construct_of_lt hlt]
    rfl
  have hparent : r₂.heap.constructionPrototype sup = r.heap.constructionPrototype sup :=
    hclosed.constructionPrototype_eq hsize htable
  have hunlinked : r₂.heap.link (r.heap.size + 1) = .none := by
    rw [hheap, Heap.link_construct]
    exact if_pos rfl
  have hroom : (r₂.heap.table (r.heap.size + 1)).extensible = true := by
    rw [hheap]
    exact (base.extensible_construct _ _ _).2
  obtain ⟨hapart, hend⟩ := hset.apart hsize
    (fun x hx => by rw [hheap]; exact Heap.link_construct_of_lt hx)
    (r.heap.constructionPrototype sup) (fun p hp => Heap.constructionPrototype_lt hp)
    (Nat.le_succ r.heap.size)
  rw [linkInstancePrototype_run hsub hsup₂ hprototype, hparent, ← hend]
  exact ⟨relink_of_unlinked hunlinked hroom hapart,
    relink_of_unlinked_of_strays hunlinked hroom hapart⟩

def extended (r : Realm σ) (sup : ObjectId) (name initializer : Value) : Realm σ :=
  ((r.constructed name initializer none none).relinked r.heap.size (some sup)).linked
    (r.heap.size + 1) (r.heap.constructionPrototype sup)

theorem heap_extended (r : Realm σ) (sup : ObjectId) (name initializer : Value) :
    (r.extended sup name initializer).heap =
      { r.heap.construct (some sup) (r.heap.constructionPrototype sup)
          { name, initializer := initializer.toOption } with
        epoch := r.heap.epoch + if (r.heap.constructionPrototype sup).isSome then 2 else 1 } := by
  rw [extended]
  cases r.heap.constructionPrototype sup with
  | none => exact (heap_relinked_constructed r name initializer sup).trans (Heap.construct_epoch ..)
  | some p =>
    show (((r.constructed name initializer none none).relinked r.heap.size (some sup)).heap.apply
      (.relink (r.heap.size + 1) (some p))) = _
    rw [heap_relinked_constructed]
    exact (Heap.relink_construct_succ _ _ _ _ _).trans (Heap.construct_epoch ..)

theorem lines_extended (r : Realm σ) (sup : ObjectId) (name initializer : Value) :
    let r₁ := r.constructed name initializer (some sup) (r.heap.constructionPrototype sup)
    (r.extended sup name initializer).lines = r.lines ++
      [.createdConstructor (r₁.shown r.heap.size),
        .relinked (r₁.shown r.heap.size) (r₁.shown sup) (r.heap.epoch + 1)] ++
      match r.heap.constructionPrototype sup with
      | none => []
      | some p => [.relinked (r₁.shown (r.heap.size + 1)) (r₁.shown p) (r.heap.epoch + 2)] := by
  intro r₁
  let made := r.constructed name initializer none none
  have hshown (x : ObjectId) : made.shown x = r₁.shown x := shown_constructed r _ _ _ _ _ _ x
  have hlines : (made.relinked r.heap.size (some sup)).lines = r.lines ++
      [.createdConstructor (r₁.shown r.heap.size),
        .relinked (r₁.shown r.heap.size) (r₁.shown sup) (r.heap.epoch + 1)] := by
    rw [lines_relinked, lines_constructed, List.append_assoc, ← hshown, ← hshown]
    rfl
  rw [extended]
  cases r.heap.constructionPrototype sup with
  | none => rw [linked, hlines, List.append_nil]
  | some p =>
    rw [linked, lines_relinked, hlines, shown_relinked, shown_relinked, hshown, hshown]
    rfl

structure Alike (r r' : Realm σ) : Prop where
  pool : r'.pool = r.pool
  strict : r'.strict = r.strict
  threadSafe : r'.threadSafe = r.threadSafe
  client : r'.client = r.client

theorem Alike.trans {r r' r'' : Realm σ} (first : r.Alike r') (second : r'.Alike r'') :
    r.Alike r'' :=
  ⟨second.pool.trans first.pool, second.strict.trans first.strict,
    second.threadSafe.trans first.threadSafe, second.client.trans first.client⟩

theorem alike_relinked (r : Realm σ) (o : ObjectId) (prototype : Option ObjectId) :
    r.Alike (r.relinked o prototype) :=
  ⟨rfl, rfl, rfl, rfl⟩

theorem alike_linked (r : Realm σ) (o : ObjectId) (prototype : Option ObjectId) :
    r.Alike (r.linked o prototype) := by
  cases prototype with
  | none => exact ⟨rfl, rfl, rfl, rfl⟩
  | some p => exact alike_relinked r o (some p)

theorem alike_constructed (r : Realm σ) (name initializer : Value)
    (link parent link' parent' : Option ObjectId) :
    (r.constructed name initializer link parent).Alike
      (r.constructed name initializer link' parent') := by
  have hstrict (link parent) : (r.constructed name initializer link parent).strict = r.strict := rfl
  have hsafe (link parent) :
      (r.constructed name initializer link parent).threadSafe = r.threadSafe := rfl
  have hclient (link parent) : (r.constructed name initializer link parent).client = r.client := rfl
  constructor
  · rw [pool_constructed, pool_constructed]
  · rw [hstrict, hstrict]
  · rw [hsafe, hsafe]
  · rw [hclient, hclient]

theorem alike_extended (r : Realm σ) (sup : ObjectId) (name initializer : Value) :
    (r.constructed name initializer (some sup) (r.heap.constructionPrototype sup)).Alike
      (r.extended sup name initializer) :=
  (alike_constructed r name initializer _ _ none none).trans
    ((alike_relinked _ _ _).trans (alike_linked _ _ _))

/--
What it comes to, to extend a constructor and to create one that is linked afterwards: to the same,
unless a chain that would be linked to strays, which only links that are made afterwards meet.
-/
structure Subclasses (r : Realm σ) (sup : ObjectId) (name initializer : Value) : Prop where
  atOnce : ∃ r₁, extend (.object sup) name initializer r = .ok r.heap.size r₁
  agrees : r.heap.strayEnd? (some sup) = none →
    r.heap.strayEnd? (r.heap.constructionPrototype sup) = none →
    ∃ r₁ r₂, extend (.object sup) name initializer r = .ok r.heap.size r₁ ∧
      extendByLinks (.object sup) name initializer r = .ok r.heap.size r₂ ∧
      r₁.Alike r₂ ∧ r₂.heap = { r₁.heap with epoch := r₂.heap.epoch } ∧
      r₁.heap.epoch = r.heap.epoch ∧
      r₂.heap.epoch =
        r.heap.epoch + (if (r.heap.constructionPrototype sup).isSome then 2 else 1) ∧
      r₁.lines = r.lines ++ [.createdConstructor (r₁.shown r.heap.size)] ∧
      r₂.lines = r.lines ++
        [.createdConstructor (r₁.shown r.heap.size),
          .relinked (r₁.shown r.heap.size) (r₁.shown sup) (r.heap.epoch + 1)] ++
        match r.heap.constructionPrototype sup with
        | none => []
        | some p => [.relinked (r₁.shown (r.heap.size + 1)) (r₁.shown p) (r.heap.epoch + 2)]
  strays : r.heap.strayEnd? (some sup) ≠ none ∨
      r.heap.strayEnd? (r.heap.constructionPrototype sup) ≠ none →
    ∃ r₂, extendByLinks (.object sup) name initializer r = .error .notRecord r₂

theorem subclasses_of_settled (hset : r.heap.Settled) (hclosed : r.heap.Closed)
    (hsup : r.heap.constructor? sup = some k) (name initializer : Value) :
    r.Subclasses sup name initializer := by
  obtain ⟨hstatic, hstaticStray⟩ := linkStatic_constructed hset hsup name initializer
  obtain ⟨hinstance, hinstanceStray⟩ :=
    linkInstancePrototype_relinked hset hclosed hsup name initializer
  have hcreate := createConstructor_unlinked name initializer r
  have hextend := extend_of_constructor hsup name initializer
  constructor
  · exact ⟨_, hextend⟩
  · intro hend hend'
    have hrun : extendByLinks (.object sup) name initializer r =
        .ok r.heap.size (r.extended sup name initializer) := by
      rw [extendByLinks, bind_ok hcreate, bind_ok (hstatic hend), bind_ok (hinstance hend')]
      rfl
    refine ⟨_, _, hextend, hrun, alike_extended r sup name initializer, ?_, ?_, ?_,
      lines_constructed r name initializer _ _, lines_extended r sup name initializer⟩
    · rw [heap_extended, heap_constructed]
    · rw [heap_constructed]
      rfl
    · rw [heap_extended]
  · rintro hstray
    rw [extendByLinks, bind_ok hcreate]
    by_cases hend : r.heap.strayEnd? (some sup) = none
    · rw [bind_ok (hstatic hend)]
      exact ⟨_, bind_error (hinstanceStray (hstray.resolve_left fun h => h hend))⟩
    · exact ⟨_, bind_error (hstaticStray hend)⟩

end Realm

end ObjectModel
