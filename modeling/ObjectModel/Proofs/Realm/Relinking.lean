import ObjectModel.Proofs.Heap.Relinks
import ObjectModel.Proofs.Realm.Assigning

/-!
Which operations change links, and how a constructor gives its instances theirs: by its `prototype`
property alone, and once.
-/

namespace ObjectModel

namespace Heap

variable {h : Heap} {c : ObjectId}

def StaticallyLinked (h : Heap) (c : ObjectId) : Prop :=
  h.link c = .none ∨ ∃ q, h.link c = .object q ∧ (h.constructor? q).isSome = true

theorem constructor?_of_asStaticLink? {v : Value} {q : ObjectId}
    (hv : h.asStaticLink? v = some (some q)) : (h.constructor? q).isSome = true := by
  unfold asStaticLink? at hv
  split at hv
  · cases hv
  · obtain ⟨found, hfound, heq⟩ := Option.map_eq_some_iff.1 hv
    cases heq
    rw [(asConstructor?_eq_some hfound).2]
    rfl

theorem StaticallyLinked.relink (hstatic : h.StaticallyLinked c) {v : Value}
    {link : Option ObjectId} (hv : h.asStaticLink? v = some link) (o : ObjectId) :
    (h.apply (.relink o link)).StaticallyLinked c := by
  simp only [StaticallyLinked, link_relink, constructor?_relink]
  split
  · cases link with
    | none => exact .inl rfl
    | some q => exact .inr ⟨q, rfl, constructor?_of_asStaticLink? hv⟩
  · exact hstatic

end Heap

inductive Operation.Edits (h : Heap) : Operation Value → Prop
  | set {obj key : Value} (value : Value) (receiver : Option Value)
    (hset : ∀ k, key.key? = some k → h.setter? (h.object? obj) k = none) :
    Edits h (.set obj key value receiver)
  | delete (obj key : Value) : Edits h (.delete obj key)
  | defineOwn (obj key descriptor : Value) : Edits h (.defineOwn obj key descriptor)
  | deleteOwn (obj key : Value) : Edits h (.deleteOwn obj key)

namespace Realm

variable {σ : Type} {call : Caller σ} {op : Operation Value} {r : Realm σ} {c : ObjectId}
  {k : Constructor} {v : Value}

structure KeepsLinks (r r' : Realm σ) : Prop where
  size_le : r.heap.size ≤ r'.heap.size
  link_eq : ∀ x < r.heap.size, r'.heap.link x = r.heap.link x

theorem KeepsLinks.of_eq {r' : Realm σ} (hheap : r'.heap = r.heap) : r.KeepsLinks r' := by
  constructor
  · rw [hheap]
  · intro x _
    rw [hheap]

theorem KeepsLinks.trans {r' r'' : Realm σ} (first : r.KeepsLinks r')
    (second : r'.KeepsLinks r'') : r.KeepsLinks r'' := by
  refine ⟨Nat.le_trans first.size_le second.size_le, fun x hx => ?_⟩
  rw [second.link_eq x (Nat.lt_of_lt_of_le hx first.size_le), first.link_eq x hx]

theorem KeepsLinks.emit (r : Realm σ) {event : Event} (hevent : ¬ event.Relinks) :
    r.KeepsLinks { r with heap := r.heap.after event, trace := r.trace.push event } := by
  refine ⟨Heap.size_le_after _ _, fun x hx => ?_⟩
  rw [Heap.link_after_eq hx, Event.linkFor?_of_not_relinks hevent]
  rfl

theorem keepsLinks_of_not_relinks (hop : op.relinks = false) (hcalls : CallsNone call op r) :
    r.KeepsLinks (ending (perform call op r)) := by
  let T : Terms σ := { call := barred, permits := (¬ ·.Relinks) }
  have hallow : T.Allow op r.heap.size :=
    { aware := .inl trivial
      fails := fun _ _ => trivial
      mints := .inl trivial
      relinks := fun h => by cases hop.symm.trans h
      removes := fun _ => fun _ => Event.Removes.not_relinks
      writes := fun _ => fun _ => Event.Writes.not_relinks
      furnishes := fun _ _ _ _ => id }
  have hsteps : Steps T Value.Within (perform barred op) r := steps_perform hallow nofun
  rw [hcalls]
  apply hsteps.relOfEvents id
  · exact fun _ => .of_eq rfl
  · exact KeepsLinks.trans
  · exact fun _ _ => .of_eq rfl
  · exact fun _ => .of_eq rfl
  · exact fun _ _ => .of_eq rfl
  · intro r event _ hpermitted
    refine .emit r ?_
    by_cases hquiet : event.Quiet
    · exact hquiet.not_relinks
    · exact hpermitted hquiet
  · exact fun _ _ _ _ => .of_eq rfl

theorem assign_eq_of_setter?_eq_none {obj key : Value}
    (hset : ∀ k, key.key? = some k → r.heap.setter? (r.heap.object? obj) k = none)
    (call call' : Caller σ) (value receiver : Value) :
    assign call obj key value receiver r = assign call' obj key value receiver r := by
  simp only [assign, bind_run, requireObject_run, requireKey_run]
  cases hobj : r.heap.object? obj with
  | none => rfl
  | some o =>
    cases hkey : key.key? with
    | none => rfl
    | some k =>
      have hset := hset k hkey
      rw [hobj, Heap.setter?] at hset
      dsimp only
      rw [write_run, write_run]
      split
      · rfl
      · next hfound =>
        rw [hfound] at hset
        cases hset
      · rfl
      · rfl

theorem keepsLinks_of_edits (hop : op.Edits r.heap) (call : Caller σ) :
    r.KeepsLinks (ending (perform call op r)) := by
  apply keepsLinks_of_not_relinks
  · cases hop <;> rfl
  · cases hop with
    | set value receiver hset =>
      simp only [CallsNone, perform, setByPolicy, bind_run,
        assign_eq_of_setter?_eq_none hset call barred]
    | delete | defineOwn | deleteOwn => rfl

/--
The constructor has a value under `prototype`, for good and out of sight, and what is read there is
what its instances are linked to, if it is a record. An instance has its link before anything else
is done with it, and no setter stands in the way of another value.
-/
structure Sources (r : Realm σ) (c : ObjectId) (k : Constructor) (v : Value) : Prop where
  lookup : ∃ writable enumerable configurable,
    (r.heap.table c).lookup "prototype" =
      some { slot := .value v writable, enumerable, configurable } ∧
    enumerable.holds = false ∧ configurable.holds = false
  read : ∀ (call : Caller σ) receiver,
    perform call (.get (.object c) (.str "prototype") receiver) r = .ok v r
  constructionPrototype : r.heap.constructionPrototype c = r.heap.object? v
  linked : (r.committed (.allocate (.ofLink (r.heap.object? v)) none true)).heap.link
    r.heap.size = .ofLink (r.heap.object? v)
  invoke : ∀ call args, perform call (.invoke (.object c) args) r =
    (do
      runInitializer call k (.object r.heap.size) args
      log (.invoked (← display (.object c)))
      return Value.object r.heap.size)
      (r.committed (.allocate (.ofLink (r.heap.object? v)) none true))
  assign : ∀ value receiver,
    (Operation.set (.object c) (.str "prototype") value receiver).Edits r.heap

theorem perform_invoke (hk : r.heap.constructor? c = some k) (call : Caller σ)
    (args : List Value) :
    perform call (.invoke (.object c) args) r =
      (do
        runInitializer call k (.object r.heap.size) args
        log (.invoked (← display (.object c)))
        return Value.object r.heap.size)
        (r.committed (.allocate (.ofLink (r.heap.constructionPrototype c)) none true)) := by
  rw [perform, bind_run, invoke_run, Heap.asConstructor?_object hk]
  dsimp only
  rw [← bind_run]
  simp only [bind_assoc, pure_bind]

theorem sources_of_lookup (hk : r.heap.constructor? c = some k)
    {writable enumerable configurable : Flag}
    (hd : (r.heap.table c).lookup "prototype" =
      some { slot := .value v writable, enumerable, configurable })
    (he : enumerable.holds = false) (hc : configurable.holds = false) : r.Sources c k v := by
  have hlt : c < r.heap.size := Heap.lt_size_of_constructor? hk
  have hprototype : r.heap.constructionPrototype c = r.heap.object? v := by
    rw [Heap.constructionPrototype, hd]
  constructor
  · exact ⟨writable, enumerable, configurable, hd, he, hc⟩
  · exact fun call receiver => getProperty_of_holds hlt rfl hd rfl _
  · exact hprototype
  · rw [committed, Heap.link_allocate, if_pos rfl]
  · intro call args
    rw [perform_invoke hk, hprototype]
  · refine fun value receiver => .set value receiver ?_
    rintro _ ⟨⟩
    rw [Heap.object?_object hlt, Heap.setter?, Heap.findProperty_of_lookup hlt hd]

theorem heap_relink (o : ObjectId) (prototype : Option ObjectId) (r : Realm σ) :
    (ending (relink o prototype r)).heap = r.heap ∨
      (ending (relink o prototype r)).heap = r.heap.apply (.relink o prototype) := by
  simp only [relink, bind_run, readHeap_run]
  split
  · exact .inl rfl
  · split
    · exact .inl rfl
    · simp only [display, bind_run, get_run, pure_run]
      split
      · exact .inl rfl
      · rw [bind_run, requireEnd_run]
        cases r.heap.strayEnd? prototype with
        | some _ => exact .inl rfl
        | none => exact .inr rfl

theorem staticallyLinked_linkStatic (hstatic : r.heap.StaticallyLinked c) (sub sup : Value) :
    (ending (linkStatic sub sup r)).heap.StaticallyLinked c := by
  rw [linkStatic, bind_run, requireConstructor_run]
  cases r.heap.asConstructor? sub with
  | none => exact hstatic
  | some found =>
    dsimp only
    rw [bind_run, requireStaticLink_run]
    cases hlink : r.heap.asStaticLink? sup with
    | none => exact hstatic
    | some link =>
      obtain hheap | hheap := heap_relink found.1 link r
      · rw [hheap]
        exact hstatic
      · rw [hheap]
        exact hstatic.relink hlink found.1

theorem staticallyLinked_perform (hc : c < r.heap.size) (hstatic : r.heap.StaticallyLinked c)
    (hop : op.relinks = false ∨ ∃ sub sup, op = .linkStatic sub sup)
    (hcalls : CallsNone call op r) :
    (ending (perform call op r)).heap.StaticallyLinked c := by
  obtain hop | ⟨sub, sup, rfl⟩ := hop
  · have hkeeps := keepsLinks_of_not_relinks hop hcalls
    have hsteps : Steps { call := barred } Value.Within (perform barred op) r :=
      steps_perform (Terms.allow (.inl trivial) (fun _ _ => trivial) (.inl trivial) _) nofun
    obtain ⟨events, -, hheap, hadmits⟩ := hsteps.follows id composedCaller_barred
    rw [← hcalls] at hheap
    refine (hstatic.imp (hkeeps.link_eq c hc).trans ?_)
    rintro ⟨q, hq, hconstructor⟩
    obtain ⟨k, hk⟩ := Option.isSome_iff_exists.1 hconstructor
    refine ⟨q, (hkeeps.link_eq c hc).trans hq, ?_⟩
    rw [hheap, hadmits.constructor?_eq hk]
    rfl
  · have hlinked := staticallyLinked_linkStatic hstatic sub sup
    rw [perform, bind_run]
    cases hrun : linkStatic sub sup r with
    | ok _ r' =>
      rw [hrun] at hlinked
      exact hlinked
    | error failure r' =>
      rw [hrun] at hlinked
      exact hlinked

end Realm

end ObjectModel
