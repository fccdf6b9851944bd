import ObjectModel.Proofs.Heap.Constructs
import ObjectModel.Proofs.Realm.Searching
import ObjectModel.Proofs.Realm.Writing
import ObjectModel.Proofs.Steps.Construction
import ObjectModel.Proofs.Steps.Laws

/-!
Constructors as equations: when one is created and what there is then, whose instance is made when
one is invoked, and what it is to ask for instances.
-/

namespace ObjectModel

theorem Value.ofLink_injective {link link' : Option ObjectId}
    (h : Value.ofLink link = .ofLink link') : link = link' := by
  cases link <;> cases link' <;> cases h <;> rfl

namespace Heap

def asLink? (h : Heap) : Value → Option (Option ObjectId)
  | .none => some none
  | v => (h.object? v).map some

def asConstructor? (h : Heap) (v : Value) : Option (ObjectId × Constructor) :=
  (h.object? v).bind fun o => (h.constructor? o).map (o, ·)

def asStaticLink? (h : Heap) : Value → Option (Option ObjectId)
  | .none => some none
  | v => (h.asConstructor? v).map fun found => some found.1

variable {h : Heap} {v : Value} {link : Option ObjectId}

theorem asLink?_eq_some (hv : h.asLink? v = some link) :
    v = .ofLink link ∧ ∀ p ∈ link, p < h.size := by
  unfold asLink? at hv
  split at hv
  · cases hv
    exact ⟨rfl, nofun⟩
  · obtain ⟨o, ho, rfl⟩ := Option.map_eq_some_iff.1 hv
    obtain ⟨rfl, hlt⟩ := object?_eq_some ho
    refine ⟨rfl, ?_⟩
    rintro _ ⟨⟩
    exact hlt

theorem asLink?_ofLink (hlt : ∀ p ∈ link, p < h.size) : h.asLink? (.ofLink link) = some link := by
  cases link with
  | none => rfl
  | some p =>
    show (h.object? (.object p)).map some = some (some p)
    rw [object?_object (hlt p rfl), Option.map_some]

theorem asConstructor?_eq_some {found : ObjectId × Constructor}
    (hv : h.asConstructor? v = some found) :
    v = .object found.1 ∧ h.constructor? found.1 = some found.2 := by
  obtain ⟨o, ho, hfound⟩ := Option.bind_eq_some_iff.1 hv
  obtain ⟨c, hc, rfl⟩ := Option.map_eq_some_iff.1 hfound
  exact ⟨(object?_eq_some ho).1, hc⟩

theorem asConstructor?_object {o : ObjectId} {c : Constructor} (hc : h.constructor? o = some c) :
    h.asConstructor? (.object o) = some (o, c) := by
  rw [asConstructor?, object?_object (lt_size_of_constructor? hc), Option.bind_some, hc,
    Option.map_some]

theorem asStaticLink?_object {o : ObjectId} {c : Constructor} (hc : h.constructor? o = some c) :
    h.asStaticLink? (.object o) = some (some o) := by
  rw [asStaticLink?, asConstructor?_object hc, Option.map_some]
  rintro ⟨⟩

theorem asStaticLink?_eq_some (hv : h.asStaticLink? v = some link) :
    v = .ofLink link ∧ ∀ p ∈ link, p < h.size := by
  unfold asStaticLink? at hv
  split at hv
  · cases hv
    exact ⟨rfl, nofun⟩
  · obtain ⟨found, hfound, rfl⟩ := Option.map_eq_some_iff.1 hv
    obtain ⟨rfl, hc⟩ := asConstructor?_eq_some hfound
    refine ⟨rfl, ?_⟩
    rintro _ ⟨⟩
    exact lt_size_of_constructor? hc

end Heap

namespace Realm

variable {σ : Type} {r r' : Realm σ} {c : ObjectId}
  {name initializer staticLink prototypeParent : Value} {link parent : Option ObjectId}

def committed (r : Realm σ) (change : Change) : Realm σ :=
  { r with heap := r.heap.apply change, trace := r.trace.push (.changed change) }

theorem requirePrototype_run (v : Value) (r : Realm σ) :
    requirePrototype v r =
      match r.heap.asLink? v with
      | some link => .ok link r
      | none => .error (.model (.badPrototype (Display.value r.heap r.pool v))) r := by
  cases v with
  | object o =>
    simp only [requirePrototype, bind_run, object?_run, Heap.asLink?]
    cases r.heap.object? (.object o) <;> rfl
  | _ => rfl

theorem constructor?_run (v : Value) (r : Realm σ) :
    constructor? v r = .ok (r.heap.asConstructor? v) r := by
  simp only [constructor?, bind_run, readHeap_run, pure_run, Heap.asConstructor?]
  cases r.heap.object? v with
  | none => rfl
  | some o =>
    rw [Option.bind_eq_bind, Option.bind_some, Option.bind_some]
    cases r.heap.constructor? o <;> rfl

theorem requireConstructor_run (v : Value) (r : Realm σ) :
    requireConstructor v r =
      match r.heap.asConstructor? v with
      | some found => .ok found r
      | none => .error (.model (.notConstructor (Display.value r.heap r.pool v))) r := by
  rw [requireConstructor, bind_run, constructor?_run]
  cases r.heap.asConstructor? v <;> rfl

theorem requireStaticLink_run (v : Value) (r : Realm σ) :
    requireStaticLink v r =
      match r.heap.asStaticLink? v with
      | some link => .ok link r
      | none => .error (.model (.notConstructor (Display.value r.heap r.pool v))) r := by
  cases v with
  | object o =>
    simp only [requireStaticLink, bind_run, requireConstructor_run, Heap.asStaticLink?]
    cases r.heap.asConstructor? (.object o) <;> rfl
  | _ => rfl

theorem createObject_run (prototype : Value) (r : Realm σ) :
    createObject prototype r =
      match r.heap.asLink? prototype with
      | some link => .ok r.heap.size (r.committed (.allocate (.ofLink link) none true))
      | none => .error (.model (.badPrototype (Display.value r.heap r.pool prototype))) r := by
  rw [createObject, bind_run, requirePrototype_run]
  cases r.heap.asLink? prototype with
  | none => rfl
  | some link => exact allocate_run _ _ _ r

def defined (r : Realm σ) (o : ObjectId) (key : String) (d : Descriptor) : Realm σ :=
  { r.committed (.define o key d) with pool := r.pool.uninstall o key }

theorem define_of_lookup_eq_none (o : ObjectId) (key : String) (d : Descriptor)
    (hnew : (r.heap.table o).lookup key = none) (hroom : (r.heap.table o).extensible = true) :
    define o key d r = .ok () (r.defined o key d) := by
  have hadmitted : (r.heap.table o).refusal? r.pool.equal key d = none := by
    rw [Table.refusal?, hnew, if_pos hroom]
  rw [define_run, hadmitted]
  rfl

theorem createConstructor_of_badLink (hlink : r.heap.asStaticLink? staticLink = none) :
    createConstructor name initializer staticLink prototypeParent r =
      .error (.model (.notConstructor (Display.value r.heap r.pool staticLink))) r := by
  rw [createConstructor, bind_run, requireStaticLink_run, hlink]

def bare (r : Realm σ) (name initializer : Value) (link : Option ObjectId) : Realm σ :=
  r.committed (.allocate (.ofLink link) (some { name, initializer := initializer.toOption }) true)

theorem createConstructor_of_link (hlink : r.heap.asStaticLink? staticLink = some link) :
    createConstructor name initializer staticLink prototypeParent r =
      (do
        let prototype ← createObject prototypeParent
        define prototype "constructor" (hidden (.object r.heap.size) true true)
        define r.heap.size "prototype" (hidden (.object prototype) true false)
        define r.heap.size "name" (hidden name false true)
        log (.createdConstructor (← display (.object r.heap.size)))
        return r.heap.size) (r.bare name initializer link) := by
  rw [createConstructor, bind_run, requireStaticLink_run, hlink]
  dsimp only
  rw [bind_run, allocate_run]
  rfl

theorem createConstructor_of_badParent (hlink : r.heap.asStaticLink? staticLink = some link)
    (hparent : (r.bare name initializer link).heap.asLink? prototypeParent = none) :
    ∃ shown, createConstructor name initializer staticLink prototypeParent r =
      .error (.model (.badPrototype shown)) (r.bare name initializer link) := by
  rw [createConstructor_of_link hlink, bind_run, createObject_run, hparent]
  exact ⟨_, rfl⟩

def equipped (r : Realm σ) (constructor prototype : ObjectId) (name : Value) : Realm σ :=
  ((r.defined prototype "constructor" (hidden (.object constructor) true true)).defined
    constructor "prototype" (hidden (.object prototype) true false)).defined
    constructor "name" (hidden name false true)

theorem define_hidden_run {α : Type} {constructor prototype : ObjectId} (name : Value)
    (rest : RealmM σ α) (hne : constructor ≠ prototype) (hconstructor : constructor < r.heap.size)
    (hprototype : prototype < r.heap.size) (hempty : r.heap.table constructor = .empty)
    (hempty' : r.heap.table prototype = .empty) :
    (do
      define prototype "constructor" (hidden (.object constructor) true true)
      define constructor "prototype" (hidden (.object prototype) true false)
      define constructor "name" (hidden name false true)
      rest) r = rest (r.equipped constructor prototype name) := by
  -- each key is new to an extensible table, so none of the definitions is refused
  let r₁ := r.defined prototype "constructor" (hidden (.object constructor) true true)
  let r₂ := r₁.defined constructor "prototype" (hidden (.object prototype) true false)
  have hrun₁ : define prototype "constructor" (hidden (.object constructor) true true) r =
      .ok () r₁ :=
    define_of_lookup_eq_none _ _ _ (by rw [hempty']; rfl) (by rw [hempty']; rfl)
  have hlookup₁ (key : String) : (r₁.heap.table constructor).lookup key = none := by
    show ((r.heap.apply (.define _ _ _)).table constructor).lookup key = none
    rw [Heap.lookup_define hprototype, if_neg (not_and_of_not_left _ hne), hempty]
    rfl
  have hroom₁ : (r₁.heap.table constructor).extensible = true := by
    show ((r.heap.apply (.define _ _ _)).table constructor).extensible = true
    rw [Heap.extensible_define, hempty]
    rfl
  have hrun₂ : define constructor "prototype" (hidden (.object prototype) true false) r₁ =
      .ok () r₂ :=
    define_of_lookup_eq_none _ _ _ (hlookup₁ _) hroom₁
  have hlookup₂ : (r₂.heap.table constructor).lookup "name" = none := by
    show ((r₁.heap.apply (.define _ _ _)).table constructor).lookup "name" = none
    have hconstructor₁ : constructor < r₁.heap.size :=
      hconstructor.trans_eq (Heap.size_define _ _ _ _).symm
    rw [Heap.lookup_define hconstructor₁, if_neg (by simp), hlookup₁]
  have hroom₂ : (r₂.heap.table constructor).extensible = true := by
    show ((r₁.heap.apply (.define _ _ _)).table constructor).extensible = true
    rw [Heap.extensible_define, hroom₁]
  rw [bind_ok hrun₁, bind_ok hrun₂, bind_ok (define_of_lookup_eq_none _ _ _ hlookup₂ hroom₂)]
  rfl

def constructed (r : Realm σ) (name initializer : Value) (link parent : Option ObjectId) :
    Realm σ :=
  let r' := ((r.bare name initializer link).committed
    (.allocate (.ofLink parent) none true)).equipped r.heap.size (r.heap.size + 1) name
  r'.logged (.createdConstructor (Display.value r'.heap r'.pool (.object r.heap.size)))

theorem heap_constructed (r : Realm σ) (name initializer : Value) (link parent : Option ObjectId) :
    (r.constructed name initializer link parent).heap =
      r.heap.construct link parent { name, initializer := initializer.toOption } :=
  rfl

theorem createConstructor_of_links (hlink : r.heap.asStaticLink? staticLink = some link)
    (hparent : (r.bare name initializer link).heap.asLink? prototypeParent = some parent) :
    createConstructor name initializer staticLink prototypeParent r =
      .ok r.heap.size (r.constructed name initializer link parent) := by
  let r₁ := (r.bare name initializer link).committed (.allocate (.ofLink parent) none true)
  have hlt : r.heap.size + 1 < r₁.heap.size := by
    simp only [r₁, committed, bare, Heap.size_allocate]
    exact Nat.lt_succ_self _
  have hcreate : createObject prototypeParent (r.bare name initializer link) =
      .ok (r.heap.size + 1) r₁ := by
    rw [createObject_run, hparent]
    exact congrArg (EStateM.Result.ok · r₁) (Heap.size_allocate r.heap _ _ _)
  have hempty {o : ObjectId} (ho : r.heap.size ≤ o) : r₁.heap.table o = .empty := by
    simp only [r₁, committed, bare, Heap.table_allocate, Heap.table_of_size_le ho]
  rw [createConstructor_of_link hlink, bind_ok hcreate,
    define_hidden_run name _ (Nat.ne_of_lt (Nat.lt_succ_self r.heap.size))
      (Nat.lt_of_succ_lt hlt) hlt (hempty (Nat.le_refl _)) (hempty (Nat.le_succ _))]
  rfl

theorem createConstructor_eq_construct
    (h : createConstructor name initializer staticLink prototypeParent r = .ok c r') :
    ∃ link parent, r.heap.asStaticLink? staticLink = some link ∧
      (r.bare name initializer link).heap.asLink? prototypeParent = some parent ∧
      c = r.heap.size ∧
      r'.heap = r.heap.construct link parent { name, initializer := initializer.toOption } := by
  cases hlink : r.heap.asStaticLink? staticLink with
  | none =>
    rw [createConstructor_of_badLink hlink] at h
    cases h
  | some link =>
    cases hparent : (r.bare name initializer link).heap.asLink? prototypeParent with
    | none =>
      obtain ⟨shown, hrun⟩ := createConstructor_of_badParent hlink hparent
      rw [hrun] at h
      cases h
    | some parent =>
      rw [createConstructor_of_links hlink hparent] at h
      cases h
      exact ⟨link, parent, rfl, hparent, rfl, heap_constructed r name initializer link parent⟩

theorem createConstructor_eq_ok
    (h : createConstructor name initializer staticLink prototypeParent r = .ok c r') :
    ∃ link parent, staticLink = .ofLink link ∧ prototypeParent = .ofLink parent ∧
      r.heap.Constructs r'.heap c link parent := by
  obtain ⟨link, parent, hlink, hparent, rfl, hheap⟩ := createConstructor_eq_construct h
  obtain ⟨heq, hlt⟩ := Heap.asStaticLink?_eq_some hlink
  obtain ⟨heq', hlt'⟩ := Heap.asLink?_eq_some hparent
  refine ⟨link, parent, heq, heq', ?_⟩
  rw [hheap]
  refine Heap.constructs_construct _ hlt fun p hp => ?_
  have hlt' := hlt' p hp
  rwa [bare, committed, Heap.size_allocate] at hlt'

theorem extend_run (sup name initializer : Value) (r : Realm σ) :
    extend sup name initializer r =
      match r.heap.asConstructor? sup with
      | some (o, _) =>
        createConstructor name initializer sup (.ofLink (r.heap.constructionPrototype o)) r
      | none => .error (.model (.notConstructor (Display.value r.heap r.pool sup))) r := by
  rw [extend, bind_run, requireConstructor_run]
  cases r.heap.asConstructor? sup <;> rfl

theorem extend_of_constructor {sup : ObjectId} {k : Constructor}
    (hsup : r.heap.constructor? sup = some k) (name initializer : Value) :
    extend (.object sup) name initializer r = .ok r.heap.size
      (r.constructed name initializer (some sup) (r.heap.constructionPrototype sup)) := by
  have hparent : (r.bare name initializer (some sup)).heap.asLink?
      (.ofLink (r.heap.constructionPrototype sup)) = some (r.heap.constructionPrototype sup) := by
    apply Heap.asLink?_ofLink
    intro p hp
    rw [bare, committed, Heap.size_allocate]
    exact Nat.lt_succ_of_lt (Heap.constructionPrototype_lt hp)
  rw [extend_run, Heap.asConstructor?_object hsup]
  exact createConstructor_of_links (Heap.asStaticLink?_object hsup) hparent

theorem extend_eq_construct {sup : Value} (h : extend sup name initializer r = .ok c r') :
    ∃ link parent, r.heap.asStaticLink? sup = some link ∧ c = r.heap.size ∧
      r'.heap = r.heap.construct link parent { name, initializer := initializer.toOption } := by
  rw [extend_run] at h
  cases hsup : r.heap.asConstructor? sup with
  | none =>
    rw [hsup] at h
    cases h
  | some found =>
    rw [hsup] at h
    obtain ⟨link, parent, hlink, -, hc, hheap⟩ := createConstructor_eq_construct h
    exact ⟨link, parent, hlink, hc, hheap⟩

theorem extend_eq_ok {o : ObjectId} (h : extend (.object o) name initializer r = .ok c r') :
    r.heap.Constructs r'.heap c (some o) (r.heap.constructionPrototype o) := by
  rw [extend_run] at h
  cases hc : r.heap.asConstructor? (.object o) with
  | none =>
    rw [hc] at h
    cases h
  | some found =>
    rw [hc] at h
    obtain ⟨heq, -⟩ := Heap.asConstructor?_eq_some hc
    cases heq
    obtain ⟨link, parent, hlink, hparent, hmade⟩ := createConstructor_eq_ok h
    rw [Value.ofLink_injective (show Value.ofLink (some found.1) = .ofLink link from hlink),
      Value.ofLink_injective hparent]
    exact hmade

theorem invoke_run (call : Caller σ) (constructor : Value) (args : List Value) (r : Realm σ) :
    invoke call constructor args r =
      match r.heap.asConstructor? constructor with
      | some (o, c) =>
        (do
          runInitializer call c (.object r.heap.size) args
          log (.invoked (← display constructor))
          return r.heap.size)
          (r.committed (.allocate (.ofLink (r.heap.constructionPrototype o)) none true))
      | none => .error (.model (.notConstructor (Display.value r.heap r.pool constructor))) r := by
  rw [invoke, bind_run, requireConstructor_run]
  cases r.heap.asConstructor? constructor with
  | none => rfl
  | some found =>
    dsimp only
    rw [bind_run, readHeap_run]
    dsimp only
    rw [bind_run, allocate_run]
    rfl

theorem invoke_eq_ok {aware : Prop} {call : Caller σ} (hcall : ComposedCaller aware call)
    {o x : ObjectId} {args : List Value} (h : invoke call (.object o) args r = .ok x r') :
    x = r.heap.size ∧
      (r.committed
        (.allocate (.ofLink (r.heap.constructionPrototype o)) none true)).Follows r' := by
  rw [invoke_run] at h
  cases hc : r.heap.asConstructor? (.object o) with
  | none =>
    rw [hc] at h
    cases h
  | some found =>
    rw [hc] at h
    obtain ⟨heq, hfound⟩ := Heap.asConstructor?_eq_some hc
    cases heq
    dsimp only at h
    -- the record is allocated and linked before the initializer can change anything
    have hsteps : Steps { call, aware } Plain (do
        runInitializer call found.2 (.object r.heap.size) args
        log (.invoked (← display (.object found.1)))
        return r.heap.size)
        (r.committed (.allocate (.ofLink (r.heap.constructionPrototype found.1)) none true)) := by
      refine .bind (steps_runInitializer (Heap.constructor?_apply hfound _) nofun) fun _ _ _ _ => ?_
      refine .after (reads_display _) fun _ _ => .bind (.log rfl) fun _ _ _ _ => ?_
      exact .pure fun _ => trivial
    have hfollows := hsteps.follows id hcall
    rw [h] at hfollows
    refine ⟨?_, hfollows⟩
    obtain ⟨_, r₂, -, h⟩ := bind_eq_ok h
    obtain ⟨_, r₃, -, h⟩ := bind_eq_ok h
    obtain ⟨_, r₄, -, h⟩ := bind_eq_ok h
    cases h
    rfl

theorem searches_instanceOf (hset : r.heap.Settled) {o x p : ObjectId} {k : Constructor}
    (hk : r.heap.constructor? o = some k) (hp : r.heap.constructionPrototype o = some p)
    (hx : x < r.heap.size) :
    r.Searches x (instanceOf (.object x) (.object o)) (p ∈ (r.heap.chain (some x)).tail) := by
  have hrun : instanceOf (.object x) (.object o) r = isAbove (.object p) x r := by
    rw [instanceOf, bind_run, requireConstructor_run, Heap.asConstructor?_object hk]
    dsimp only
    rw [bind_run, object?_run, Heap.object?_object hx]
    dsimp only
    rw [bind_run, readHeap_run]
    dsimp only
    rw [hp]
  obtain ⟨hfound, hmissed⟩ := searches_isAbove hset hx (Heap.constructionPrototype_lt hp)
  exact ⟨fun h => hrun.trans (hfound h), fun h => hrun.trans (hmissed h)⟩

end Realm

end ObjectModel
