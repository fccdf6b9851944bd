import ObjectModel.Proofs.Heap.Holding
import ObjectModel.Proofs.Steps.Access
import ObjectModel.Proofs.Steps.Links
import ObjectModel.Realm.Construction

/-!
Constructors and their instances.
-/

namespace ObjectModel.Realm

variable {σ : Type} {T : Terms σ} {r r' : Realm σ}

theorem within_hidden {n : Nat} {v : Value} (hv : v.Within n) (writable configurable : Bool) :
    (hidden v writable configurable).Within n :=
  Descriptor.within_value.2 ⟨hv, trivial, trivial, trivial⟩

theorem reads_requireStaticLink (v : Value) : Reads T (requireStaticLink v) r := by
  unfold requireStaticLink
  split
  · exact .pure _
  · exact .map (reads_requireConstructor _)

theorem requireStaticLink_eq_ok {v : Value} {link : Option ObjectId}
    (h : requireStaticLink v r = .ok link r') : ∀ p ∈ link, p < r.heap.size := by
  unfold requireStaticLink at h
  split at h
  · cases h
    exact nofun
  · obtain ⟨found, r₁, hc, hlink⟩ := bind_eq_ok h
    obtain ⟨-, ho, -⟩ := requireConstructor_eq_ok hc
    cases hlink
    rintro p ⟨⟩
    exact (Heap.object?_eq_some ho).2

theorem createObject_eq_ok {prototype : Value} {o : ObjectId}
    (h : createObject prototype r = .ok o r') :
    o = r.heap.size ∧ r'.heap.size = r.heap.size + 1 := by
  obtain ⟨link, r₁, hlink, hrun⟩ := bind_eq_ok h
  obtain ⟨rfl, -⟩ := requirePrototype_eq_ok hlink
  rw [allocate_run] at hrun
  cases hrun
  exact ⟨rfl, Heap.size_allocate ..⟩

theorem steps_createConstructor {name initializer : Value} (staticLink prototypeParent : Value)
    (h : T.Furnishes r.heap.size)
    (hin : T.closed → name.Within r.heap.size ∧ initializer.Within r.heap.size) :
    Steps T Known (createConstructor name initializer staticLink prototypeParent) r := by
  unfold createConstructor
  refine .after (reads_requireStaticLink _) fun link hlink => ?_
  have hlt := requireStaticLink_eq_ok hlink
  refine .bind (steps_allocate (fun _ => Heap.object?_ofLink hlt) fun hT => ?_)
    fun constructor r₁ hrun₁ h₁ => ?_
  · refine ⟨Value.within_ofLink hlt, ?_⟩
    rintro _ ⟨⟩
    exact ⟨(hin hT).1, Value.within_of_toOption (hin hT).2⟩
  rw [allocate_run] at hrun₁
  refine .bind (steps_createObject _) fun prototype r₂ hrun₂ h₂ => ?_
  have hconstructor : r.heap.size ≤ constructor := by
    cases hrun₁
    exact Nat.le_refl _
  have hprototype : r.heap.size ≤ prototype := by
    rw [(createObject_eq_ok hrun₂).1]
    cases hrun₁
    exact Heap.size_le_after r.heap (.changed _)
  refine .bind (steps_define (h _ hprototype _ _) fun hT => ?_) fun _ r₃ _ h₃ => ?_
  · refine within_hidden ?_ _ _
    exact Nat.lt_of_lt_of_le (h₁ hT).2 (h₂ hT).1
  refine .bind (steps_define (h _ hconstructor _ _) fun hT => ?_) fun _ r₄ _ h₄ => ?_
  · refine within_hidden ?_ _ _
    exact Nat.lt_of_lt_of_le (h₂ hT).2 (h₃ hT).1
  refine .bind (steps_define (h _ hconstructor _ _) fun hT => ?_) fun _ r₅ _ h₅ => ?_
  · have hsize : r.heap.size ≤ r₄.heap.size :=
      Nat.le_trans (h₁ hT).1 (Nat.le_trans (h₂ hT).1 (Nat.le_trans (h₃ hT).1 (h₄ hT).1))
    exact within_hidden ((hin hT).1.mono hsize) _ _
  refine .after (reads_display _) fun shown _ => .bind (.log rfl) fun _ r₆ _ h₆ => ?_
  refine .pure fun hT => Nat.lt_of_lt_of_le (h₁ hT).2 ?_
  exact Nat.le_trans (h₂ hT).1 (Nat.le_trans (h₃ hT).1
    (Nat.le_trans (h₄ hT).1 (Nat.le_trans (h₅ hT).1 (h₆ hT).1)))

theorem steps_bareConstructor {name initializer link : Value}
    (hin : T.closed → name.Within r.heap.size ∧ initializer.Within r.heap.size ∧
      link.Within r.heap.size) :
    Steps T Known (bareConstructor name initializer link) r := by
  refine steps_allocate nofun fun hT => ⟨(hin hT).2.2, ?_⟩
  rintro _ ⟨⟩
  exact ⟨(hin hT).1, Value.within_of_toOption (hin hT).2.1⟩

theorem steps_extend {name initializer : Value} (sup : Value)
    (h : T.Furnishes r.heap.size)
    (hin : T.closed → name.Within r.heap.size ∧ initializer.Within r.heap.size) :
    Steps T Known (extend sup name initializer) r := by
  unfold extend
  refine .after (reads_requireConstructor _) fun found _ => .after reads_readHeap fun h' _ => ?_
  exact steps_createConstructor _ _ h hin

theorem steps_linkStatic (hrelinks : T.Relinks) (sub sup : Value) :
    Steps T Plain (linkStatic sub sup) r := by
  unfold linkStatic
  refine .after (reads_requireConstructor _) fun found hfound => ?_
  refine .after (reads_requireStaticLink _) fun link hlink => ?_
  exact steps_relink hrelinks (Heap.object?_eq_some (requireConstructor_eq_ok hfound).2.1).2
    (requireStaticLink_eq_ok hlink)

theorem steps_linkInstancePrototype (hrelinks : T.Relinks) (sub sup : Value) :
    Steps T Plain (linkInstancePrototype sub sup) r := by
  unfold linkInstancePrototype
  refine .after (reads_requireConstructor _) fun found _ => .after reads_readHeap fun h hrun => ?_
  cases hrun
  split
  · exact (reads_refusal _ .noConstructionPrototype).steps
  · next prototype hp =>
    refine .after (reads_requireConstructor _) fun found' _ => ?_
    refine .after reads_readHeap fun h hrun => ?_
    cases hrun
    exact steps_relink hrelinks (Heap.constructionPrototype_lt hp) fun _ =>
      Heap.constructionPrototype_lt

theorem reads_instanceOf (obj constructor : Value) : Reads T (instanceOf obj constructor) r := by
  unfold instanceOf
  refine .bind (reads_requireConstructor _) fun found _ => .bind (reads_object? _) fun o? _ => ?_
  split
  · exact .pure _
  · refine .bind reads_readHeap fun h _ => ?_
    split
    · exact reads_refusal _ .noInstances
    · exact reads_isAbove _ _

theorem steps_runInitializer {o : ObjectId} {c : Constructor}
    (hc : r.heap.constructor? o = some c) {this : Value} {args : List Value}
    (hin : T.closed → this.Within r.heap.size ∧ ∀ v ∈ args, v.Within r.heap.size) :
    Steps T Plain (runInitializer T.call c this args) r := by
  unfold runInitializer
  split
  · next hinitializer =>
    exact .map (steps_callValue (.initializer hc hinitializer) hin) fun _ _ _ => trivial
  · exact .pure fun _ => trivial

theorem steps_runInitializerOf (h : T.fails .notRecord) (constructor : Value) {this : Value}
    {args : List Value}
    (hin : T.closed → this.Within r.heap.size ∧ ∀ v ∈ args, v.Within r.heap.size) :
    Steps T Plain (runInitializerOf T.call constructor this args) r := by
  unfold runInitializerOf
  refine .after (reads_constructor? _) fun found hfound => ?_
  cases hfound
  split
  · next hfound =>
    obtain ⟨o, -, hrest⟩ := Option.bind_eq_some_iff.1 hfound
    obtain ⟨c, hc, heq⟩ := Option.bind_eq_some_iff.1 hrest
    cases heq
    exact steps_runInitializer hc hin
  · exact .throw h _

theorem steps_invoke (constructor : Value) {args : List Value}
    (hargs : T.closed → ∀ v ∈ args, v.Within r.heap.size) :
    Steps T Known (invoke T.call constructor args) r := by
  unfold invoke
  refine .after (reads_requireConstructor _) fun found hfound => ?_
  obtain ⟨-, -, hc⟩ := requireConstructor_eq_ok hfound
  refine .after reads_readHeap fun h hrun => ?_
  cases hrun
  have hlt : ∀ p ∈ r.heap.constructionPrototype found.1, p < r.heap.size := fun _ =>
    Heap.constructionPrototype_lt
  refine .bind (steps_allocate (fun _ => Heap.object?_ofLink hlt)
    fun _ => ⟨Value.within_ofLink hlt, fun _ h => nomatch h⟩) fun created r₁ hrun₁ h₁ => ?_
  have hc₁ : r₁.heap.constructor? found.1 = some found.2 := by
    rw [allocate_run] at hrun₁
    cases hrun₁
    exact Heap.constructor?_apply hc _
  refine .bind (steps_runInitializer hc₁ fun hT => ?_) fun _ r₂ _ h₂ => ?_
  · exact ⟨(h₁ hT).2, fun v hv => (hargs hT v hv).mono (h₁ hT).1⟩
  refine .after (reads_display _) fun _ _ => .bind (.log rfl) fun _ r₃ _ h₃ => ?_
  exact .pure fun hT =>
    Nat.lt_of_lt_of_le (h₁ hT).2 (Nat.le_trans (h₂ hT).1 (h₃ hT).1)

end ObjectModel.Realm
