import ObjectModel.Proofs.Heap.Constructs
import ObjectModel.Proofs.Operation
import ObjectModel.Proofs.Steps.Conversion
import ObjectModel.Realm.Perform

/-!
Reports, and the operations as a whole.
-/

namespace ObjectModel.Realm

variable {σ : Type} {T : Terms σ} {r : Realm σ}

theorem reads_plain (v : Value) : Reads T (plain v) r := by
  unfold plain
  split
  · exact .pure _
  · exact reads_display _

theorem reads_messageOf (v : Value) : Reads T (messageOf v) r := by
  unfold messageOf
  refine .bind (reads_truthy _) fun given _ => ?_
  split
  · exact reads_plain _
  · exact .pure _

theorem reads_kindOf (h : T.fails .notRecord) (v : Value) : Reads T (kindOf v) r := by
  unfold kindOf
  split
  · split
    · exact .pure _
    · exact .throw h
  · exact .throw h

theorem reads_flag (v? : Option Value) : Reads T (flag v?) r := by
  cases v? with
  | none => exact .pure _
  | some v => exact reads_truthy _

theorem reads_assumeKey (h : T.fails .notRecord) (v : Value) : Reads T (assumeKey v) r := by
  unfold assumeKey
  split
  · exact .pure _
  · exact .throw h

theorem reads_optionMapM {α β : Type} {f : α → RealmM σ β} (hf : ∀ a, Reads T (f a) r)
    (item : Option α) : Reads T (item.mapM f) r := by
  cases item with
  | none => exact .pure _
  | some a => exact .map (hf a)

theorem steps_raise (h : ∀ failure, T.fails failure) (kind : Value) (message : Option Value) :
    Steps T Value.Within (raise kind message) r := by
  unfold raise
  split
  · exact .after (reads_optionMapM reads_plain _) fun _ _ => .throw (h _) _
  · refine .after (reads_kindOf (h _) _) fun kind _ => ?_
    exact .after (reads_optionMapM reads_messageOf _) fun _ _ => .fail _ _

theorem assumeLink_eq_ok {v : Value} {start : Option ObjectId} {r' : Realm σ}
    (h : assumeLink v r = .ok start r') : ∀ p ∈ start, p < r.heap.size := by
  unfold assumeLink at h
  split at h
  · cases h
    exact nofun
  · obtain ⟨o, r₁, ho, hstart⟩ := bind_eq_ok h
    cases hstart
    rintro _ ⟨⟩
    exact (Heap.object?_eq_some (assumeObject_eq_ok ho).2).2

section Reports

variable (hmints : T.mints)
include hmints

theorem steps_describeRealm (h : T.aware) : Steps T Value.Within describeRealm r := by
  refine .inClosed fun hclosed => .inspect (steps_newList hmints fun hT => ?_) (.inl h)
  simp only [List.forall_mem_cons, List.not_mem_nil, false_implies, implies_true, and_true]
  exact ⟨(hclosed hT).strict, trivial, trivial⟩

theorem steps_describeConstructor (h : T.fails .notRecord) (constructor : Value) :
    Steps T Value.Within (describeConstructor constructor) r := by
  refine .inClosed fun hclosed => ?_
  unfold describeConstructor
  refine .after (reads_constructor? _) fun found hfound => ?_
  cases hfound
  split
  · exact .throw h _
  · next o c hfound =>
    obtain ⟨_, -, hrest⟩ := Option.bind_eq_some_iff.1 hfound
    obtain ⟨_, hc, heq⟩ := Option.bind_eq_some_iff.1 hrest
    cases heq
    refine .after reads_readHeap fun _ hrun => ?_
    cases hrun
    refine steps_newList hmints fun hT => ?_
    have hconstructor := (hclosed hT).heap.constructor? hc
    simp only [List.forall_mem_cons, List.not_mem_nil, false_implies, implies_true, and_true]
    exact ⟨hconstructor.name, (hclosed hT).heap.link o,
      Value.within_ofLink fun _ => Heap.constructionPrototype_lt,
      Value.within_ofOption hconstructor.initializer⟩

theorem steps_describeChain (h : T.fails .notRecord) (obj : Value) :
    Steps T Value.Within (describeChain obj) r := by
  refine .inClosed fun hclosed => ?_
  unfold describeChain
  refine .after (reads_assumeLink h _) fun start hstart => ?_
  refine .after (reads_requireEnd _) fun _ _ => .after reads_readHeap fun _ hrun => ?_
  cases hrun
  refine steps_newList hmints fun hT v hv => ?_
  obtain ⟨o, ho, rfl⟩ := List.mem_map.1 hv
  exact (hclosed hT).heap.lt_size_of_mem_chain (assumeLink_eq_ok hstart) ho

theorem steps_describeProperty (h : T.fails .notRecord) (obj : Value) (key : String) :
    Steps T Value.Within (describeProperty obj key) r := by
  unfold describeProperty
  refine .after (reads_assumeLink h _) fun start _ => .after (reads_find _ _) fun found hfind => ?_
  split
  · have hd := Heap.lookup_of_findProperty (find_eq_ok_some hfind).2
    refine .bind (steps_describe hmints hd) fun _ r₁ _ h₁ => steps_newList hmints fun hT => ?_
    exact List.forall_mem_cons.2 ⟨Nat.lt_of_lt_of_le (Heap.lt_size_of_lookup hd) (h₁ hT).1,
      List.forall_mem_singleton.2 (h₁ hT).2⟩
  · refine steps_newList hmints fun _ => ?_
    simp [Value.Within]

theorem steps_describeTable (o : ObjectId) : Steps T Value.Within (describeTable o) r := by
  unfold describeTable
  refine .inspect' ?_ fun _ => rfl
  refine .bind (steps_newKeyList hmints _) fun keys r₁ _ h₁ => ?_
  refine .bind (steps_newKeyList hmints _) fun keys' r₂ _ h₂ => ?_
  refine .bind (steps_newKeyList hmints _) fun keys'' r₃ _ h₃ => steps_newList hmints fun hT => ?_
  have hkeys := (h₁ hT).2.mono (Nat.le_trans (h₂ hT).1 (h₃ hT).1)
  have hkeys' := (h₂ hT).2.mono (h₃ hT).1
  simp only [List.forall_mem_cons, List.not_mem_nil, false_implies, implies_true, and_true]
  exact ⟨trivial, hkeys, hkeys', (h₃ hT).2, trivial, trivial⟩

theorem steps_dump (obj : Value) : Steps T Value.Within (dump obj) r := by
  refine .inClosed fun hclosed => ?_
  unfold dump
  refine .after (reads_requireObject _ _) fun o _ => .after reads_readHeap fun h hrun => ?_
  cases hrun
  refine .bind (.mapM (Q := Value.Within) Value.Within.mono fun key _ r₁ _ => ?_)
    fun properties r₁ _ h₁ => ?_
  · refine .bind (steps_lookup hmints _ _) fun v r₂ _ h₂ => steps_newList hmints fun hT => ?_
    exact List.forall_mem_cons.2 ⟨trivial, List.forall_mem_singleton.2 (h₂ hT).2⟩
  · refine .bind (steps_newList hmints fun hT => (h₁ hT).2) fun _ r₂ _ h₂ => ?_
    refine steps_newList hmints fun hT => List.forall_mem_cons.2 ⟨?_, List.forall_mem_cons.2
      ⟨trivial, List.forall_mem_singleton.2 (h₂ hT).2⟩⟩
    exact ((hclosed hT).heap.link o).mono (Nat.le_trans (h₁ hT).1 (h₂ hT).1)

theorem steps_describeError (h : T.fails .badOperands) (kind : ErrorKind)
    {message name : Option Value}
    (hin : T.closed → (∀ v ∈ message, v.Within r.heap.size) ∧ ∀ v ∈ name, v.Within r.heap.size) :
    Steps T Value.Within (describeError kind message name) r := by
  unfold describeError
  dsimp only
  split
  · exact .bind (P := Plain) (.throw h _) fun _ _ h _ => nomatch h
  · refine .after (reads_plain _) fun shown _ => .after (reads_messageOf _) fun _ _ => ?_
    refine steps_newList hmints fun hT => ?_
    have hdefault {v? : Option Value} (text : String) (h : ∀ v ∈ v?, v.Within r.heap.size) :
        (v?.getD (.str text)).Within r.heap.size := by
      cases v? with
      | none => trivial
      | some v => exact h v rfl
    simp only [List.forall_mem_cons, List.not_mem_nil, false_implies, implies_true, and_true]
    exact ⟨trivial, hdefault _ (hin hT).2, hdefault _ (hin hT).1, trivial, trivial⟩

end Reports

/-- What the operation does it may do on these terms, where there are `n` records before. -/
structure Terms.Allow (T : Terms σ) (op : Operation Value) (n : Nat) : Prop where
  aware : T.aware ∨ op.neutral
  fails : ∀ failure, op.FailsBeyond failure → T.fails failure
  mints : T.mints ∨ op.Allocates
  relinks : op.relinks = true → T.Relinks
  removes : op.removes = true → T.Removes
  writes : op.writes = true → T.Writes
  furnishes : T.Furnishes n

theorem Terms.allow {call : Caller σ} {aware mints closed : Prop} {fails : Failure → Prop}
    {kept : Nat → σ → Prop} {op : Operation Value} (haware : aware ∨ op.neutral)
    (hfails : ∀ failure, op.FailsBeyond failure → fails failure) (hmints : mints ∨ op.Allocates)
    (n : Nat) : Terms.Allow { call, aware, fails, mints, closed, kept } op n where
  aware := haware
  fails := hfails
  mints := hmints
  relinks _ _ _ := trivial
  removes _ _ _ := trivial
  writes _ _ _ := trivial
  furnishes _ _ _ _ := trivial

theorem within_add? {n : Nat} {a b sum : Value} (h : a.add? b = some sum) : sum.Within n := by
  unfold Value.add? at h
  split at h <;> cases h <;> trivial

theorem steps_object {m : RealmM σ ObjectId} (hm : Steps T Known m r) :
    Steps T Value.Within (m >>= fun o => pure (.object o)) r :=
  .map hm fun _ _ h => h

/-- On terms that allow an operation it consists of steps. -/
theorem steps_perform {op : Operation Value} (h : T.Allow op r.heap.size)
    (hin : T.closed → ∀ v ∈ op.operands, v.Within r.heap.size) :
    Steps T Value.Within (perform T.call op) r := by
  have hoption {v? : Option Value} (h : ∀ v ∈ v?.toList, v.Within r.heap.size) :
      (Value.ofOption v?).Within r.heap.size :=
    Value.within_ofOption fun v hv => h v (Option.mem_toList.2 hv)
  have hname {v? : Option Value} (h : ∀ v ∈ v?.toList, v.Within r.heap.size) :
      (v?.getD (.str "")).Within r.heap.size := by
    cases v? with
    | none => trivial
    | some v => exact h v (Option.mem_toList.2 rfl)
  have hmints (hop : ¬ op.Allocates) : T.mints := h.mints.resolve_right hop
  cases op <;> simp only [Operation.operands, List.cons_append, List.forall_mem_cons,
    List.forall_mem_append] at hin
  case createObject prototype => exact steps_object (steps_createObject _)
  case createConstructor name initializer staticLink prototypeParent =>
    exact steps_object (steps_createConstructor _ _ h.furnishes fun hT =>
      have ⟨⟨⟨hn, hinitializer⟩, _⟩, _⟩ := hin hT
      ⟨hname hn, hoption hinitializer⟩)
  case extend sup name initializer =>
    exact steps_object (steps_extend _ h.furnishes fun hT =>
      have ⟨_, hn, hinitializer⟩ := hin hT
      ⟨hname hn, hoption hinitializer⟩)
  case invoke constructor args => exact steps_object (steps_invoke _ fun hT => (hin hT).2)
  case getPrototype obj => exact steps_getPrototype (h.fails _ rfl) _
  case setPrototype obj prototype =>
    exact .map (steps_setPrototype (h.relinks rfl) _ _) fun _ _ _ => trivial
  case linkStatic sub sup => exact .map (steps_linkStatic (h.relinks rfl) _ _) fun _ _ _ => trivial
  case linkInstancePrototype sub sup =>
    exact .map (steps_linkInstancePrototype (h.relinks rfl) _ _) fun _ _ _ => trivial
  case isPrototypeOf ancestor obj => exact .map (reads_isPrototypeOf _ _).steps fun _ _ _ => trivial
  case instanceOf obj constructor => exact .map (reads_instanceOf _ _).steps fun _ _ _ => trivial
  case get obj key receiver =>
    exact steps_getProperty _ fun hT =>
      have ⟨hobj, _, hreceiver⟩ := hin hT
      ⟨hobj, hoption hreceiver⟩
  case set obj key value receiver =>
    exact .map (steps_setByPolicy (h.writes rfl) _ fun hT =>
      have ⟨hobj, _, hvalue, hreceiver⟩ := hin hT
      ⟨hobj, hvalue, hoption hreceiver⟩) fun _ _ _ => trivial
  case delete obj key => exact .map (steps_deleteByPolicy (h.removes rfl) _ _) fun _ _ _ => trivial
  case has obj key => exact .map (reads_hasProperty _ _).steps fun _ _ _ => trivial
  case superGet home key receiver => exact steps_superGet _ _ fun hT => (hin hT).2.2.1
  case superSet home key value receiver =>
    refine .map (P := Plain) (.bind (steps_superAssign (h.writes rfl) _ _ fun hT => ?_)
      fun _ _ _ _ => steps_settleByPolicy _) fun _ _ _ => trivial
    exact ⟨(hin hT).2.2.1, (hin hT).2.2.2.1⟩
  case callMethod obj key receiver args =>
    exact steps_callMethod _ fun hT =>
      have ⟨hobj, _, hreceiver, hargs⟩ := hin hT
      ⟨hobj, hoption hreceiver, hargs⟩
  case defineOwn obj key descriptor =>
    exact .map (steps_defineOwn (h.writes rfl) _ _ _) fun _ _ _ => trivial
  case deleteOwn obj key => exact .map (steps_deleteOwn (h.removes rfl) _ _) fun _ _ _ => trivial
  case hasOwn obj key => exact .map (reads_hasOwn _ _).steps fun _ _ _ => trivial
  case readOwn obj key => exact steps_readOwn (hmints id) _ _
  case ownKeys obj => exact .after (reads_ownKeys _) fun _ _ => steps_newKeyList (hmints id) _
  case enumerableKeys obj =>
    exact .after (reads_enumerableKeys _) fun _ _ => steps_newKeyList (hmints id) _
  case preventExtensions obj =>
    exact .map (steps_preventExtensions (h.writes rfl) _) fun _ _ _ => trivial
  case isExtensible obj => exact .map (reads_isExtensible _).steps fun _ _ _ => trivial
  case freeze obj => exact .map (steps_freeze (h.writes rfl) _) fun _ _ _ => trivial
  case snapshot value => exact steps_snapshot (hmints id) (h.fails _ rfl) fun hT => (hin hT).1
  case build value prototype =>
    exact steps_build (h.writes rfl) (h.fails _ rfl) _ fun hT => (hin hT).1
  case epoch => exact .map reads_readHeap.steps fun _ _ _ => trivial
  case objectCount => exact .get (fun _ => trivial) fun _ => rfl
  case describeRealm => exact steps_describeRealm (hmints id) (h.aware.resolve_right nofun)
  case setStrict value =>
    exact .map (.setStrict (h.aware.resolve_right nofun) fun hT => (hin hT).1) fun _ _ _ => trivial
  case bareObject prototype => exact steps_object (steps_bareObject fun hT => hoption (hin hT))
  case bareConstructor name initializer staticLink =>
    exact steps_object (steps_bareConstructor fun hT =>
      have ⟨⟨hn, hinitializer⟩, hlink⟩ := hin hT
      ⟨hname hn, hoption hinitializer, hoption hlink⟩)
  case runInitializer constructor this args =>
    exact .map (steps_runInitializerOf (h.fails _ rfl) _ fun hT => (hin hT).2) fun _ _ _ => trivial
  case describeConstructor constructor =>
    exact steps_describeConstructor (hmints id) (h.fails _ rfl) _
  case chain obj => exact steps_describeChain (hmints id) (h.fails _ rfl) _
  case findProperty obj key =>
    exact .after (reads_assumeKey (h.fails _ rfl) _) fun _ _ =>
      steps_describeProperty (hmints id) (h.fails _ rfl) _ _
  case setProperty obj key value receiver strict =>
    refine .after (reads_flag _) fun strict _ => .map (P := Plain) (.bind
      (steps_assign (h.writes rfl) _ fun hT => ?_) fun _ _ _ _ => steps_settle _ _)
      fun _ _ _ => trivial
    obtain ⟨hobj, -, hvalue, hreceiver, -⟩ := hin hT
    exact ⟨hobj, hvalue, hoption hreceiver⟩
  case superSetProperty home key value receiver strict =>
    refine .after (reads_flag _) fun strict _ => .map (P := Plain) (.bind
      (steps_superAssign (h.writes rfl) _ _ fun hT => ?_) fun _ _ _ _ => steps_settle _ _)
      fun _ _ _ => trivial
    exact ⟨(hin hT).2.2.1, (hin hT).2.2.2.1⟩
  case deleteProperty obj key strict =>
    refine .after (reads_flag _) fun strict _ => .map (P := Plain) ?_ fun _ _ _ => trivial
    exact .bind (steps_delete (h.removes rfl) _ _) fun _ _ _ _ => (reads_settleDeletion _ _).steps
  case table obj =>
    exact .after (reads_assumeObject (h.fails _ rfl) _) fun _ _ => steps_describeTable (hmints id) _
  case tableContains obj key =>
    refine .after (reads_assumeObject (h.fails _ rfl) _) fun o _ => .after (reads_tableOf _) ?_
    exact fun t _ => .map (reads_assumeKey (h.fails _ rfl) _).steps fun _ _ _ => trivial
  case tableLookup obj key =>
    refine .after (reads_assumeObject (h.fails _ rfl) _) fun o _ => ?_
    exact .after (reads_assumeKey (h.fails _ rfl) _) fun _ _ => steps_lookup (hmints id) _ _
  case tableRemove obj key =>
    refine .after (reads_assumeObject (h.fails _ rfl) _) fun o _ => ?_
    exact .after (reads_assumeKey (h.fails _ rfl) _) fun _ _ =>
      .map (steps_remove (h.removes rfl) _ _) fun _ _ _ => trivial
  case tableDefine obj key descriptor =>
    refine .after (reads_assumeObject (h.fails _ rfl) _) fun o ho => ?_
    refine .after (reads_assumeKey (h.fails _ rfl) _) fun key _ => ?_
    have hlt := (Heap.object?_eq_some (assumeObject_eq_ok ho).2).2
    exact .map (steps_install (h.writes rfl) _ _ hlt) fun _ _ _ => trivial
  case dump obj => exact steps_dump (hmints id) _
  case sameValue a b => exact .pure fun _ => trivial
  case toPropertyKey key => exact .map (reads_requireKey _).steps fun _ _ _ => trivial
  case isNaN value => exact .pure fun _ => trivial
  case isNegativeZero value => exact .pure fun _ => trivial
  case describeUndefined =>
    refine steps_newList (hmints id) fun _ => ?_
    simp [Value.Within]
  case describeError kind message name =>
    refine .after (reads_kindOf (h.fails _ rfl) _) fun kind _ => ?_
    refine steps_describeError (hmints id) (h.fails _ rfl) _ fun hT => ?_
    obtain ⟨-, hmessage, hn⟩ := hin hT
    exact ⟨fun v hv => hmessage v (Option.mem_toList.2 hv),
      fun v hv => hn v (Option.mem_toList.2 hv)⟩
  case raise kind message => exact steps_raise (fun _ => h.fails _ rfl) _ _
  case display value => exact .map (reads_display _).steps fun _ _ _ => trivial
  case add a b =>
    unfold perform
    dsimp only
    split
    · next hsum => exact .pure fun _ => within_add? hsum
    · exact .throw (h.fails _ rfl) _

end ObjectModel.Realm
