import ObjectModel.Proofs.Steps.Laws
import ObjectModel.Proofs.Steps.Operations

/-!
Refused operations. Each one makes all its checks before it changes a record that was there when it
began, so a refusal leaves the model as it was, but for records that nothing refers to.
-/

namespace ObjectModel.Realm

variable {σ α β : Type} {n : Nat} {P : Nat → α → Prop} {done : α → Prop} {done' : β → Prop}

def passing (n : Nat) : Terms σ :=
  { call := barred, permits := Event.Passes n }

theorem Steps.spares_of_passing {m : RealmM σ α} {r : Realm σ} (h : Steps (passing n) P m r)
    (hn : n ≤ r.heap.size) : r.Spares n (ending (m r)) :=
  h.spares id (fun _ => id) (fun _ _ _ => .refl) hn

/--
If the computation is refused, or has a result that does not count as done, it has spared the first
`n` records. Nothing is said of the other ways in which it may fail.
-/
structure Attempting (done : α → Prop) (n : Nat) (m : RealmM σ α) (r : Realm σ) : Prop where
  refused : ∀ {error r'}, m r = .error (.model error) r' → r.Spares n r'
  undone : ∀ {a r'}, m r = .ok a r' → ¬ done a → r.Spares n r'

section Rules

variable {m : RealmM σ α} {f : α → RealmM σ β} {r : Realm σ}

theorem Attempting.of_spares (h : r.Spares n (ending (m r))) : Attempting done n m r := by
  constructor
  · intro error r' hm
    rw [hm] at h
    exact h
  · intro a r' hm _
    rw [hm] at h
    exact h

theorem Steps.attempting (h : Steps (passing n) P m r) (hn : n ≤ r.heap.size) :
    Attempting done n m r :=
  .of_spares (h.spares_of_passing hn)

theorem Reads.attempting (h : Reads (passing n) m r) : Attempting done n m r := by
  refine .of_spares ?_
  rw [h.ending_eq]
  exact .refl r

theorem Attempting.inspect {f : Realm σ → RealmM σ α} (h : Attempting done n (f r) r) :
    Attempting done n (get >>= f) r :=
  ⟨h.refused, h.undone⟩

theorem Attempting.of_ok {a : α} {r' : Realm σ} (h : m r = .ok a r') (hdone : done a) :
    Attempting done n m r := by
  constructor
  · intro error r'' herror
    rw [h] at herror
    cases herror
  · intro a' r'' hok hnot
    rw [h] at hok
    cases hok
    exact absurd hdone hnot

theorem Attempting.mono {done₁ done₂ : α → Prop} {m : RealmM σ α} {r : Realm σ}
    (h : Attempting done₁ n m r) (hdone : ∀ a, done₁ a → done₂ a) : Attempting done₂ n m r :=
  ⟨h.refused, fun hok hnot => h.undone hok fun ha => hnot (hdone _ ha)⟩

theorem Attempting.andThen (hm : Attempting done n m r)
    (hdone : ∀ a r', done a → ∃ b r'', f a r' = .ok b r'' ∧ done' b)
    (hf : ∀ a r', ¬ done a → m r = .ok a r' → r.Spares n r' → Attempting done' n (f a) r') :
    Attempting done' n (m >>= f) r := by
  cases hrun : m r with
  | ok a r₁ =>
    by_cases ha : done a
    · obtain ⟨b, r₂, hok, hb⟩ := hdone a r₁ ha
      exact .of_ok ((bind_ok hrun).trans hok) hb
    · have hspares := hm.undone hrun ha
      have hrest := hf a r₁ ha hrun hspares
      constructor
      · intro error r' h
        rw [bind_ok hrun] at h
        exact hspares.trans (hrest.refused h)
      · intro b r' h hb
        rw [bind_ok hrun] at h
        exact hspares.trans (hrest.undone h hb)
  | error failure r₁ =>
    constructor
    · intro error r' h
      rw [bind_error hrun] at h
      cases h
      exact hm.refused hrun
    · intro b r' h
      rw [bind_error hrun] at h
      cases h

theorem Attempting.bind (hm : Attempting (fun _ => False) n m r)
    (hf : ∀ a r', m r = .ok a r' → r.Spares n r' → Attempting done' n (f a) r') :
    Attempting done' n (m >>= f) r :=
  hm.andThen (fun _ _ h => h.elim) fun a r' _ => hf a r'

theorem Attempting.after (hm : Reads (passing n) m r)
    (hf : ∀ a, m r = .ok a r → Attempting done' n (f a) r) : Attempting done' n (m >>= f) r := by
  refine hm.attempting.bind fun a r' hrun _ => ?_
  obtain rfl := hm.eq_of_ok hrun
  exact hf a hrun

abbrev Refusing (n : Nat) (m : RealmM σ α) (r : Realm σ) : Prop :=
  Attempting (fun _ => True) n m r

theorem Refusing.followed (hm : Refusing n m r)
    (hf : ∀ a r', ∃ b r'', f a r' = .ok b r'' ∧ done' b) : Attempting done' n (m >>= f) r :=
  hm.andThen (fun a r' _ => hf a r') fun _ _ h => absurd trivial h

theorem Refusing.map {g : α → β} (hm : Refusing n m r) :
    Refusing n (m >>= fun a => pure (g a)) r :=
  hm.followed fun _ _ => ⟨_, _, rfl, trivial⟩

end Rules

section Operations

variable {r : Realm σ}

theorem refusing_define (o : ObjectId) (key : String) (d : Descriptor) :
    Refusing n (define o key d) r := by
  unfold define
  refine .inspect (.after (reads_tableOf _) fun t _ => ?_)
  cases t.refusal? r.pool.equal key d with
  | some error => exact .after (.fail error) fun _ _ => .of_ok rfl trivial
  | none => exact .of_ok rfl trivial

theorem refusing_install (o : ObjectId) (key : String) (descriptor : Value) :
    Refusing n (install o key descriptor) r := by
  unfold install
  refine .after (reads_requireDescriptor _) fun found _ => ?_
  exact (refusing_define _ _ _).followed fun _ _ => ⟨_, _, rfl, trivial⟩

theorem refusing_defineOwn (obj key descriptor : Value) :
    Refusing n (defineOwn obj key descriptor) r := by
  unfold defineOwn
  refine .after (reads_requireObject _ _) fun o _ => .after (reads_requireKey _) fun key _ => ?_
  exact (refusing_install _ _ _).followed fun _ _ => ⟨_, _, rfl, trivial⟩

theorem refusing_remove (o : ObjectId) (key : String) : Refusing n (remove o key) r := by
  unfold remove
  refine .after (reads_tableOf _) fun t _ => ?_
  split
  · exact .of_ok rfl trivial
  · exact .of_ok rfl trivial

theorem refusing_removeOwn (o : ObjectId) (key : String) : Refusing n (removeOwn o key) r := by
  unfold removeOwn
  refine .after (reads_tableOf _) fun t _ => ?_
  split
  · exact refusing_remove _ _
  · exact (reads_inherits _ _).attempting

theorem refusing_deleteOwn (obj key : Value) : Refusing n (deleteOwn obj key) r := by
  unfold deleteOwn
  refine .after (reads_requireObject _ _) fun o _ => .after (reads_requireKey _) fun key _ => ?_
  exact refusing_removeOwn _ _

theorem attempting_delete (obj key : Value) :
    Attempting (fun outcome => outcome.isOk) n (delete obj key) r := by
  unfold delete
  refine .after (reads_requireObject _ _) fun o _ => .after (reads_requireKey _) fun key _ => ?_
  refine .after (reads_tableOf _) fun t _ => ?_
  split
  · exact (Reads.pure _).attempting
  · exact (refusing_removeOwn _ _).followed fun _ _ => ⟨_, _, rfl, rfl⟩

theorem refusing_deleteProperty (obj key : Value) (strict : Bool) :
    Refusing n (deleteProperty obj key strict) r := by
  unfold deleteProperty
  refine (attempting_delete _ _).andThen ?_ fun _ _ _ _ _ => (reads_settleDeletion _ _).attempting
  rintro (error | gone) r' hdone
  · cases hdone
  · exact ⟨_, _, rfl, trivial⟩

theorem refusing_preventExtensions (obj : Value) : Refusing n (preventExtensions obj) r := by
  unfold preventExtensions
  exact .after (reads_requireObject _ _) fun o _ => .of_ok rfl trivial

theorem refusing_freeze (obj : Value) : Refusing n (freeze obj) r := by
  unfold freeze
  exact .after (reads_requireObject _ _) fun o _ => .of_ok rfl trivial

section There

variable (hn : n ≤ r.heap.size)
include hn

theorem refusing_relink (o : ObjectId) (prototype : Option ObjectId) :
    Refusing n (relink o prototype) r := by
  unfold relink
  refine .after reads_readHeap fun h _ => ?_
  split
  · exact .of_ok rfl trivial
  · split
    · exact (Reads.fail _).attempting
    · refine .after (reads_display _) fun shown _ => ?_
      split
      · -- the cycle is logged before it is refused, and a line in the log spares all records
        exact Steps.attempting (P := Plain) (.bind (.log rfl) fun _ _ _ _ => .fail _ _) hn
      · exact .after (reads_requireEnd _) fun _ _ => .of_ok rfl trivial

theorem refusing_setPrototype (obj prototype : Value) :
    Refusing n (setPrototype obj prototype) r := by
  unfold setPrototype
  refine .after (reads_requireObject _ _) fun o _ => ?_
  exact .after (reads_requirePrototype _) fun p _ => refusing_relink hn _ _

theorem refusing_linkStatic (sub sup : Value) : Refusing n (linkStatic sub sup) r := by
  unfold linkStatic
  refine .after (reads_requireConstructor _) fun found _ => ?_
  exact .after (reads_requireStaticLink _) fun link _ => refusing_relink hn _ _

theorem refusing_linkInstancePrototype (sub sup : Value) :
    Refusing n (linkInstancePrototype sub sup) r := by
  unfold linkInstancePrototype
  refine .after (reads_requireConstructor _) fun found _ => .after reads_readHeap fun h _ => ?_
  split
  · exact (reads_refusal _ .noConstructionPrototype).attempting
  · refine .after (reads_requireConstructor _) fun found _ => ?_
    exact .after reads_readHeap fun h _ => refusing_relink hn _ _

theorem attempting_writeOwn {done : Option ModelError → Prop} {receiver : Value}
    (hreceiver : (∀ o, receiver = .object o → n ≤ o) ∨ done none) (key : String) (v : Value) :
    Attempting done n (writeOwn receiver key v) r := by
  have hrefused (error : ModelError) : Attempting done n (pure (some error)) r :=
    (Reads.pure _).attempting
  unfold writeOwn
  refine .after (reads_object? _) fun o? h => ?_
  cases h
  split
  · exact .after (reads_display _) fun shown _ => hrefused _
  · next o ho =>
    have hdefine (d : Descriptor) :
        Attempting done n (define o key d >>= fun _ => pure none) r := by
      obtain hfresh | hnone := hreceiver
      · have hle : n ≤ o := hfresh o (Heap.object?_eq_some ho).1
        exact Steps.attempting (P := Plain)
          (.map (steps_define hle nofun) fun _ _ _ => trivial) hn
      · exact (refusing_define _ _ _).followed fun _ _ => ⟨_, _, rfl, hnone⟩
    refine .after (reads_tableOf _) fun t _ => ?_
    split
    · split
      · exact hdefine _
      · exact hrefused _
    · split
      · exact hdefine _
      · exact hrefused _
    · exact hrefused _

theorem attempting_write {done : Option ModelError → Prop} {receiver : Value}
    (hreceiver : (∀ o, receiver = .object o → n ≤ o) ∨ done none) (start : ObjectId) (key : String)
    (v : Value) : Attempting done n (write barred start key v receiver) r := by
  unfold write
  refine .after (reads_find _ _) fun found hfind => ?_
  split
  · exact (Reads.pure _).attempting
  · next hfound =>
    have hd := Heap.lookup_of_findProperty (find_eq_ok_some hfind).2
    exact Steps.attempting (P := Plain)
      (.map (steps_callValue (T := passing n) (.setter hd rfl) nofun) fun _ _ _ => trivial) hn
  · exact attempting_writeOwn hn hreceiver _ _

theorem attempting_assign {done : Option ModelError → Prop} {obj receiver : Value}
    (hreceiver : (∀ o, receiverOr receiver obj = .object o → n ≤ o) ∨ done none) (key v : Value) :
    Attempting done n (assign barred obj key v receiver) r := by
  unfold assign
  refine .after (reads_requireObject _ _) fun o _ => ?_
  exact .after (reads_requireKey _) fun key _ => attempting_write hn hreceiver _ _ _

theorem attempting_superAssign {done : Option ModelError → Prop} (hdone : done none)
    (home key v receiver : Value) :
    Attempting done n (superAssign barred home key v receiver) r := by
  unfold superAssign
  refine .after (reads_requireObject _ _) fun o _ => .after reads_readHeap fun h _ => ?_
  split
  · exact .after (reads_requireKey _) fun key _ => attempting_writeOwn hn (.inr hdone) _ _
  · exact attempting_assign hn (.inr hdone) _ _

section Settled

variable {m : RealmM σ (Option ModelError)} (hm : Attempting (Eq none) n m r)
include hm

theorem Attempting.settled (strict : Bool) : Refusing n (m >>= settle strict) r := by
  refine hm.andThen ?_ fun _ _ _ _ h => (steps_settle _ _).attempting (Nat.le_trans hn h.size)
  rintro _ r' rfl
  exact ⟨_, _, rfl, trivial⟩

theorem Attempting.settledByPolicy : Refusing n (m >>= settleByPolicy) r := by
  refine hm.andThen ?_ fun _ _ _ _ h => (steps_settleByPolicy _).attempting (Nat.le_trans hn h.size)
  rintro _ r' rfl
  exact ⟨_, _, rfl, trivial⟩

end Settled

theorem refusing_deleteByPolicy (obj key : Value) : Refusing n (deleteByPolicy obj key) r := by
  unfold deleteByPolicy
  refine (attempting_delete _ _).andThen ?_ fun outcome r₁ hnot _ h => ?_
  · rintro (error | gone) r' hdone
    · cases hdone
    · exact ⟨_, _, rfl, trivial⟩
  · cases outcome with
    | ok gone => exact absurd rfl hnot
    | error error =>
      refine .inspect ?_
      refine Steps.attempting (P := Plain) ?_ (Nat.le_trans hn h.size)
      exact .bind (steps_condone _ _) fun _ _ _ _ => (reads_settleDeletion _ _).steps

theorem attempting_forM {f : α → RealmM σ PUnit}
    (hf : ∀ a (r' : Realm σ), n ≤ r'.heap.size → Attempting (fun _ => False) n (f a) r')
    (items : List α) : Attempting (fun _ => False) n (items.forM f) r := by
  induction items generalizing r with
  | nil => exact (Reads.pure _).attempting
  | cons a items ih =>
    exact (hf a r hn).bind fun _ r' _ hspares => ih (Nat.le_trans hn hspares.size)

theorem attempting_build_go (prototype : Value) (depth : Nat) (v : Value) :
    Attempting (fun _ => False) n (build.go barred prototype depth v) r := by
  induction depth generalizing v r with
  | zero => exact (Reads.throw trivial).attempting
  | succ depth ih =>
    cases v with
    | dict id =>
      refine ((steps_createObject _).attempting hn).bind fun o r₁ hcreated h₁ => .inspect ?_
      have ho : n ≤ o := (createObject_eq_ok hcreated).1 ▸ hn
      refine .bind (attempting_forM (Nat.le_trans hn h₁.size) (fun entry r₂ hn₂ => ?_) _)
        fun _ _ _ _ => (Reads.pure _).attempting
      refine (ih hn₂ _).bind fun converted r₃ _ h₃ => ?_
      have hn₃ := Nat.le_trans hn₂ h₃.size
      refine .bind ?_ fun _ _ _ _ => (Reads.pure _).attempting
      -- all that is written goes to the record made here, and that is none of the first `n`
      have hreceiver : ∀ o', receiverOr .none (.object o) = .object o' → n ≤ o' := by
        rintro _ ⟨⟩
        exact ho
      exact (attempting_assign hn₃ (.inl hreceiver) _ _).bind fun _ r₄ _ h₄ =>
        (steps_settleByPolicy _).attempting (Nat.le_trans hn₃ h₄.size)
    | _ => exact (Reads.pure _).attempting

theorem steps_passing {op : Operation Value} (hwrites : op.writes = false)
    (hrelinks : op.relinks = false) (hremoves : op.removes = false) :
    Steps (passing n) Value.Within (perform barred op) r := by
  refine steps_perform (T := passing n) ?_ nofun
  exact
    { aware := .inl trivial
      fails := fun _ _ => trivial
      mints := .inl trivial
      relinks := fun h => by cases hrelinks.symm.trans h
      removes := fun h => by cases hremoves.symm.trans h
      writes := fun h => by cases hwrites.symm.trans h
      furnishes := fun _ ho _ _ => Nat.le_trans hn ho }

theorem refusing_perform (op : Operation Value) : Refusing n (perform barred op) r := by
  have hassign {obj receiver : Value} (key v : Value) :
      Attempting (Eq none) n (assign barred obj key v receiver) r :=
    attempting_assign hn (.inr rfl) _ _
  have hsuperAssign (home key v receiver : Value) :
      Attempting (Eq none) n (superAssign barred home key v receiver) r :=
    attempting_superAssign hn rfl _ _ _ _
  cases op with
  | setPrototype obj prototype => exact Refusing.map (refusing_setPrototype hn _ _)
  | linkStatic sub sup => exact Refusing.map (refusing_linkStatic hn _ _)
  | linkInstancePrototype sub sup => exact Refusing.map (refusing_linkInstancePrototype hn _ _)
  | set obj key value receiver => exact Refusing.map (.settledByPolicy hn (hassign _ _))
  | delete obj key => exact Refusing.map (refusing_deleteByPolicy hn _ _)
  | superSet home key value receiver =>
    exact Refusing.map (.settledByPolicy hn (hsuperAssign _ _ _ _))
  | defineOwn obj key descriptor => exact Refusing.map (refusing_defineOwn _ _ _)
  | deleteOwn obj key => exact Refusing.map (refusing_deleteOwn _ _)
  | preventExtensions obj => exact Refusing.map (refusing_preventExtensions _)
  | freeze obj => exact Refusing.map (refusing_freeze _)
  | build value prototype =>
    exact .inspect ((attempting_build_go hn _ _ _).mono fun _ h => h.elim)
  | setProperty obj key value receiver strict =>
    exact .after (reads_flag _) fun _ _ => Refusing.map (.settled hn (hassign _ _) _)
  | superSetProperty home key value receiver strict =>
    exact .after (reads_flag _) fun _ _ => Refusing.map (.settled hn (hsuperAssign _ _ _ _) _)
  | deleteProperty obj key strict =>
    exact .after (reads_flag _) fun _ _ => Refusing.map (refusing_deleteProperty _ _ _)
  | tableRemove obj key =>
    refine .after (reads_assumeObject trivial _) fun o _ => ?_
    exact .after (reads_assumeKey trivial _) fun _ _ => Refusing.map (refusing_remove _ _)
  | tableDefine obj key descriptor =>
    refine .after (reads_assumeObject trivial _) fun o _ => ?_
    exact .after (reads_assumeKey trivial _) fun _ _ => Refusing.map (refusing_install _ _ _)
  | _ => exact (steps_passing hn rfl rfl rfl).attempting hn

end There

end Operations

/-- No function of the client is called: the operation comes to the same where none would return. -/
def CallsNone (call : Caller σ) (op : Operation Value) (r : Realm σ) : Prop :=
  perform call op r = perform barred op r

/--
An operation that is refused and has called no function of the client leaves all records as they
were and the epoch with them, and it has not announced any change.
-/
theorem spares_of_refused {call : Caller σ} {op : Operation Value} {r r' : Realm σ}
    {error : ModelError} (hcalls : CallsNone call op r)
    (h : perform call op r = .error (.model error) r') : r.Spares r.heap.size r' := by
  rw [hcalls] at h
  exact (refusing_perform (Nat.le_refl _) op).refused h

def nesting : Realm Unit :=
  let make : RealmM Unit Unit := do
    let o ← createObject .none
    define o "k" (.ofValue (.int 1))
    modifyPool fun p => (p.addDict [(.none, .int 3)]).addDict
      [(.str "j", .int 2), (.str "inner", .dict 0)]
  ending (make { client := () })

theorem spares_of_refused_nesting :
    ∃ error r', perform (fun _ _ _ => pure .undefined) (.build (.dict 1) (some (.object 0)))
        nesting = .error (.model error) r' ∧
      nesting.heap.size = 1 ∧ r'.heap.size = 3 ∧ nesting.Spares 1 r' := by
  have hrun : perform (fun _ _ _ => pure .undefined) (.build (.dict 1) (some (.object 0))) nesting =
    .error (.model _) _ := rfl
  have hcalls : CallsNone (fun _ _ _ => pure .undefined) (.build (.dict 1) (some (.object 0)))
    nesting := hrun
  refine ⟨_, _, hrun, rfl, ?_, spares_of_refused hcalls hrun⟩
  decide +kernel

end ObjectModel.Realm
