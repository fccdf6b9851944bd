import ObjectModel.Proofs.Realm.Constructing
import ObjectModel.Proofs.Steps.Operations

/-!
The discipline of the methods in how they fail: what they require of their operands, and what can
come of a call apart from the errors of the model and those that functions of the client throw.
-/

namespace ObjectModel

inductive Requirement
  | record (v : Value)
  | link (v : Value)
  | constructor (v : Value)
  | staticLink (v : Value)
  | key (v : Value)
  | descriptor (v : Value)

def Requirement.Met (h : Heap) (p : Pool) : Requirement → Prop
  | record v => ∃ o, v = .object o
  | link v => v = .none ∨ ∃ o, v = .object o
  | constructor v => (h.asConstructor? v).isSome = true
  | staticLink v => (h.asStaticLink? v).isSome = true
  | key v => v.key?.isSome = true
  | descriptor v => (p.descriptorOf? v).isSome = true

namespace Operation

/--
What a method asks of its operands. The link that records are to have is asked for only where there
is a dict to make a record of. To get the link of something, or to ask whether something is above
it, takes any value.
-/
def requirements : Operation Value → List Requirement
  | createObject prototype => [.link (.ofOption prototype)]
  | createConstructor _ _ staticLink prototypeParent =>
    [.staticLink (.ofOption staticLink), .link (.ofOption prototypeParent)]
  | extend sup _ _ => [.constructor sup]
  | invoke constructor _ => [.constructor constructor]
  | setPrototype obj prototype => [.record obj, .link prototype]
  | linkStatic sub sup => [.constructor sub, .staticLink sup]
  | linkInstancePrototype sub sup => [.constructor sub, .constructor sup]
  | instanceOf _ constructor => [.constructor constructor]
  | get obj key _ | set obj key _ _ | delete obj key | has obj key | superGet obj key _
  | superSet obj key _ _ | callMethod obj key _ _ | deleteOwn obj key | hasOwn obj key
  | readOwn obj key => [.record obj, .key key]
  | defineOwn obj key descriptor => [.record obj, .key key, .descriptor descriptor]
  | ownKeys obj | enumerableKeys obj | preventExtensions obj | isExtensible obj | freeze obj =>
    [.record obj]
  | build (.dict _) prototype => [.link (.ofOption prototype)]
  | _ => []

def nests {α : Type} : Operation α → Bool
  | snapshot _ | build .. => true
  | _ => false

end Operation

namespace Heap

variable {h : Heap} {v : Value}

theorem object?_of_not_object (hv : ¬ ∃ o, v = .object o) : h.object? v = none := by
  cases v with
  | object o => exact absurd ⟨o, rfl⟩ hv
  | _ => rfl

theorem asLink?_of_not_link (hv : ¬ (v = .none ∨ ∃ o, v = .object o)) : h.asLink? v = none := by
  cases v with
  | object o => exact absurd (.inr ⟨o, rfl⟩) hv
  | none => exact absurd (.inl rfl) hv
  | _ => rfl

end Heap

namespace Realm

variable {aware : Prop} {σ α β : Type} {r : Realm σ}

def Rejects (m : RealmM σ α) (r : Realm σ) : Prop :=
  ∃ error r', m r = .error (.model error) r' ∧ error.kind = .type

def Checks (m : RealmM σ α) (r : Realm σ) : Prop :=
  (∃ a, m r = .ok a r) ∨ Rejects m r

theorem Rejects.bind {m : RealmM σ α} (hm : Rejects m r) (f : α → RealmM σ β) :
    Rejects (m >>= f) r := by
  obtain ⟨error, r', hrun, hkind⟩ := hm
  exact ⟨error, r', bind_error hrun, hkind⟩

theorem Rejects.of_ok {m : RealmM σ α} {f : α → RealmM σ β} {a : α} {r' : Realm σ}
    (hm : m r = .ok a r') (hf : Rejects (f a) r') : Rejects (m >>= f) r := by
  rwa [Rejects, bind_ok hm]

theorem Rejects.after {m : RealmM σ α} {f : α → RealmM σ β} (hm : Checks m r)
    (hf : ∀ a, Rejects (f a) r) : Rejects (m >>= f) r := by
  obtain ⟨a, hrun⟩ | hrejects := hm
  · exact .of_ok hrun (hf a)
  · exact hrejects.bind f

theorem rejects_requireObject {v : Value} (hv : ¬ ∃ o, v = .object o) (what : String) :
    Rejects (requireObject v what) r := by
  refine ⟨.notObject what (Display.value r.heap r.pool v), r, ?_, rfl⟩
  rw [requireObject_run, Heap.object?_of_not_object hv]

theorem checks_requireObject (v : Value) (what : String) : Checks (requireObject v what) r := by
  rw [Checks, Rejects, requireObject_run]
  cases r.heap.object? v with
  | some o => exact .inl ⟨o, rfl⟩
  | none => exact .inr ⟨_, r, rfl, rfl⟩

theorem rejects_requirePrototype {v : Value} (hv : ¬ (v = .none ∨ ∃ o, v = .object o)) :
    Rejects (requirePrototype v) r := by
  refine ⟨.badPrototype (Display.value r.heap r.pool v), r, ?_, rfl⟩
  rw [requirePrototype_run, Heap.asLink?_of_not_link hv]

theorem rejects_requireConstructor {v : Value} (hv : ¬ (r.heap.asConstructor? v).isSome = true) :
    Rejects (requireConstructor v) r := by
  refine ⟨.notConstructor (Display.value r.heap r.pool v), r, ?_, rfl⟩
  rw [requireConstructor_run, Option.not_isSome_iff_eq_none.1 hv]

theorem checks_requireConstructor (v : Value) : Checks (requireConstructor v) r := by
  rw [Checks, Rejects, requireConstructor_run]
  cases r.heap.asConstructor? v with
  | some found => exact .inl ⟨found, rfl⟩
  | none => exact .inr ⟨_, r, rfl, rfl⟩

theorem rejects_requireStaticLink {v : Value} (hv : ¬ (r.heap.asStaticLink? v).isSome = true) :
    Rejects (requireStaticLink v) r := by
  refine ⟨.notConstructor (Display.value r.heap r.pool v), r, ?_, rfl⟩
  rw [requireStaticLink_run, Option.not_isSome_iff_eq_none.1 hv]

theorem checks_requireStaticLink (v : Value) : Checks (requireStaticLink v) r := by
  rw [Checks, Rejects, requireStaticLink_run]
  cases r.heap.asStaticLink? v with
  | some link => exact .inl ⟨link, rfl⟩
  | none => exact .inr ⟨_, r, rfl, rfl⟩

theorem rejects_requireKey {v : Value} (hv : ¬ v.key?.isSome = true) :
    Rejects (requireKey v) r := by
  refine ⟨.invalidKey (Display.value r.heap r.pool v), r, ?_, rfl⟩
  rw [requireKey_run, Option.not_isSome_iff_eq_none.1 hv]

theorem checks_requireKey (v : Value) : Checks (requireKey v) r := by
  rw [Checks, Rejects, requireKey_run]
  cases v.key? with
  | some key => exact .inl ⟨key, rfl⟩
  | none => exact .inr ⟨_, r, rfl, rfl⟩

theorem rejects_of_record_key {obj key : Value} {what : String}
    {f : ObjectId → String → RealmM σ α} {requirement : Requirement}
    (hmem : requirement ∈ [.record obj, .key key])
    (hunmet : ¬ requirement.Met r.heap r.pool) :
    Rejects (do f (← requireObject obj what) (← requireKey key)) r := by
  simp only [List.mem_cons, List.not_mem_nil, or_false] at hmem
  obtain rfl | rfl := hmem
  · exact (rejects_requireObject hunmet what).bind _
  · exact .after (checks_requireObject obj what) fun o => (rejects_requireKey hunmet).bind _

theorem rejects_createObject {v : Value} (hv : ¬ (v = .none ∨ ∃ o, v = .object o)) :
    Rejects (createObject v) r :=
  (rejects_requirePrototype hv).bind _

theorem rejects_createConstructor {name initializer staticLink prototypeParent : Value}
    {requirement : Requirement}
    (hmem : requirement ∈ [.staticLink staticLink, .link prototypeParent])
    (hunmet : ¬ requirement.Met r.heap r.pool) :
    Rejects (createConstructor name initializer staticLink prototypeParent) r := by
  simp only [List.mem_cons, List.not_mem_nil, or_false] at hmem
  obtain rfl | rfl := hmem
  · exact (rejects_requireStaticLink hunmet).bind _
  · refine .after (checks_requireStaticLink staticLink) fun link => ?_
    exact .of_ok (allocate_run _ _ _ r) ((rejects_createObject hunmet).bind _)

theorem rejects_of_home {home key : Value} {f : String → RealmM σ α} {g : Value → RealmM σ α}
    {requirement : Requirement} (hmem : requirement ∈ [.record home, .key key])
    (hunmet : ¬ requirement.Met r.heap r.pool)
    (hg : ∀ parent, ¬ key.key?.isSome = true → Rejects (g parent) r) :
    Rejects (do
      let o ← requireObject home "home object"
      match (← readHeap).link o with
      | .none => f (← requireKey key)
      | parent => g parent) r := by
  simp only [List.mem_cons, List.not_mem_nil, or_false] at hmem
  obtain rfl | rfl := hmem
  · exact (rejects_requireObject hunmet _).bind _
  · refine .after (checks_requireObject home _) fun o => ?_
    refine .of_ok (readHeap_run r) ?_
    split
    · exact (rejects_requireKey hunmet).bind _
    · exact hg _ hunmet

theorem rejects_superGet (call : Caller σ) {home key : Value} (receiver : Value)
    {requirement : Requirement} (hmem : requirement ∈ [.record home, .key key])
    (hunmet : ¬ requirement.Met r.heap r.pool) :
    Rejects (superGet call home key receiver) r :=
  rejects_of_home hmem hunmet fun parent hkey =>
    .after (checks_requireObject parent _) fun _ => (rejects_requireKey hkey).bind _

theorem rejects_superAssign (call : Caller σ) {home key : Value} (v receiver : Value)
    {requirement : Requirement} (hmem : requirement ∈ [.record home, .key key])
    (hunmet : ¬ requirement.Met r.heap r.pool) :
    Rejects (superAssign call home key v receiver) r :=
  rejects_of_home hmem hunmet fun parent hkey =>
    .after (checks_requireObject parent _) fun _ => (rejects_requireKey hkey).bind _

theorem rejects_defineOwn {obj key descriptor : Value} {requirement : Requirement}
    (hmem : requirement ∈ [.record obj, .key key, .descriptor descriptor])
    (hunmet : ¬ requirement.Met r.heap r.pool) : Rejects (defineOwn obj key descriptor) r := by
  simp only [List.mem_cons, List.not_mem_nil, or_false] at hmem
  obtain rfl | rfl | rfl := hmem
  · exact (rejects_requireObject hunmet _).bind _
  · exact .after (checks_requireObject _ _) fun _ => (rejects_requireKey hunmet).bind _
  · refine .after (checks_requireObject _ _) fun o => ?_
    refine .after (checks_requireKey _) fun key => Rejects.bind ?_ _
    refine ⟨.notDescriptor (Display.value r.heap r.pool descriptor), r, ?_, rfl⟩
    rw [install_run, Option.not_isSome_iff_eq_none.1 hunmet]

theorem rejects_linkInstancePrototype {sub sup : Value} {requirement : Requirement}
    (hmem : requirement ∈ [.constructor sub, .constructor sup])
    (hunmet : ¬ requirement.Met r.heap r.pool) : Rejects (linkInstancePrototype sub sup) r := by
  simp only [List.mem_cons, List.not_mem_nil, or_false] at hmem
  obtain rfl | rfl := hmem
  · exact (rejects_requireConstructor hunmet).bind _
  · refine .after (checks_requireConstructor _) fun found => ?_
    refine .of_ok (readHeap_run r) ?_
    split
    · exact ⟨_, r, rfl, rfl⟩
    · exact (rejects_requireConstructor hunmet).bind _

theorem rejects_perform (call : Caller σ) {op : Operation Value} {requirement : Requirement}
    (hmem : requirement ∈ op.requirements) (hunmet : ¬ requirement.Met r.heap r.pool) :
    Rejects (perform call op) r := by
  cases op with
  | createObject prototype =>
    obtain rfl := List.mem_singleton.1 hmem
    exact (rejects_createObject hunmet).bind _
  | createConstructor name initializer staticLink prototypeParent =>
    exact (rejects_createConstructor hmem hunmet).bind _
  | extend sup name initializer =>
    obtain rfl := List.mem_singleton.1 hmem
    exact ((rejects_requireConstructor hunmet).bind _).bind _
  | invoke constructor args =>
    obtain rfl := List.mem_singleton.1 hmem
    exact ((rejects_requireConstructor hunmet).bind _).bind _
  | setPrototype obj prototype =>
    simp only [Operation.requirements, List.mem_cons, List.not_mem_nil, or_false] at hmem
    refine Rejects.bind ?_ _
    obtain rfl | rfl := hmem
    · exact (rejects_requireObject hunmet _).bind _
    · exact .after (checks_requireObject _ _) fun _ => (rejects_requirePrototype hunmet).bind _
  | linkStatic sub sup =>
    simp only [Operation.requirements, List.mem_cons, List.not_mem_nil, or_false] at hmem
    refine Rejects.bind ?_ _
    obtain rfl | rfl := hmem
    · exact (rejects_requireConstructor hunmet).bind _
    · exact .after (checks_requireConstructor _) fun _ => (rejects_requireStaticLink hunmet).bind _
  | linkInstancePrototype sub sup => exact (rejects_linkInstancePrototype hmem hunmet).bind _
  | instanceOf obj constructor =>
    obtain rfl := List.mem_singleton.1 hmem
    exact ((rejects_requireConstructor hunmet).bind _).bind _
  | get obj key receiver => exact rejects_of_record_key hmem hunmet
  | set obj key value receiver =>
    exact ((rejects_of_record_key hmem hunmet).bind _).bind _
  | delete obj key => exact ((rejects_of_record_key hmem hunmet).bind _).bind _
  | has obj key => exact (rejects_of_record_key hmem hunmet).bind _
  | superGet home key receiver => exact rejects_superGet call receiver hmem hunmet
  | superSet home key value receiver =>
    exact ((rejects_superAssign call value receiver hmem hunmet).bind _).bind _
  | callMethod obj key receiver args => exact (rejects_of_record_key hmem hunmet).bind _
  | defineOwn obj key descriptor => exact (rejects_defineOwn hmem hunmet).bind _
  | deleteOwn obj key => exact (rejects_of_record_key hmem hunmet).bind _
  | hasOwn obj key => exact (rejects_of_record_key hmem hunmet).bind _
  | readOwn obj key => exact rejects_of_record_key hmem hunmet
  | ownKeys obj | enumerableKeys obj | preventExtensions obj | isExtensible obj | freeze obj =>
    obtain rfl := List.mem_singleton.1 hmem
    exact ((rejects_requireObject hunmet _).bind _).bind _
  | build v prototype =>
    cases v with
    | dict id =>
      obtain rfl := List.mem_singleton.1 hmem
      show Rejects (build.go call _ (r.pool.dicts.size + 1) (.dict id)) r
      exact (rejects_createObject hunmet).bind _
    | _ => cases hmem
  | _ => cases hmem

/--
A method that fails was refused, or met a link by hand or something uncallable, or a function of the
client threw; beyond that, only the link of what is no record cannot be told, and nesting may go too
deep. What a method asks of its operands it insists on, and nothing is above what is no record.
-/
theorem discipline_of_isMethod {call : Caller σ} (hcall : ComposedCaller aware call)
    {op : Operation Value} (hop : op.isMethod = true) (r : Realm σ) :
    (∀ failure r', perform call op r = .error failure r' →
      Explained r'.heap failure ∨ r.Threw call failure r' ∨
        (failure = .notRecord ∧ ∃ obj, op = .getPrototype obj ∧ r.heap.object? obj = none) ∨
        (failure = .exhausted ∧ op.nests = true)) ∧
      (∀ requirement ∈ op.requirements, ¬ requirement.Met r.heap r.pool →
        Rejects (perform call op) r) ∧
      ∀ obj, (¬ ∃ o, obj = .object o) →
        (∀ ancestor, op = .isPrototypeOf ancestor obj → perform call op r = .ok (.bool false) r) ∧
        ∀ constructor, op = .instanceOf obj constructor →
          (r.heap.asConstructor? constructor).isSome = true →
          perform call op r = .ok (.bool false) r := by
  refine ⟨?_, fun _ => rejects_perform call, ?_⟩
  · intro failure r' h
    have hsteps : Steps { call, fails := op.FailsBeyond } Value.Within (perform call op) r :=
      steps_perform (Terms.allow (.inl trivial) (fun _ => id) (.inl trivial) _) nofun
    refine (hsteps.explained id (fun name this args r => ?_) h).imp_right (.imp_right ?_)
    · obtain ⟨events, htrace, -⟩ := (hcall name this args r).follows
      exact ⟨events, htrace.symm⟩
    · intro hbeyond
      cases op with
      | getPrototype obj =>
        refine .inl ⟨hbeyond, obj, rfl, ?_⟩
        cases hobj : r.heap.object? obj with
        | none => rfl
        | some o =>
          simp only [perform, getPrototype, bind_run, assumeObject_run, hobj, readHeap_run,
            pure_run] at h
          cases h
      | snapshot | build => exact .inr ⟨hbeyond, rfl⟩
      | _ => cases hop.symm.trans hbeyond
  · intro obj hobj
    have hnone : r.heap.object? obj = none := Heap.object?_of_not_object hobj
    constructor
    · rintro ancestor rfl
      simp only [perform, isPrototypeOf, bind_run, object?_run, hnone, pure_run]
    · rintro constructor rfl hconstructor
      obtain ⟨found, hfound⟩ := Option.isSome_iff_exists.1 hconstructor
      simp only [perform, instanceOf, bind_run, requireConstructor_run, hfound, object?_run, hnone,
        pure_run]

def uncalling : Realm Unit :=
  let make : RealmM Unit Unit := do
    let o ← createObject .none
    let id ← newDescriptor { slot := .accessor (some (.int 5)) none }
    defineOwn (.object o) (.str "k") (.descriptor id)
  ending (make { client := () })

theorem discipline_of_isMethod_uncalling :
    (∃ r', perform barred (.get (.object 0) (.str "k") none) uncalling = .error .notCallable r' ∧
        r'.heap.Uncallable) ∧
      Rejects (perform barred (.defineOwn (.object 0) (.str "k") (.int 5))) uncalling := by
  have hrun : perform barred (.get (.object 0) (.str "k") none) uncalling =
    .error .notCallable _ := rfl
  have hget : (Operation.get (Value.object 0) (.str "k") none).isMethod = true := rfl
  have hdefine : (Operation.defineOwn (.object 0) (.str "k") (Value.int 5)).isMethod = true := rfl
  have hcall : ComposedCaller True (barred : Caller Unit) := composedCaller_barred
  obtain ⟨hfails, -, -⟩ := discipline_of_isMethod hcall hget uncalling
  obtain ⟨-, hrejects, -⟩ := discipline_of_isMethod hcall hdefine uncalling
  have hmem : .descriptor (.int 5) ∈
      (Operation.defineOwn (.object 0) (.str "k") (.int 5)).requirements := by
    simp [Operation.requirements]
  refine ⟨⟨_, hrun, ?_⟩, hrejects _ hmem nofun⟩
  obtain hexplained | ⟨_, _, _, _, -, hthrown⟩ | ⟨h, -⟩ | ⟨h, -⟩ := hfails _ _ hrun
  · cases hexplained with
    | uncallable hf => exact hf
  · cases hthrown
  · cases h
  · cases h

/--
The link of a number is asked for, and a number is to be called, where no function of the client
ever fails; neither comes to an error of the model.
-/
theorem exists_undisciplined :
    let call : Caller Unit := fun _ _ _ => pure .undefined
    (∀ name this args r failure r', call name this args r ≠ .error failure r') ∧
      perform call (.getPrototype (.int 5)) uncalling = .error .notRecord uncalling ∧
      perform call (.get (.object 0) (.str "k") none) uncalling =
        .error .notCallable uncalling := by
  intro call
  refine ⟨?_, rfl, rfl⟩
  rintro _ _ _ _ _ _ ⟨⟩

end Realm

end ObjectModel
