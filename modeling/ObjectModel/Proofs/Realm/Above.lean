import ObjectModel.Proofs.Heap.Splicing
import ObjectModel.Proofs.Realm.Assigning

/-!
Reading and assigning above a record. Where the record does not own the key this comes to the same
as on the record itself. An assignment that runs no setter changes no record but its receiver, as
long as one is given.
-/

namespace ObjectModel

def Heap.StraysAbove (h : Heap) (o : ObjectId) (key : String) : Prop :=
  h.findProperty (h.prototype o) key = none ∧ (h.strayEnd? (some o)).isSome = true

instance (h : Heap) (o : ObjectId) (key : String) : Decidable (h.StraysAbove o key) :=
  inferInstanceAs (Decidable (_ ∧ _))

theorem Heap.link_of_prototype {h : Heap} {o p : ObjectId} (hp : h.prototype o = some p) :
    h.link o = .object p := by
  rw [← ofLink_prototype (strayLink?_of_prototype hp), hp]
  rfl

namespace Realm

variable {σ : Type} {call : Caller σ} {r : Realm σ} {o p : ObjectId} {k : String}
  {key v receiver target : Value} {strict : Bool}

theorem receiverOr_of_ne (hreceiver : receiver ≠ .none) (obj : Value) :
    receiverOr receiver obj = receiver := by
  cases receiver with
  | none => exact absurd rfl hreceiver
  | _ => rfl

theorem getProperty_run (ho : o < r.heap.size) (key receiver : Value) :
    getProperty call (.object o) key receiver r =
      (requireKey key >>= fun k => read call o k (receiverOr receiver (.object o))) r := by
  simp only [getProperty, bind_run, requireObject_run, Heap.object?_object ho]

theorem assign_run (ho : o < r.heap.size) (key v receiver : Value) :
    assign call (.object o) key v receiver r =
      (requireKey key >>= fun k => write call o k v (receiverOr receiver (.object o))) r := by
  simp only [assign, bind_run, requireObject_run, Heap.object?_object ho]

theorem superGet_run (ho : o < r.heap.size) (key receiver : Value) :
    superGet call (.object o) key receiver r =
      match r.heap.link o with
      | .none => (requireKey key >>= fun _ => pure .undefined) r
      | parent => getProperty call parent key receiver r := by
  rw [superGet, bind_run, requireObject_run, Heap.object?_object ho]
  show (match r.heap.link o with
    | .none => requireKey key >>= fun _ => pure .undefined
    | parent => getProperty call parent key receiver : RealmM σ Value) r = _
  cases r.heap.link o <;> rfl

theorem superAssign_run (ho : o < r.heap.size) (key v receiver : Value) :
    superAssign call (.object o) key v receiver r =
      match r.heap.link o with
      | .none => (requireKey key >>= fun k => writeOwn receiver k v) r
      | parent => assign call parent key v receiver r := by
  rw [superAssign, bind_run, requireObject_run, Heap.object?_object ho]
  show (match r.heap.link o with
    | .none => requireKey key >>= fun k => writeOwn receiver k v
    | parent => assign call parent key v receiver : RealmM σ (Option ModelError)) r = _
  cases r.heap.link o <;> rfl

theorem requireKey_bind_congr {α : Type} {f g : String → RealmM σ α}
    (hfg : ∀ k, key.key? = some k → f k r = g k r) :
    (requireKey key >>= f) r = (requireKey key >>= g) r := by
  rw [bind_run, bind_run, requireKey_run]
  cases hkey : key.key? with
  | none => rfl
  | some k => exact hfg k hkey

theorem find_none_run (k : String) (r : Realm σ) : find none k r = .ok none r := by
  rw [find_run, Heap.findProperty_eq_firstOwner, Heap.strayEnd?, Heap.chain_none]
  rfl

theorem find_eq_find_prototype (hset : r.heap.Settled) (ho : o < r.heap.size)
    (hlink : r.heap.strayLink? o = none) (hown : (r.heap.table o).lookup k = none) :
    find (some o) k r = find (r.heap.prototype o) k r := by
  have hfound : r.heap.findProperty (some o) k = r.heap.findProperty (r.heap.prototype o) k := by
    rw [Heap.findProperty_eq_firstOwner, Heap.findProperty_eq_firstOwner, hset.chain_eq_cons ho,
      Heap.firstOwner, List.findSome?_cons, hown]
    rfl
  have hend : r.heap.strayEnd? (some o) = r.heap.strayEnd? (r.heap.prototype o) := by
    rw [hset.strayEnd?_eq ho, hlink, Option.none_or]
  rw [find_run, find_run, hfound, hend]

section Linked

variable (hset : r.heap.Settled) (ho : o < r.heap.size) (hlink : r.heap.strayLink? o = none)
  (hown : ∀ k, key.key? = some k → (r.heap.table o).lookup k = none)
include hset ho hlink hown

theorem requireKey_find_eq {α : Type}
    (f : String → Option (ObjectId × Descriptor) → RealmM σ α) :
    (requireKey key >>= fun k => find (some o) k >>= f k) r =
      (requireKey key >>= fun k => find (r.heap.prototype o) k >>= f k) r :=
  requireKey_bind_congr fun k hkey => by
    rw [bind_run, bind_run, find_eq_find_prototype hset ho hlink (hown k hkey)]

theorem above_eq {α : Type} {f : String → Option (ObjectId × Descriptor) → RealmM σ α}
    {access : Value → RealmM σ α} {top : String → RealmM σ α}
    (haccess : ∀ x : ObjectId, x < r.heap.size →
      access (.object x) r = (requireKey key >>= fun k => find (some x) k >>= f k) r)
    (htop : ∀ k, f k none = top k) :
    (match r.heap.link o with
    | .none => (requireKey key >>= fun k => top k) r
    | parent => access parent r) = access (.object o) r := by
  rw [haccess o ho, requireKey_find_eq hset ho hlink hown, ← Heap.ofLink_prototype hlink]
  cases hp : r.heap.prototype o with
  | none =>
    -- at the top nothing is searched, yet the key is checked as it is everywhere else
    refine requireKey_bind_congr fun k _ => ?_
    rw [bind_run, find_none_run, ← htop]
  | some p => exact haccess p (hset.prototype_lt ho hp)

theorem superGet_eq_getProperty (hreceiver : receiver ≠ .none) :
    superGet call (.object o) key receiver r = getProperty call (.object o) key receiver r := by
  have haccess (x : ObjectId) (hx : x < r.heap.size) :
      getProperty call (.object x) key receiver r =
        (requireKey key >>= fun k => read call x k receiver) r := by
    rw [getProperty_run hx, receiverOr_of_ne hreceiver]
  rw [superGet_run ho]
  exact above_eq hset ho hlink hown haccess fun _ => rfl

theorem superAssign_eq_assign (hreceiver : receiver ≠ .none) :
    superAssign call (.object o) key v receiver r = assign call (.object o) key v receiver r := by
  have haccess (x : ObjectId) (hx : x < r.heap.size) :
      assign call (.object x) key v receiver r =
        (requireKey key >>= fun k => write call x k v receiver) r := by
    rw [assign_run hx, receiverOr_of_ne hreceiver]
  rw [superAssign_run ho]
  exact above_eq hset ho hlink hown haccess fun _ => rfl

end Linked

def strayFailure (r : Realm σ) (o : ObjectId) : Failure :=
  match r.heap.strayLink? o with
  | some stray => .model (.notObject "value" (Display.value r.heap r.pool stray))
  | none => .notRecord

theorem strayFailure_of_linked (hlink : r.heap.strayLink? o = none) :
    r.strayFailure o = .notRecord := by
  rw [strayFailure, hlink]

theorem requireObject_of_object?_eq_none (hv : r.heap.object? v = none) (what : String) :
    requireObject v what r =
      .error (.model (.notObject what (Display.value r.heap r.pool v))) r := by
  rw [requireObject_run, hv]

theorem above_of_strayLink {α : Type} {top : EStateM.Result Failure (Realm σ) α}
    {access : Value → RealmM σ α}
    (haccess : ∀ v, r.heap.object? v = none →
      access v r = .error (.model (.notObject "value" (Display.value r.heap r.pool v))) r)
    (hlink : r.heap.strayLink? o ≠ none) :
    (match r.heap.link o with
    | .none => top
    | parent => access parent r) = .error (r.strayFailure o) r := by
  rw [strayFailure]
  unfold Heap.strayLink? at hlink ⊢
  cases hl : r.heap.link o <;> rw [hl] at hlink <;>
    first
    | exact absurd rfl hlink
    | exact haccess _ rfl

theorem superGet_of_strayLink (ho : o < r.heap.size) (hlink : r.heap.strayLink? o ≠ none) :
    superGet call (.object o) key receiver r = .error (r.strayFailure o) r := by
  rw [superGet_run ho]
  exact above_of_strayLink (fun v hv => bind_error (requireObject_of_object?_eq_none hv _)) hlink

theorem superAssign_of_strayLink (ho : o < r.heap.size) (hlink : r.heap.strayLink? o ≠ none) :
    superAssign call (.object o) key v receiver r = .error (r.strayFailure o) r := by
  rw [superAssign_run ho]
  exact above_of_strayLink (fun v hv => bind_error (requireObject_of_object?_eq_none hv _)) hlink

theorem prototype_of_strayLink (hlink : r.heap.strayLink? o ≠ none) :
    r.heap.prototype o = none := by
  cases hp : r.heap.prototype o with
  | none => rfl
  | some p => exact absurd (Heap.strayLink?_of_prototype hp) hlink

theorem find_of_strayLink (hset : r.heap.Settled) (ho : o < r.heap.size)
    (hlink : r.heap.strayLink? o ≠ none) (hown : (r.heap.table o).lookup k = none) :
    find (some o) k r = .error .notRecord r := by
  have hnone : r.heap.findProperty (some o) k = none := by
    rw [Heap.findProperty_eq_firstOwner, hset.chain_eq_cons ho, prototype_of_strayLink hlink,
      Heap.chain_none, Heap.firstOwner, List.findSome?_cons, hown]
    rfl
  rw [find_run, hnone, hset.strayEnd?_eq ho]
  cases hstray : r.heap.strayLink? o with
  | none => exact absurd hstray hlink
  | some stray => rfl

/--
What access above `o` and access to `o` come to for a key that `o` does not own: to the same, unless
the link of `o` strays, where they fail in different ways.
-/
structure AgreesAbove (call : Caller σ) (r : Realm σ) (o : ObjectId) (key v receiver : Value)
    (strict : Bool) : Prop where
  get : r.heap.strayLink? o = none →
    superGet call (.object o) key receiver r = getProperty call (.object o) key receiver r
  set : r.heap.strayLink? o = none →
    superSetProperty call (.object o) key v receiver strict r =
      setProperty call (.object o) key v receiver strict r
  setByPolicy : r.heap.strayLink? o = none →
    superSetByPolicy call (.object o) key v receiver r =
      Realm.setByPolicy call (.object o) key v receiver r
  strayAbove : r.heap.strayLink? o ≠ none →
    superGet call (.object o) key receiver r = .error (r.strayFailure o) r ∧
      superSetProperty call (.object o) key v receiver strict r = .error (r.strayFailure o) r ∧
      superSetByPolicy call (.object o) key v receiver r = .error (r.strayFailure o) r
  stray : r.heap.strayLink? o ≠ none →
    getProperty call (.object o) key receiver r = (requireKey key >>= fun _ => throw .notRecord) r ∧
      setProperty call (.object o) key v receiver strict r =
        (requireKey key >>= fun _ => throw .notRecord) r ∧
      Realm.setByPolicy call (.object o) key v receiver r =
        (requireKey key >>= fun _ => throw .notRecord) r

theorem agreesAbove_of_settled (call : Caller σ) (hset : r.heap.Settled) (ho : o < r.heap.size)
    (hown : ∀ k, key.key? = some k → (r.heap.table o).lookup k = none)
    (hreceiver : receiver ≠ .none) (v : Value) (strict : Bool) :
    r.AgreesAbove call o key v receiver strict := by
  -- a refused key and a stray link both end an assignment before it can be settled
  have hfails {α : Type} (settle : Option ModelError → RealmM σ α)
      (hlink : r.heap.strayLink? o ≠ none) :
      (assign call (.object o) key v receiver >>= settle) r =
        (requireKey key >>= fun _ => throw .notRecord) r := by
    rw [bind_run, assign_run ho, ← bind_run, bind_assoc]
    refine requireKey_bind_congr fun k hkey => ?_
    rw [bind_run, write, bind_run, find_of_strayLink hset ho hlink (hown k hkey)]
    rfl
  constructor
  · exact fun hlink => superGet_eq_getProperty hset ho hlink hown hreceiver
  · intro hlink
    rw [superSetProperty, setProperty, bind_run, bind_run,
      superAssign_eq_assign hset ho hlink hown hreceiver]
  · intro hlink
    rw [superSetByPolicy, Realm.setByPolicy, bind_run, bind_run,
      superAssign_eq_assign hset ho hlink hown hreceiver]
  · intro hlink
    have hassign : superAssign call (.object o) key v receiver r = .error (r.strayFailure o) r :=
      superAssign_of_strayLink ho hlink
    exact ⟨superGet_of_strayLink ho hlink, bind_error hassign, bind_error hassign⟩
  · intro hlink
    refine ⟨?_, hfails _ hlink, hfails _ hlink⟩
    rw [getProperty_run ho]
    refine requireKey_bind_congr fun k hkey => ?_
    rw [read, bind_run, find_of_strayLink hset ho hlink (hown k hkey)]
    rfl

inductive AssigningAbove (r : Realm σ) (o : ObjectId) (k : String) (v target : Value) :
    EStateM.Result Failure (Realm σ) (Option ModelError) → Prop
  | stray (hstray : r.heap.StraysAbove o k) :
    AssigningAbove r o k v target (.error (r.strayFailure o) r)
  | unset (hstray : ¬ r.heap.StraysAbove o k) :
    AssigningAbove r o k v target (.ok (some (.noSetter k)) r)
  | own (hstray : ¬ r.heap.StraysAbove o k) :
    AssigningAbove r o k v target (writeOwn target k v r)

theorem assigningAbove_assign (hset : r.heap.Settled) (ho : o < r.heap.size)
    (hp : r.heap.prototype o = some p) (hkey : key.key? = some k)
    (hsetter : r.heap.setter? (some p) k = none) (hreceiver : receiver ≠ .none) :
    r.AssigningAbove o k v receiver (assign call (.object p) key v receiver r) := by
  have hlink := Heap.strayLink?_of_prototype hp
  have hend : r.heap.strayEnd? (some o) = r.heap.strayEnd? (some p) := by
    rw [hset.strayEnd?_eq ho, hlink, hp, Option.none_or]
  simp only [assign_run (hset.prototype_lt ho hp), bind_run, requireKey_run, hkey,
    receiverOr_of_ne hreceiver, write_run]
  rw [Heap.setter?] at hsetter
  cases hfound : r.heap.findProperty (some p) k with
  | none =>
    cases hstray : r.heap.strayEnd? (some p) with
    | some stray =>
      rw [← strayFailure_of_linked hlink]
      refine .stray ⟨hp ▸ hfound, ?_⟩
      rw [hend, hstray]
      rfl
    | none =>
      refine .own fun h => ?_
      have hsome := h.2
      rw [hend, hstray] at hsome
      cases hsome
  | some found =>
    have hstray : ¬ r.heap.StraysAbove o k := by
      rintro ⟨hnone, -⟩
      rw [hp, hfound] at hnone
      cases hnone
    obtain ⟨holder, slot, enumerable, configurable⟩ := found
    cases slot with
    | value => exact .own hstray
    | accessor get set =>
      rw [hfound] at hsetter
      obtain rfl : set = none := hsetter
      exact .unset hstray

theorem assigningAbove_superAssign (hset : r.heap.Settled) (ho : o < r.heap.size)
    (hkey : key.key? = some k) (hsetter : r.heap.setter? (r.heap.prototype o) k = none)
    (hreceiver : receiver ≠ .none ∨ r.heap.prototype o = none) :
    r.AssigningAbove o k v receiver (superAssign call (.object o) key v receiver r) := by
  cases hlink : r.heap.strayLink? o with
  | some stray =>
    have hstray : r.heap.strayLink? o ≠ none := by rw [hlink]; nofun
    rw [superAssign_of_strayLink ho hstray]
    refine .stray ⟨?_, ?_⟩
    · rw [prototype_of_strayLink hstray, Heap.findProperty_eq_firstOwner, Heap.chain_none]
      rfl
    · rw [hset.strayEnd?_eq ho, hlink]
      rfl
  | none =>
    cases hp : r.heap.prototype o with
    | some p =>
      rw [hp] at hsetter
      rw [superAssign_run ho, Heap.link_of_prototype hp]
      refine assigningAbove_assign hset ho hp hkey hsetter ?_
      exact hreceiver.resolve_right (by rw [hp]; nofun)
    | none =>
      have hroot : r.heap.link o = .none := by rw [← Heap.ofLink_prototype hlink, hp]; rfl
      have hrun : (requireKey key >>= fun k => writeOwn receiver k v) r = writeOwn receiver k v r :=
        bind_ok (by rw [requireKey_run, hkey])
      rw [superAssign_run ho, hroot]
      show r.AssigningAbove o k v receiver ((requireKey key >>= fun k => writeOwn receiver k v) r)
      rw [hrun]
      refine .own fun h => ?_
      have hsome := h.2
      rw [hset.strayEnd?_eq ho, hlink, hp, Heap.strayEnd?, Heap.chain_none] at hsome
      cases hsome

/--
What comes of an assignment above `o` that runs no setter, where `target` is the receiver: no other
record changes, and what is no record is refused.
-/
structure AssignsAbove (r : Realm σ) (o : ObjectId) (k : String) (target : Value) (strict : Bool)
    (m : RealmM σ Bool) : Prop where
  other_record : ∀ y, target ≠ .object y →
    (ending (m r)).heap.records[y]? = r.heap.records[y]?
  epoch : (ending (m r)).heap.epoch = r.heap.epoch
  dropped : r.heap.object? target = none → ¬ r.heap.StraysAbove o k → strict = false →
    ∃ r', m r = .ok false r' ∧ r'.heap = r.heap
  raised : r.heap.object? target = none → ¬ r.heap.StraysAbove o k → strict = true →
    ∃ error : ModelError, m r = .error (.model error) r ∧
      (error.kind = .type ∨ error.kind = .readOnly)
  stray : r.heap.StraysAbove o k → m r = .error (r.strayFailure o) r

theorem AssignsAbove.of_error {m : RealmM σ Bool} {failure : Failure} (hm : m r = .error failure r)
    (hrecord : r.heap.object? target = none → r.heap.StraysAbove o k)
    (hstray : r.heap.StraysAbove o k → failure = r.strayFailure o) :
    r.AssignsAbove o k target strict m := by
  constructor
  · intro y _
    rw [hm]
    rfl
  · rw [hm]
    rfl
  · exact fun hnone h => absurd (hrecord hnone) h
  · exact fun hnone h => absurd (hrecord hnone) h
  · exact fun h => hstray h ▸ hm

theorem AssignsAbove.of_refused {m : RealmM σ Bool} {settle : Option ModelError → RealmM σ Bool}
    (hsettle : Settling strict settle r) {error : ModelError} (hm : m r = settle (some error) r)
    (hstray : ¬ r.heap.StraysAbove o k)
    (hkind : r.heap.object? target = none → error.kind = .type ∨ error.kind = .readOnly) :
    r.AssignsAbove o k target strict m := by
  have hheap : (ending (m r)).heap = r.heap := hm ▸ hsettle.heap_eq error
  constructor
  · intro y _
    rw [hheap]
  · rw [hheap]
  · intro _ _ hlenient
    rw [hm]
    exact hsettle.dropped error hlenient
  · intro hnone _ hstrict
    exact ⟨error, hm.trans (hsettle.raised error hstrict), hkind hnone⟩
  · exact fun h => absurd h hstray

theorem AssignsAbove.of_own {m : RealmM σ Bool} {settle : Option ModelError → RealmM σ Bool}
    (hsettle : Settling strict settle r) (hm : m r = (writeOwn target k v >>= settle) r)
    (hstray : ¬ r.heap.StraysAbove o k) : r.AssignsAbove o k target strict m := by
  have hwrite := writeOwn_run target k v r
  cases hx : r.heap.object? target with
  | none =>
    rw [hx] at hwrite
    exact .of_refused hsettle (hm.trans (bind_ok hwrite)) hstray fun _ => .inl rfl
  | some x =>
    obtain ⟨rfl, -⟩ := Heap.object?_eq_some hx
    rw [hx] at hwrite
    dsimp only at hwrite
    split at hwrite
    · exact .of_refused hsettle (hm.trans (bind_ok hwrite)) hstray fun h => nomatch hx.symm.trans h
    · rw [bind_run, define_run] at hwrite
      cases hrefusal : (r.heap.table x).refusal? r.pool.equal k ((r.heap.table x).assigned k v) with
      | some error =>
        rw [hrefusal] at hwrite
        exact .of_error (hm.trans (bind_error hwrite)) (fun h => nomatch hx.symm.trans h)
          fun h => absurd h hstray
      | none =>
        rw [hrefusal] at hwrite
        have hdone := (hm.trans (bind_ok hwrite)).trans (hsettle.done _)
        constructor
        · intro y hy
          have hne : x ≠ y := fun heq => hy (heq ▸ rfl)
          rw [hdone]
          simp [ending, Heap.apply, Heap.updateTable, Array.getElem?_modify, hne]
        · rw [hdone]
          rfl
        · exact fun h => nomatch hx.symm.trans h
        · exact fun h => nomatch hx.symm.trans h
        · exact fun h => absurd h hstray

theorem AssigningAbove.settled {m : RealmM σ (Option ModelError)}
    {settle : Option ModelError → RealmM σ Bool} (hm : r.AssigningAbove o k v target (m r))
    (hsettle : Settling strict settle r) : r.AssignsAbove o k target strict (m >>= settle) := by
  generalize hrun : m r = result at hm
  cases hm with
  | stray hstray => exact .of_error (bind_error hrun) (fun _ => hstray) fun _ => rfl
  | unset hstray => exact .of_refused hsettle (bind_ok hrun) hstray fun _ => .inr rfl
  | own hstray =>
    refine .of_own (v := v) hsettle ?_ hstray
    rw [bind_run, bind_run, hrun]

theorem superAssign_none (ho : o < r.heap.size) (hp : r.heap.prototype o = some p) :
    superAssign call (.object o) key v .none r =
      assign call (.object p) key v (.object p) r := by
  rw [superAssign_run ho, Heap.link_of_prototype hp]
  rfl

end Realm

end ObjectModel
