import ObjectModel.Proofs.Steps.Own
import ObjectModel.Realm.Policy

/-!
Reading and writing along the chain, and the policy of the realm.
-/

namespace ObjectModel.Realm

variable {σ : Type} {T : Terms σ} {r : Realm σ}

theorem within_receiverOr {n : Nat} {receiver obj : Value} (hreceiver : receiver.Within n)
    (hobj : obj.Within n) : (receiverOr receiver obj).Within n := by
  unfold receiverOr
  split
  · exact hobj
  · exact hreceiver

theorem steps_callValue {f this : Value} {args : List Value}
    (hf : (∀ name, f ≠ .function name) → r.heap.Uncallable)
    (hin : T.closed → this.Within r.heap.size ∧ ∀ v ∈ args, v.Within r.heap.size) :
    Steps T Value.Within (callValue T.call f this args) r := by
  unfold callValue
  split
  · exact .call _ hin
  · next hne => exact .uncallable (hf hne)

theorem steps_read (start : ObjectId) (key : String) {receiver : Value}
    (hreceiver : T.closed → receiver.Within r.heap.size) :
    Steps T Value.Within (read T.call start key receiver) r := by
  refine .inClosed fun hclosed => ?_
  unfold read
  refine .after (reads_find _ _) fun found hfind => ?_
  cases found with
  | none => exact .pure fun _ => trivial
  | some found =>
    obtain ⟨o, slot, enumerable, configurable⟩ := found
    have hd := Heap.lookup_of_findProperty (find_eq_ok_some hfind).2
    cases slot with
    | value v writable =>
      exact .pure fun hT => (Descriptor.within_value.1 ((hclosed hT).heap.table hd)).1
    | accessor get set =>
      cases get with
      | none => exact .pure fun _ => trivial
      | some getter =>
        exact steps_callValue (.getter hd rfl) fun hT => ⟨hreceiver hT, List.forall_mem_nil _⟩

theorem steps_getProperty {obj receiver : Value} (key : Value)
    (hin : T.closed → obj.Within r.heap.size ∧ receiver.Within r.heap.size) :
    Steps T Value.Within (getProperty T.call obj key receiver) r := by
  unfold getProperty
  refine .after (reads_requireObject _ _) fun o _ => .after (reads_requireKey _) fun key _ => ?_
  exact steps_read _ _ fun hT => within_receiverOr (hin hT).2 (hin hT).1

theorem steps_superGet (home key : Value) {receiver : Value}
    (hreceiver : T.closed → receiver.Within r.heap.size) :
    Steps T Value.Within (superGet T.call home key receiver) r := by
  refine .inClosed fun hclosed => ?_
  unfold superGet
  refine .after (reads_requireObject _ _) fun o _ => .after reads_readHeap fun h hrun => ?_
  cases hrun
  split
  · exact .after (reads_requireKey _) fun _ _ => .pure fun _ => trivial
  · exact steps_getProperty _ fun hT => ⟨(hclosed hT).heap.link o, hreceiver hT⟩

theorem reads_hasProperty (obj key : Value) : Reads T (hasProperty obj key) r := by
  unfold hasProperty
  refine .bind (reads_requireObject _ _) fun o _ => ?_
  exact .bind (reads_requireKey _) fun key _ => .map (reads_find _ _)

theorem steps_callMethod {obj receiver : Value} {args : List Value} (key : Value)
    (hin : T.closed → obj.Within r.heap.size ∧ receiver.Within r.heap.size ∧
      ∀ v ∈ args, v.Within r.heap.size) :
    Steps T Value.Within (callMethod T.call obj key receiver args) r := by
  have hthis (hT : T.closed) : (receiverOr receiver obj).Within r.heap.size :=
    within_receiverOr (hin hT).2.1 (hin hT).1
  unfold callMethod
  refine .bind (steps_getProperty _ fun hT => ⟨(hin hT).1, hthis hT⟩) fun f r₁ _ h₁ => ?_
  split
  · exact .call _ fun hT => ⟨(hthis hT).mono (h₁ hT).1,
      fun v hv => ((hin hT).2.2 v hv).mono (h₁ hT).1⟩
  · exact .after (reads_requireKey _) fun _ _ => .fail _ _

section Writing

variable (hwrites : T.Writes)
include hwrites

theorem steps_writeOwn (receiver : Value) (key : String) {v : Value}
    (hv : T.closed → v.Within r.heap.size) : Steps T Plain (writeOwn receiver key v) r := by
  refine .inClosed fun hclosed => ?_
  have hdefine (o : ObjectId) {d : Descriptor} (hd : T.closed → d.Within r.heap.size) :
      Steps T Plain (define o key d >>= fun _ => pure (none : Option ModelError)) r :=
    .map (steps_define (hwrites _ trivial) hd) fun _ _ _ => trivial
  unfold writeOwn
  refine .after (reads_object? _) fun o? _ => ?_
  split
  · exact .after (reads_display _) fun _ _ => .pure fun _ => trivial
  · refine .after (reads_tableOf _) fun t ht => ?_
    cases ht
    split
    · split
      · exact hdefine _ fun hT => Descriptor.within_ofValue (hv hT)
      · exact .pure fun _ => trivial
    · next hd =>
      split
      · refine hdefine _ fun hT => Descriptor.within_value.2 ⟨hv hT, ?_⟩
        exact (Descriptor.within_value.1 ((hclosed hT).heap.table hd)).2
      · exact .pure fun _ => trivial
    · exact .pure fun _ => trivial

theorem steps_write (start : ObjectId) (key : String) {v receiver : Value}
    (hin : T.closed → v.Within r.heap.size ∧ receiver.Within r.heap.size) :
    Steps T Plain (write T.call start key v receiver) r := by
  unfold write
  refine .after (reads_find _ _) fun found hfind => ?_
  split
  · exact .pure fun _ => trivial
  · have hd := Heap.lookup_of_findProperty (find_eq_ok_some hfind).2
    exact .map (steps_callValue (.setter hd rfl)
      fun hT => ⟨(hin hT).2, List.forall_mem_singleton.2 (hin hT).1⟩) fun _ _ _ => trivial
  · exact steps_writeOwn hwrites _ _ fun hT => (hin hT).1

theorem steps_assign {obj v receiver : Value} (key : Value)
    (hin : T.closed → obj.Within r.heap.size ∧ v.Within r.heap.size ∧
      receiver.Within r.heap.size) :
    Steps T Plain (assign T.call obj key v receiver) r := by
  unfold assign
  refine .after (reads_requireObject _ _) fun o _ => .after (reads_requireKey _) fun key _ => ?_
  exact steps_write hwrites _ _ fun hT =>
    ⟨(hin hT).2.1, within_receiverOr (hin hT).2.2 (hin hT).1⟩

theorem steps_superAssign (home key : Value) {v receiver : Value}
    (hin : T.closed → v.Within r.heap.size ∧ receiver.Within r.heap.size) :
    Steps T Plain (superAssign T.call home key v receiver) r := by
  refine .inClosed fun hclosed => ?_
  unfold superAssign
  refine .after (reads_requireObject _ _) fun o _ => .after reads_readHeap fun h hrun => ?_
  cases hrun
  split
  · exact .after (reads_requireKey _) fun key _ => steps_writeOwn hwrites _ _ fun hT => (hin hT).1
  · exact steps_assign hwrites _ fun hT => ⟨(hclosed hT).heap.link o, hin hT⟩

end Writing

theorem steps_settle (strict : Bool) (refusal : Option ModelError) :
    Steps T Plain (settle strict refusal) r := by
  unfold settle
  split
  · exact .pure fun _ => trivial
  · split
    · exact .fail _ _
    · exact .map (.log rfl) fun _ _ _ => trivial

theorem steps_delete (hremoves : T.Removes) (obj key : Value) :
    Steps T Plain (delete obj key) r := by
  unfold delete
  refine .after (reads_requireObject _ _) fun o _ => .after (reads_requireKey _) fun key _ => ?_
  refine .after (reads_tableOf _) fun t _ => ?_
  split
  · exact .pure fun _ => trivial
  · exact .map (steps_removeOwn hremoves _ _) fun _ _ _ => trivial

theorem reads_settleDeletion (strict : Bool) (outcome : Except ModelError Bool) :
    Reads T (settleDeletion strict outcome) r := by
  unfold settleDeletion
  split
  · exact .pure _
  · split
    · exact .fail _
    · exact .pure _

theorem steps_condone (strict : Bool) (error : ModelError) :
    Steps T Plain (condone strict error) r := by
  unfold condone
  split
  · exact .pure fun _ => trivial
  · exact .emit trivial trivial id (fun h => (h trivial).elim) fun _ => trivial

theorem settleByPolicy_refused (hstrict : r.strict = .bool false) (error : ModelError) :
    settleByPolicy (some error) r = .ok false { r with
      trace := (r.trace.push (.condoned error)).push (.logged (.writeDropped error.message)) } := by
  have htruthy : r.pool.truthy r.strict = false := by
    rw [hstrict]
    rfl
  show (condone (r.pool.truthy r.strict) error >>= fun _ =>
    settle (r.pool.truthy r.strict) (some error)) r = _
  rw [htruthy]
  rfl

theorem steps_settleByPolicy (refusal : Option ModelError) :
    Steps T Plain (settleByPolicy refusal) r := by
  show Steps T Plain (get >>= fun r => truthy r.strict >>= fun strict =>
    refusal.forM (condone strict) >>= fun _ => settle strict refusal) r
  refine .inspect ?_ (.inr ?_)
  · refine .after (reads_truthy _) fun strict _ => ?_
    refine .bind (P := Plain) ?_ fun _ _ _ _ => steps_settle _ _
    cases refusal with
    | none => exact .pure fun _ => trivial
    | some error => exact steps_condone _ _
  · cases refusal with
    | none => exact .inl fun v => rfl
    | some error =>
      refine .inr fun hstrict => ⟨error, ?_⟩
      show .condoned error ∈ (ending (settleByPolicy (some error) r)).trace.toList
      rw [settleByPolicy_refused hstrict]
      simp [ending]

theorem steps_setByPolicy (hwrites : T.Writes) {obj v receiver : Value} (key : Value)
    (hin : T.closed → obj.Within r.heap.size ∧ v.Within r.heap.size ∧
      receiver.Within r.heap.size) :
    Steps T Plain (setByPolicy T.call obj key v receiver) r :=
  .bind (steps_assign hwrites _ hin) fun _ _ _ _ => steps_settleByPolicy _

theorem steps_deleteByPolicy (hremoves : T.Removes) (obj key : Value) :
    Steps T Plain (deleteByPolicy obj key) r := by
  unfold deleteByPolicy
  refine .bind (steps_delete hremoves _ _) fun outcome r₁ _ _ => ?_
  cases outcome with
  | ok gone =>
    show Steps T Plain (get >>= fun r => truthy r.strict >>= fun strict =>
      settleDeletion strict (.ok gone)) r₁
    refine .inspect' ?_ fun _ => rfl
    exact .after (reads_truthy _) fun _ _ => (reads_settleDeletion _ _).steps
  | error error =>
    show Steps T Plain (get >>= fun r => truthy r.strict >>= fun strict =>
      condone strict error >>= fun _ => settleDeletion strict (.error error)) r₁
    refine .inspect ?_ (.inr (.inr fun hstrict => ⟨error, ?_⟩))
    · refine .after (reads_truthy _) fun strict _ => ?_
      exact .bind (steps_condone _ _) fun _ _ _ _ => (reads_settleDeletion _ _).steps
    · rw [hstrict]
      show Event.condoned error ∈ (r₁.trace.push (.condoned error)).toList
      simp

end ObjectModel.Realm
