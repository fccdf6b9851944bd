import ObjectModel.Proofs.Heap.Shadowing
import ObjectModel.Proofs.Steps.Basic

/-!
What is done to the own properties of one object.
-/

namespace ObjectModel.Realm

variable {σ : Type} {T : Terms σ} {r : Realm σ} {o : ObjectId} {key : String}

theorem steps_define {d : Descriptor} (h : T.permits (.changed (.define o key d)))
    (hd : T.closed → d.Within r.heap.size) : Steps T Plain (define o key d) r := by
  unfold define
  refine .inspect' ?_ fun _ => rfl
  refine .after (reads_tableOf o) fun t ht => ?_
  cases ht
  refine .after (reads_refuse _) fun _ hrefuse => ?_
  cases hrefusal : (r.heap.table o).refusal? r.pool.equal key d with
  | some error =>
    rw [hrefusal] at hrefuse
    cases hrefuse
  | none => exact .rewrite ⟨r.pool, hrefusal⟩ id h hd

theorem steps_install (hwrites : T.Writes) (key : String) (descriptor : Value)
    (ho : o < r.heap.size) : Steps T Plain (install o key descriptor) r := by
  refine .inClosed fun hclosed => ?_
  unfold install
  refine .after (reads_requireDescriptor _) fun found hfound => ?_
  obtain ⟨-, hid⟩ := requireDescriptor_eq_ok hfound
  have hd : T.closed → found.2.Within r.heap.size := fun hT => (hclosed hT).pool.descriptor? hid
  refine .bind (steps_define (hwrites _ trivial) hd) fun _ r' hdefine _ => ?_
  obtain ⟨hheap, hpool⟩ := define_eq_ok hdefine
  refine .note (d := found.2) ?_ ?_
  · rw [hpool, hid]
  · rw [hheap, Heap.lookup_define ho, if_pos ⟨rfl, rfl⟩]

theorem steps_remove (hremoves : T.Removes) (o : ObjectId) (key : String) :
    Steps T Plain (remove o key) r := by
  unfold remove
  refine .after (reads_tableOf o) fun t ht => ?_
  cases ht
  split
  · next hremovable =>
    rw [← bind_assoc]
    exact .map (.rewrite hremovable id (hremoves _ trivial) fun _ => trivial)
      fun _ _ _ => trivial
  · exact .pure fun _ => trivial

theorem reads_inherits (o : ObjectId) (key : String) : Reads T (inherits o key) r := by
  unfold inherits
  refine .bind reads_readHeap fun h _ => ?_
  split
  · exact .pure _
  · exact .bind (reads_requireEnd _) fun _ _ => .pure _

theorem steps_removeOwn (hremoves : T.Removes) (o : ObjectId) (key : String) :
    Steps T Plain (removeOwn o key) r := by
  unfold removeOwn
  refine .after (reads_tableOf o) fun t _ => ?_
  split
  · exact steps_remove hremoves _ _
  · exact (reads_inherits _ _).steps

theorem steps_lookup (hmints : T.mints) (o : ObjectId) (key : String) :
    Steps T Value.Within (lookup o key) r := by
  unfold lookup
  refine .after (reads_tableOf o) fun t ht => ?_
  cases ht
  split
  · next hd => exact steps_describe hmints hd
  · exact .pure fun _ => trivial

theorem steps_newKeyList (hmints : T.mints) (keys : List String) :
    Steps T Value.Within (newKeyList keys) r := by
  refine steps_newList hmints fun _ v hv => ?_
  obtain ⟨key, -, rfl⟩ := List.mem_map.1 hv
  trivial

theorem steps_defineOwn (hwrites : T.Writes) (obj key descriptor : Value) :
    Steps T Plain (defineOwn obj key descriptor) r := by
  unfold defineOwn
  refine .after (reads_requireObject _ _) fun o ho => ?_
  have ho := (Heap.object?_eq_some (requireObject_eq_ok ho).2).2
  refine .after (reads_requireKey _) fun key _ => ?_
  refine .bind (steps_install hwrites _ _ ho) fun _ r₁ _ _ => ?_
  refine .after (reads_display _) fun _ _ => .after (reads_display _) fun _ _ => ?_
  exact .emit trivial trivial id (fun _ => hwrites _ trivial) fun _ => trivial

theorem steps_deleteOwn (hremoves : T.Removes) (obj key : Value) :
    Steps T Plain (deleteOwn obj key) r := by
  unfold deleteOwn
  refine .after (reads_requireObject _ _) fun o _ => ?_
  exact .after (reads_requireKey _) fun key _ => steps_removeOwn hremoves _ _

theorem reads_hasOwn (obj key : Value) : Reads T (hasOwn obj key) r := by
  unfold hasOwn
  refine .bind (reads_requireObject _ _) fun o _ => ?_
  exact .bind (reads_requireKey _) fun key _ => .map (reads_tableOf _)

theorem steps_readOwn (hmints : T.mints) (obj key : Value) :
    Steps T Value.Within (readOwn obj key) r := by
  unfold readOwn
  refine .after (reads_requireObject _ _) fun o _ => ?_
  exact .after (reads_requireKey _) fun key _ => steps_lookup hmints _ _

theorem reads_ownKeys (obj : Value) : Reads T (ownKeys obj) r :=
  .bind (reads_requireObject _ _) fun _ _ => .map (reads_tableOf _)

theorem reads_enumerableKeys (obj : Value) : Reads T (enumerableKeys obj) r :=
  .bind (reads_requireObject _ _) fun _ _ => .map (reads_tableOf _)

theorem reads_isExtensible (obj : Value) : Reads T (isExtensible obj) r :=
  .bind (reads_requireObject _ _) fun _ _ => .map (reads_tableOf _)

theorem steps_preventExtensions (hwrites : T.Writes) (obj : Value) :
    Steps T Plain (preventExtensions obj) r := by
  unfold preventExtensions
  refine .after (reads_requireObject _ _) fun o _ => ?_
  exact .emit trivial trivial id (fun _ => hwrites _ trivial) fun _ => trivial

theorem steps_freeze (hwrites : T.Writes) (obj : Value) : Steps T Plain (freeze obj) r := by
  unfold freeze
  refine .after (reads_requireObject _ _) fun o _ => ?_
  exact .rewrite trivial id (hwrites _ trivial) fun _ => trivial

end ObjectModel.Realm
