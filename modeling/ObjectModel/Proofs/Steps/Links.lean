import ObjectModel.Proofs.Steps.Basic

/-!
Allocation and prototype links.
-/

namespace ObjectModel.Realm

variable {σ : Type} {T : Terms σ} {r : Realm σ}

theorem steps_allocate {link : Value} {c? : Option Constructor} {counted : Bool}
    (hlink : counted = true → link = .none ∨ (r.heap.object? link).isSome)
    (hin : T.closed → link.Within r.heap.size ∧ ∀ c ∈ c?, c.Within r.heap.size) :
    Steps T Known (allocate link c? counted) r := by
  unfold allocate
  refine .bind (.emit hlink trivial id (fun h => (h trivial).elim) hin) fun _ r' hrun _ => ?_
  have hsize : 0 < r'.heap.size := by
    cases hrun
    show 0 < (r.heap.apply (.allocate link c? counted)).size
    rw [Heap.size_allocate]
    exact Nat.succ_pos _
  refine .after reads_readHeap fun h hrun => ?_
  cases hrun
  exact .pure fun _ => Nat.sub_lt hsize Nat.one_pos

theorem steps_createObject (prototype : Value) : Steps T Known (createObject prototype) r := by
  unfold createObject
  refine .after (reads_requirePrototype _) fun link hlink => ?_
  obtain ⟨-, hlt⟩ := requirePrototype_eq_ok hlink
  exact steps_allocate (fun _ => Heap.object?_ofLink hlt)
    fun _ => ⟨Value.within_ofLink hlt, fun _ h => nomatch h⟩

theorem steps_bareObject {link : Value} (hlink : T.closed → link.Within r.heap.size) :
    Steps T Known (bareObject link) r :=
  steps_allocate nofun fun hT => ⟨hlink hT, fun _ h => nomatch h⟩

theorem steps_getPrototype (h : T.fails .notRecord) (obj : Value) :
    Steps T Value.Within (getPrototype obj) r := by
  refine .inClosed fun hclosed => ?_
  unfold getPrototype
  refine .after (reads_assumeObject h _) fun o _ => ?_
  refine .after reads_readHeap fun h hrun => ?_
  cases hrun
  exact .pure fun hT => (hclosed hT).heap.link o

theorem steps_relink (hrelinks : T.Relinks) {o : ObjectId} {prototype : Option ObjectId}
    (ho : o < r.heap.size) (hp : ∀ p ∈ prototype, p < r.heap.size) :
    Steps T Plain (relink o prototype) r := by
  unfold relink
  refine .after reads_readHeap fun h hrun => ?_
  cases hrun
  split
  · exact .pure fun _ => trivial
  · next hchange =>
    split
    · exact .fail _ _
    · next hext =>
      refine .after (reads_display _) fun shown _ => ?_
      split
      · exact .bind (.log rfl) fun _ _ _ _ => .fail _ _
      · next hreach =>
        refine .after (reads_requireEnd _) fun _ hend => ?_
        exact .relinked _ ⟨ho, hp, hchange, by simpa using hext, by simpa using hreach,
          requireEnd_eq_ok hend⟩ hrelinks

theorem steps_setPrototype (hrelinks : T.Relinks) (obj prototype : Value) :
    Steps T Plain (setPrototype obj prototype) r := by
  unfold setPrototype
  refine .after (reads_requireObject _ _) fun o ho => ?_
  refine .after (reads_requirePrototype _) fun p hp => ?_
  exact steps_relink hrelinks (Heap.object?_eq_some (requireObject_eq_ok ho).2).2
    (requirePrototype_eq_ok hp).2

theorem reads_isAbove (ancestor : Value) (o : ObjectId) : Reads T (isAbove ancestor o) r := by
  unfold isAbove
  refine .bind reads_readHeap fun h _ => ?_
  split
  · exact .pure _
  · exact .bind (reads_requireEnd _) fun _ _ => .pure _

theorem reads_isPrototypeOf (ancestor obj : Value) : Reads T (isPrototypeOf ancestor obj) r := by
  unfold isPrototypeOf
  refine .bind (reads_object? _) fun o? _ => ?_
  split
  · exact reads_isAbove _ _
  · exact .pure _

end ObjectModel.Realm
