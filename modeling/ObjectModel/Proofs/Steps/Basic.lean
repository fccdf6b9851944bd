import ObjectModel.Proofs.Heap.Order
import ObjectModel.Proofs.Realm.Equations
import ObjectModel.Proofs.Steps.Relation

/-!
Readings and checks, and what is made new in the pool.
-/

namespace ObjectModel.Realm

variable {σ α : Type} {T : Terms σ} {r : Realm σ}

theorem reads_readHeap : Reads T readHeap r :=
  .get fun _ => rfl

theorem reads_tableOf (o : ObjectId) : Reads T (tableOf o) r :=
  .map reads_readHeap

theorem reads_truthy (v : Value) : Reads T (truthy v) r :=
  .get fun _ => rfl

theorem reads_display (v : Value) : Reads T (display v) r :=
  .get fun _ => rfl

theorem reads_object? (v : Value) : Reads T (object? v) r :=
  .map reads_readHeap

theorem reads_constructor? (v : Value) : Reads T (constructor? v) r :=
  .map reads_readHeap

theorem reads_requireEnd (start : Option ObjectId) : Reads T (requireEnd start) r := by
  unfold requireEnd
  refine .bind reads_readHeap fun h hrun => ?_
  cases hrun
  split
  · next v hend =>
    obtain ⟨o, hstray⟩ := Heap.exists_strayLink?_of_strayEnd? hend
    exact .stray hstray
  · exact .pure _

theorem reads_find (start : Option ObjectId) (key : String) : Reads T (find start key) r := by
  unfold find
  refine .bind reads_readHeap fun h _ => ?_
  split
  · exact .pure _
  · exact .bind (reads_requireEnd _) fun _ _ => .pure _

theorem reads_refuse (error? : Option ModelError) : Reads T (refuse error?) r := by
  cases error? with
  | none => exact .pure _
  | some error => exact .fail _

theorem reads_refusal (v : Value) (error : String → ModelError) :
    Reads T (do fail (error (← display v)) : RealmM σ α) r :=
  .bind (reads_display v) fun _ _ => .fail _

theorem reads_requireObject (v : Value) (what : String) : Reads T (requireObject v what) r := by
  unfold requireObject
  refine .bind (reads_object? v) fun o? _ => ?_
  split
  · exact .pure _
  · exact reads_refusal _ (.notObject what)

theorem reads_requirePrototype (v : Value) : Reads T (requirePrototype v) r := by
  unfold requirePrototype
  refine .bind (reads_object? v) fun o? _ => ?_
  split
  · exact .pure _
  · exact .pure _
  · exact reads_refusal _ .badPrototype

theorem reads_requireConstructor (v : Value) : Reads T (requireConstructor v) r := by
  unfold requireConstructor
  refine .bind (reads_constructor? v) fun found _ => ?_
  split
  · exact .pure _
  · exact reads_refusal _ .notConstructor

theorem reads_requireKey (v : Value) : Reads T (requireKey v) r := by
  unfold requireKey
  split
  · exact .pure _
  · exact reads_refusal _ .invalidKey

theorem reads_requireDescriptor (v : Value) : Reads T (requireDescriptor v) r := by
  unfold requireDescriptor
  refine .inspect ?_ fun _ => rfl
  dsimp only
  split
  · exact .pure _
  · exact reads_refusal _ .notDescriptor

theorem reads_assumeObject (h : T.fails .notRecord) (v : Value) : Reads T (assumeObject v) r := by
  unfold assumeObject
  refine .bind (reads_object? v) fun o? _ => ?_
  split
  · exact .pure _
  · exact .throw h

theorem reads_assumeLink (h : T.fails .notRecord) (v : Value) : Reads T (assumeLink v) r := by
  unfold assumeLink
  split
  · exact .pure _
  · exact .map (reads_assumeObject h _)

section Making

variable (hmints : T.mints)
include hmints

theorem steps_newList {items : List Value}
    (hitems : T.closed → ∀ v ∈ items, v.Within r.heap.size) :
    Steps T Value.Within (newList items) r :=
  .bind (.extendPool hmints (r.pool.extends_addList items) fun hT hp => hp.addList (hitems hT))
    fun _ _ _ _ => .get (fun _ => trivial) fun _ => rfl

theorem steps_newFloat (x : Binary64) : Steps T Value.Within (newFloat x) r :=
  .bind (.extendPool hmints r.pool.extends_addFloat fun _ hp => hp.addFloat)
    fun _ _ _ _ => .get (fun _ => trivial) fun _ => rfl

theorem steps_newDict : Steps T Plain newDict r :=
  .bind (.extendPool hmints (r.pool.extends_addDict []) fun _ hp =>
      hp.addDict (List.forall_mem_nil _))
    fun _ _ _ _ => .get (fun _ => trivial) fun _ => rfl

theorem steps_fillDict (id : Nat) {entries : List (Value × Value)}
    (hentries : T.closed → ∀ entry ∈ entries,
      entry.1.Within r.heap.size ∧ entry.2.Within r.heap.size) :
    Steps T Plain (fillDict id entries) r :=
  .extendPool hmints (r.pool.extends_fillDict id entries) fun hT hp => hp.fillDict id (hentries hT)

theorem steps_newDescriptor {d : Descriptor} (hd : T.closed → d.Within r.heap.size) :
    Steps T Plain (newDescriptor d) r :=
  .bind (.extendPool hmints (r.pool.extends_addDescriptor d) fun hT hp => hp.addDescriptor (hd hT))
    fun _ _ _ _ => .get (fun _ => trivial) fun _ => rfl

theorem steps_describe {o : ObjectId} {key : String} {d : Descriptor}
    (hd : (r.heap.table o).lookup key = some d) : Steps T Value.Within (describe o key d) r := by
  refine .inClosed fun hclosed => ?_
  have hin : T.closed → d.Within r.heap.size := fun hT => (hclosed hT).heap.table hd
  unfold describe
  refine .inspect' ?_ fun _ => rfl
  split
  · exact .pure fun _ => trivial
  · refine .bind (steps_newDescriptor hmints hin) fun id r' hrun _ => ?_
    rw [newDescriptor_run] at hrun
    cases hrun
    exact .map (.note (r.pool.descriptor?_addDescriptor_self d) hd) fun _ _ _ => trivial

end Making

end ObjectModel.Realm
