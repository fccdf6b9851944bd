import ObjectModel.Proofs.Realm.Listing
import ObjectModel.Proofs.Script.Insertion
import ObjectModel.Proofs.Script.Noting

/-!
What realms answer about own keys at the moments of runs: the keys in the order in which they came.
-/

namespace ObjectModel.Script.Program

open Realm

structure StaysNoted (p : Program) : Prop where
  steps : ∀ first second, p.steps = first ++ second →
    ∃ n, (p.runFrom first p.start).2.heap = p.heapAt n ∧ (p.runFrom first p.start).2.Noted
  eval : ∀ depth e, Noting (eval p.functions depth e)
  perform : ∀ call : Caller Session, (∀ name this args, Noting (call name this args)) →
    ∀ op, Noting (perform call op)

theorem staysNoted (p : Program) : p.StaysNoted where
  steps first _ hsteps := ⟨_, (heapAt_runFrom hsteps).symm, p.noted_runFrom first p.noted_start⟩
  eval := noting_eval
  perform call hcall _ :=
    .of_steps (T := { call }) id hcall fun _ =>
      steps_perform (Terms.allow (.inl trivial) (fun _ _ => trivial) (.inl trivial) _) nofun

/--
At every moment of a run the own keys of a record are there once each, in the order of the moments
at which they last came anew. No operation moves a key, unless it deletes one or runs a function
that moves some. Whatever a realm is asked at that moment about the own keys, it answers with this
list.
-/
theorem keysAt_follows_history (p : Program) (n : Nat) (o : ObjectId) :
    (p.keysAt o n).Nodup ∧
      (∀ key, key ∈ p.keysAt o n ↔ ∃! i, p.AddedAt o key n i) ∧
      (p.keysAt o n).Pairwise (p.Earlier o n) ∧
      (∀ (call : Caller Session) (op : Operation Value), op.removes = false →
        (∀ name this args (r : Realm Session), r.Appends (ending (call name this args r))) →
        ∀ r : Realm Session, r.Appends (ending (perform call op r))) ∧
      (∀ (call : Caller Session) (r : Realm Session), r.heap = p.heapAt n → o < r.heap.size →
        r.Noted → r.Lists call o (p.keysAt o n)) ∧
      p.StaysNoted := by
  refine ⟨((p.heapAt n).table o).nodup, fun _ => mem_keysAt_iff, p.pairwise_earlier_keysAt o n, ?_,
    ?_, p.staysNoted⟩
  · intro call op hop hcall r
    exact appends_perform hop hcall r
  · intro call r hr ho hnoted
    rw [keysAt, ← hr]
    exact lists_keys call hnoted ho

def reordering : Program where
  steps := [
    .bind "o" (.operation (.createObject none)),
    .operation (.set (.variable "o") (.literal (.str "a")) (.literal (.int 1)) none),
    .operation (.set (.variable "o") (.literal (.str "b")) (.literal (.int 2)) none),
    .operation (.defineOwn (.variable "o") (.literal (.str "c"))
      (.valueDescriptor (some (.literal (.int 3))) none (some (.literal (.bool false))) none)),
    .operation (.set (.variable "o") (.literal (.str "a")) (.literal (.int 4)) none),
    .operation (.defineOwn (.variable "o") (.literal (.str "b"))
      (.accessor (some (.literal (.function "f"))) none none none)),
    .operation (.deleteOwn (.variable "o") (.literal (.str "a"))),
    .operation (.set (.variable "o") (.literal (.str "a")) (.literal (.int 5)) none),
    .operation (.freeze (.variable "o"))]

theorem run_reordering :
    let r := reordering.run.2
    let call : Caller Session := fun _ _ _ => throw .exhausted
    0 < r.heap.size ∧ reordering.events.length = 11 ∧
      reordering.keysAt 0 11 = ["b", "c", "a"] ∧
      (["b", "c", "a"].filter fun key =>
        (yielded? (perform call (.readOwn (.object 0) (.str key)) r)).any (·.enumerable.holds)) =
          ["b", "a"] := by
  decide +kernel

theorem keysAt_follows_history_reordering :
    let r := reordering.run.2
    let call : Caller Session := fun _ _ _ => throw .exhausted
    (∃ v r', perform call (.ownKeys (.object 0)) r = .ok v r' ∧
        r'.pool.IsListOf v ["b", "c", "a"]) ∧
      (∃ v r', perform call (.enumerableKeys (.object 0)) r = .ok v r' ∧
        r'.pool.IsListOf v ["b", "a"]) ∧
      perform call (.tableContains (.object 0) (.str "a")) r = .ok (.bool true) r ∧
      perform call (.tableLookup (.object 0) (.str "d")) r = .ok .none r ∧
      (∃ i j, reordering.AddedAt 0 "c" 11 i ∧ reordering.AddedAt 0 "a" 11 j ∧ i < j) ∧
      ["b", "c", "a"] <+: ((ending (perform call
        (.defineOwn (.object 0) (.str "b") (.descriptor 0)) r)).heap.table 0).keys := by
  intro r call
  obtain ⟨hsize, hlength, hkeys, henumerable⟩ := run_reordering
  obtain ⟨-, hmem, hordered, happends, hlists, hnoted⟩ := keysAt_follows_history reordering 11 0
  obtain ⟨-, -, hr⟩ := hnoted.steps reordering.steps [] (List.append_nil _).symm
  have hheap : r.heap = reordering.heapAt 11 := by
    rw [← hlength]
    exact (heapAt_length_events reordering).symm
  have hlisted := hlists call r hheap hsize hr
  have hstays := happends call (.defineOwn (.object 0) (.str "b") (.descriptor 0)) rfl
    (fun _ _ _ _ _ => List.prefix_refl _) r 0
  rw [hheap, ← keysAt, hkeys] at hstays
  rw [hkeys] at hlisted hordered hmem
  obtain ⟨v, r', hown, -, hlist⟩ := hlisted.ownKeys
  obtain ⟨v', r'', henum, -, hlist'⟩ := hlisted.enumerableKeys
  rw [henumerable] at hlist'
  refine ⟨⟨v, r', hown, hlist⟩, ⟨v', r'', henum, hlist'⟩, hlisted.contains "a",
    (hlisted.lookup_eq_none_iff "d").2 (by decide), ?_, hstays⟩
  obtain ⟨i, hi, -⟩ := (hmem "c").1 (by decide)
  obtain ⟨j, hj, -⟩ := (hmem "a").1 (by decide)
  have hearlier : reordering.Earlier 0 11 "c" "a" := by
    simp only [List.pairwise_cons] at hordered
    exact hordered.2.1 "a" List.mem_cons_self
  exact ⟨i, j, hi, hj, hearlier i j hi hj⟩

end ObjectModel.Script.Program
