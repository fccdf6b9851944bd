import ObjectModel.Proofs.Steps.Construction
import ObjectModel.Realm.Conversion

/-!
Conversion between records and dicts.
-/

namespace ObjectModel.Realm

variable {σ : Type} {T : Terms σ} {r : Realm σ}

abbrev SeenWithin (n : Nat) (seen : Seen) : Prop :=
  ∀ entry ∈ seen, entry.2.Within n

theorem steps_snapshotProperties {convert : Value → Seen → RealmM σ (Value × Seen)}
    (hconvert : ∀ {v seen} {r : Realm σ},
      (T.closed → v.Within r.heap.size ∧ SeenWithin r.heap.size seen) →
      Steps T (fun n result => result.1.Within n ∧ SeenWithin n result.2) (convert v seen) r)
    {o : ObjectId} (keys : List String) {seen : Seen}
    (hin : T.closed → o < r.heap.size ∧ SeenWithin r.heap.size seen) :
    Steps T (fun n result => (∀ entry ∈ result.1, entry.1.Within n ∧ entry.2.Within n) ∧
      SeenWithin n result.2) (snapshotProperties T.call convert o keys seen) r := by
  induction keys generalizing seen r with
  | nil => exact .pure fun hT => ⟨List.forall_mem_nil _, (hin hT).2⟩
  | cons key keys ih =>
    rw [snapshotProperties]
    refine .bind (steps_read _ _ fun hT => (hin hT).1) fun v r₁ _ h₁ => ?_
    refine .bind (hconvert fun hT => ?_) fun converted r₂ _ h₂ => ?_
    · exact ⟨(h₁ hT).2, fun entry h => ((hin hT).2 entry h).mono (h₁ hT).1⟩
    refine .bind (ih fun hT => ?_) fun rest r₃ _ h₃ => ?_
    · exact ⟨Nat.lt_of_lt_of_le (hin hT).1 (Nat.le_trans (h₁ hT).1 (h₂ hT).1), (h₂ hT).2.2⟩
    refine .pure fun hT => ⟨?_, (h₃ hT).2.2⟩
    rw [List.forall_mem_cons]
    exact ⟨⟨trivial, (h₂ hT).2.1.mono (h₃ hT).1⟩, (h₃ hT).2.1⟩

theorem steps_snapshot_go (hmints : T.mints) (h : T.fails .exhausted) (depth : Nat) {v : Value}
    {seen : Seen} (hin : T.closed → v.Within r.heap.size ∧ SeenWithin r.heap.size seen) :
    Steps T (fun n result => result.1.Within n ∧ SeenWithin n result.2)
      (snapshot.go T.call depth v seen) r := by
  induction depth generalizing v seen r with
  | zero => exact .throw h _
  | succ depth ih =>
    by_cases hundefined : v = .undefined
    · subst hundefined
      exact .pure fun hT => ⟨trivial, (hin hT).2⟩
    -- the other values share one equation, which asks whether they name a record
    rw [snapshot.go.eq_3 _ _ _ _ hundefined]
    refine .after (reads_object? _) fun o? ho? => ?_
    cases ho?
    split
    · exact .pure hin
    · next o ho =>
      have hlt := (Heap.object?_eq_some ho).2
      split
      · next dict hdict =>
        have hmem : (o, dict) ∈ seen := by
          obtain ⟨before, after, rfl, -⟩ := List.lookup_eq_some_iff.1 hdict
          exact List.mem_append_right _ List.mem_cons_self
        exact .pure fun hT => ⟨(hin hT).2 _ hmem, (hin hT).2⟩
      · refine .bind (steps_newDict hmints) fun id r₁ _ h₁ => ?_
        refine .after (reads_tableOf _) fun t _ => ?_
        refine .bind (steps_snapshotProperties ih _ fun hT => ?_) fun result r₂ _ h₂ => ?_
        · refine ⟨Nat.lt_of_lt_of_le hlt (h₁ hT).1, List.forall_mem_cons.2 ⟨trivial, ?_⟩⟩
          exact fun entry h => ((hin hT).2 entry h).mono (h₁ hT).1
        refine .bind (steps_fillDict hmints _ fun hT => (h₂ hT).2.1) fun _ r₃ _ h₃ => ?_
        refine .pure fun hT => ⟨trivial, fun entry h => ?_⟩
        exact ((h₂ hT).2.2 entry h).mono (h₃ hT).1

theorem steps_snapshot (hmints : T.mints) (h : T.fails .exhausted) {v : Value}
    (hv : T.closed → v.Within r.heap.size) :
    Steps T Value.Within (snapshot T.call v) r := by
  unfold snapshot
  refine .after reads_readHeap fun _ _ => ?_
  refine .bind (steps_snapshot_go hmints h _ fun hT => ⟨hv hT, List.forall_mem_nil _⟩)
    fun converted r₁ _ h₁ => ?_
  exact .pure fun hT => (h₁ hT).2.1

theorem steps_build_go (hwrites : T.Writes) (h : T.fails .exhausted) (prototype : Value)
    (depth : Nat) {v : Value} (hv : T.closed → v.Within r.heap.size) :
    Steps T Value.Within (build.go T.call prototype depth v) r := by
  induction depth generalizing v r with
  | zero => exact .throw h _
  | succ depth ih =>
    cases v with
    | dict id =>
      refine .bind (steps_createObject _) fun o r₁ _ h₁ => .inClosed fun hclosed => ?_
      refine .inspect' ?_ fun _ => rfl
      refine .bind (P := Plain) (.forM fun entry hentry r₂ h₂ => ?_) fun _ r₂ _ h₂ => ?_
      · refine .bind (ih fun hT => ?_) fun converted r₃ _ h₃ => ?_
        · exact ((hclosed hT).pool.dict hentry).2.mono (h₂ hT)
        refine .map (steps_setByPolicy hwrites _ fun hT => ⟨?_, (h₃ hT).2, trivial⟩)
          fun _ _ _ => trivial
        exact Nat.lt_of_lt_of_le (h₁ hT).2 (Nat.le_trans (h₂ hT) (h₃ hT).1)
      · exact .pure fun hT => Nat.lt_of_lt_of_le (h₁ hT).2 (h₂ hT).1
    | none => exact .pure fun _ => trivial
    | _ => exact .pure hv

theorem steps_build (hwrites : T.Writes) (h : T.fails .exhausted) (prototype : Value) {v : Value}
    (hv : T.closed → v.Within r.heap.size) :
    Steps T Value.Within (build T.call v prototype) r := by
  unfold build
  exact .inspect' (steps_build_go hwrites h _ _ hv) fun _ => rfl

end ObjectModel.Realm
