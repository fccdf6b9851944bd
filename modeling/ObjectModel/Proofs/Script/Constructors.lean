import ObjectModel.Proofs.Realm.Relinking
import ObjectModel.Proofs.Script.Tower

/-!
Constructors in runs. What stands under `prototype` decides the links of instances and nothing else
does, each instance keeps the link that it was given until it is itself relinked, and a static link
is a constructor as long as the last relinking made it one.
-/

namespace ObjectModel.Script.Program

open Realm

variable {p : Program} {n m : Nat} {c x : ObjectId}

def linksFor (p : Program) (o : ObjectId) (n m : Nat) : List (Option ObjectId) :=
  ((p.events.take m).drop n).filterMap (Event.linkFor? o)

theorem heapAt_eq_foldl (p : Program) (hnm : n ≤ m) :
    p.heapAt m = ((p.events.take m).drop n).foldl Heap.after (p.heapAt n) := by
  have htake : (p.events.take m).take n = p.events.take n := by
    rw [List.take_take, Nat.min_eq_left hnm]
  rw [heapAt, heapAt, Heap.replay, Heap.replay, ← List.foldl_append, ← htake,
    List.take_append_drop]

theorem link_heapAt_eq (hnm : n ≤ m) (hx : x < (p.heapAt n).size) : (p.heapAt m).link x =
    ((p.linksFor x n m).getLast?.map Value.ofLink).getD ((p.heapAt n).link x) := by
  rw [p.heapAt_eq_foldl hnm, Heap.link_foldl hx]
  rfl

theorem link_heapAt_of_unlinked (hnm : n ≤ m) (hx : x < (p.heapAt n).size)
    (hlinks : p.linksFor x n m = []) : (p.heapAt m).link x = (p.heapAt n).link x := by
  rw [link_heapAt_eq hnm hx, hlinks]
  rfl

def Makes (p : Program) (n : Nat) (c : ObjectId) : Prop :=
  ∃ a, (∃ name initializer staticLink prototypeParent, p.Performs a n
      (.createConstructor name initializer staticLink prototypeParent) (.object c)) ∨
    ∃ sup name initializer, p.Performs a n (.extend sup name initializer) (.object c)

theorem Makes.exists_construct (hmade : p.Makes n c) :
    ∃ a link parent k, (∃ v, (p.heapAt a).asStaticLink? v = some link) ∧ c = (p.heapAt a).size ∧
      p.heapAt n = (p.heapAt a).construct link parent k := by
  obtain ⟨a, ⟨_, _, _, _, hcreate⟩ | ⟨_, _, _, hextend⟩⟩ := hmade
  · obtain ⟨-, depth, r, r', hr, hr', hrun⟩ := hcreate
    obtain ⟨o, r₁, hcreate, hpure⟩ := bind_eq_ok hrun
    cases hpure
    obtain ⟨link, parent, hlink, -, hc, hheap⟩ := createConstructor_eq_construct hcreate
    rw [hr] at hlink hc hheap
    rw [hr'] at hheap
    exact ⟨a, link, parent, _, ⟨_, hlink⟩, hc, hheap⟩
  · obtain ⟨-, depth, r, r', hr, hr', hrun⟩ := hextend
    obtain ⟨o, r₁, hextend, hpure⟩ := bind_eq_ok hrun
    cases hpure
    obtain ⟨link, parent, hlink, hc, hheap⟩ := extend_eq_construct hextend
    rw [hr] at hlink hc hheap
    rw [hr'] at hheap
    exact ⟨a, link, parent, _, ⟨_, hlink⟩, hc, hheap⟩

theorem Makes.constructor? (hmade : p.Makes n c) : ∃ k, (p.heapAt n).constructor? c = some k := by
  obtain ⟨a, link, parent, k, -, rfl, hn⟩ := hmade.exists_construct
  refine ⟨k, ?_⟩
  rw [hn, Heap.constructor?_construct, if_neg (Nat.ne_of_lt (Nat.lt_succ_self _)), if_pos rfl]

theorem Makes.lt_size (hmade : p.Makes n c) : c < (p.heapAt n).size := by
  obtain ⟨k, hk⟩ := hmade.constructor?
  exact Heap.lt_size_of_constructor? hk

theorem Makes.lookup_prototype (hmade : p.Makes n c) :
    ((p.heapAt n).table c).lookup "prototype" = some (hidden (.object (c + 1)) true false) := by
  obtain ⟨a, link, parent, k, -, rfl, hn⟩ := hmade.exists_construct
  rw [hn, Heap.lookup_prototype_construct]

theorem Makes.sources (hmade : p.Makes n c) (hnm : n ≤ m) {r : Realm Session}
    (hr : r.heap = p.heapAt m) : ∃ k v, r.heap.constructor? c = some k ∧ r.Sources c k v := by
  obtain ⟨k, hk⟩ := hmade.constructor?
  have hk := constructor?_heapAt hnm hk
  obtain ⟨⟨slot, enumerable, configurable⟩, hd, hlocked⟩ :=
    p.keepsLocks_heapAt hnm hmade.lookup_prototype rfl
  cases slot with
  | accessor get set => exact hlocked.slot.elim
  | value v writable =>
    rw [← hr] at hk hd
    exact ⟨k, v, hk, sources_of_lookup hk hd hlocked.enumerable.1.symm hlocked.configurable⟩

theorem Executes.allocates {args : List Value}
    (h : p.Executes n m (.invoke (.object c) args) (.object x)) :
    x = (p.heapAt n).size ∧ p.heapAt (n + 1) = (p.heapAt n).apply
      (.allocate (.ofLink ((p.heapAt n).constructionPrototype c)) none true) := by
  obtain ⟨-, depth, r, r', hr, hr', hrun⟩ := h
  obtain ⟨x, r₁, hrun, hpure⟩ := bind_eq_ok hrun
  cases hpure
  obtain ⟨rfl, events, htrace, -⟩ :=
    invoke_eq_ok (composedCaller_callFunction p.functions depth) hrun
  rw [hr'.trace, committed, Array.toList_push, hr.trace, List.append_assoc] at htrace
  refine ⟨by rw [hr.heap], ?_⟩
  have hlength := congrArg List.length htrace
  simp only [List.length_take, List.length_append, List.length_singleton] at hlength
  have htake : (p.events.take n).length = n := by
    rw [List.length_take]
    omega
  -- at `n` the trace of the whole run goes on with the allocation
  have hevent := congrArg (·[n]?) htrace
  rw [List.getElem?_take_of_lt (by omega), List.getElem?_append_right (by omega), htake,
    Nat.sub_self] at hevent
  rw [heapAt_succ hevent, ← hr.heap]
  rfl

/--
From when a constructor is made on, at every moment, its `prototype` property decides what instances
are linked to, and nothing done to properties changes the link of a record that is there. Each
record keeps its link until it is given another one, and an instance the link that it was made with.
-/
theorem sources_heapAt (hmade : p.Makes n c) (hnm : n ≤ m) {r : Realm Session}
    (hr : r.heap = p.heapAt m) :
    (∃ k v, r.heap.constructor? c = some k ∧ r.Sources c k v) ∧
      (∀ call op, op.Edits r.heap ∨ (op.relinks = false ∧ CallsNone call op r) →
        r.KeepsLinks (ending (perform call op r))) ∧
      (∀ t ≥ m, ∀ x < r.heap.size, p.linksFor x m t = [] →
        (p.heapAt t).link x = r.heap.link x) ∧
      ∀ t args x, p.Executes m t (.invoke (.object c) args) (.object x) → x = r.heap.size ∧
        ∀ t' > m, p.linksFor x (m + 1) t' = [] →
          (p.heapAt t').link x = .ofLink (r.heap.constructionPrototype c) := by
  refine ⟨hmade.sources hnm hr, ?_, ?_, ?_⟩
  · rintro call op (hop | ⟨hop, hcalls⟩)
    · exact keepsLinks_of_edits hop call
    · exact keepsLinks_of_not_relinks hop hcalls
  · intro t ht x hx hlinks
    rw [hr] at hx ⊢
    exact link_heapAt_of_unlinked ht hx hlinks
  · intro t args x hinvoke
    obtain ⟨rfl, hallocated⟩ := hinvoke.allocates
    rw [hr]
    refine ⟨rfl, fun t' ht' hlinks => ?_⟩
    have hlt : (p.heapAt m).size < (p.heapAt (m + 1)).size := by
      rw [hallocated, Heap.size_allocate]
      exact Nat.lt_succ_self _
    rw [link_heapAt_of_unlinked ht' hlt hlinks, hallocated, Heap.link_allocate, if_pos rfl]

def sourcing : Program where
  steps := [
    .bind "n" (.operation (.createObject none)),
    .bind "A" (.operation (.createConstructor (some (.literal (.str "A")))
      (some (.literal (.function "init"))) none none)),
    .bind "x" (.operation (.invoke (.variable "A") [.variable "A", .variable "n"])),
    .operation (.set (.variable "n") (.literal (.str "constructor")) (.literal (.int 1)) none),
    .bind "y" (.operation (.invoke (.variable "A") []))]
  functions := [("init", [.operation (.set (.arg 0) (.literal (.str "prototype")) (.arg 1) none)])]

theorem sources_heapAt_sourcing :
    sourcing.Makes 7 1 ∧
      sourcing.Executes 7 10 (.invoke (.object 1) [.object 1, .object 0]) (.object 3) ∧
      (sourcing.heapAt 10).constructionPrototype 1 = some 0 ∧
      (sourcing.heapAt 12).link 3 = .object 2 := by
  have hmoments : sourcing.momentOf 1 = 1 ∧ sourcing.momentOf 2 = 7 ∧
      sourcing.momentOf 3 = 10 := by
    decide +kernel
  obtain ⟨h₁, h₂, h₃⟩ := hmoments
  have hcreate : sourcing.Performs (sourcing.momentOf 1) (sourcing.momentOf 2)
      (.createConstructor (some (.str "A")) (some (.function "init")) none none) (.object 1) :=
    performs_of_step rfl rfl rfl rfl (by decide +kernel)
  have hinvoke : sourcing.Executes (sourcing.momentOf 2) (sourcing.momentOf 3)
      (.invoke (.object 1) [.object 1, .object 0]) (.object 3) := by
    refine executes_of_step rfl rfl rfl ?_ (by decide +kernel)
    generalize hr : (sourcing.runFrom (sourcing.steps.take 2) sourcing.start).2.fresh = r
    have hA (depth : Nat) : eval sourcing.functions (depth + 1) (.variable "A") r =
        .ok (.object 1) r := by
      rw [← hr]
      exact eval_variable (by decide +kernel) depth
    have hn (depth : Nat) : eval sourcing.functions (depth + 1) (.variable "n") r =
        .ok (.object 0) r := by
      rw [← hr]
      exact eval_variable (by decide +kernel) depth
    simp only [Operation.mapM, List.mapM_cons, List.mapM_nil, bind_run, hA, hn, pure_run]
  rw [h₁, h₂] at hcreate
  rw [h₂, h₃] at hinvoke
  have hmade : sourcing.Makes 7 1 := ⟨1, .inl ⟨_, _, _, _, hcreate⟩⟩
  have hr := (sourcing.reaches_momentOf 2).heap
  rw [h₂] at hr
  have hprototype : (sourcing.heapAt 7).constructionPrototype 1 = some 2 := by decide +kernel
  obtain ⟨-, -, -, hinstances⟩ := sources_heapAt hmade (Nat.le_refl 7) hr
  obtain ⟨-, hlink⟩ := hinstances 10 _ 3 hinvoke
  refine ⟨hmade, hinvoke, by decide +kernel, ?_⟩
  rw [hlink 12 (by decide) (by decide +kernel), hr, hprototype]
  rfl

theorem Makes.staticallyLinked (hmade : p.Makes n c) (hnm : n ≤ m)
    (hlink : (p.heapAt m).link c = (p.heapAt n).link c) : (p.heapAt m).StaticallyLinked c := by
  obtain ⟨a, link, parent, k, ⟨v, hv⟩, rfl, hn⟩ := hmade.exists_construct
  have hne : (p.heapAt a).size ≠ (p.heapAt a).size + 1 := Nat.ne_of_lt (Nat.lt_succ_self _)
  rw [hn, Heap.link_construct, if_neg hne, if_pos rfl] at hlink
  cases link with
  | none => exact .inl hlink
  | some q =>
    obtain ⟨k', hk'⟩ := Option.isSome_iff_exists.1 (Heap.constructor?_of_asStaticLink? hv)
    have hq : q < (p.heapAt a).size := Heap.lt_size_of_constructor? hk'
    -- the constructor that it is linked to was there before it, and what is one stays one
    refine .inr ⟨q, hlink, ?_⟩
    rw [constructor?_heapAt hnm (c := k') ?_]
    · rfl
    · rw [hn, Heap.constructor?_construct, if_neg (Nat.ne_of_lt (Nat.lt_succ_of_lt hq)),
        if_neg (Nat.ne_of_lt hq), hk']

/--
A constructor is statically linked unless the last relinking of it, since it was made, gave it a
link to a record that is no constructor. Neither `linkStatic` nor what does not relink does.
-/
theorem staticallyLinked_heapAt_iff (hmade : p.Makes n c) (hnm : n ≤ m) {r : Realm Session}
    (hr : r.heap = p.heapAt m) :
    (r.heap.StaticallyLinked c ↔ ∀ q, (p.linksFor c n m).getLast? = some (some q) →
        (r.heap.constructor? q).isSome = true) ∧
      (r.heap.StaticallyLinked c → ∀ call op,
        op.relinks = false ∨ (∃ sub sup, op = .linkStatic sub sup) → CallsNone call op r →
        (ending (perform call op r)).heap.StaticallyLinked c) := by
  have hlink := link_heapAt_eq hnm hmade.lt_size
  constructor
  · rw [hr]
    cases hlast : (p.linksFor c n m).getLast? with
    | none =>
      rw [hlast] at hlink
      exact iff_of_true (hmade.staticallyLinked hnm hlink) nofun
    | some link =>
      rw [hlast, Option.map_some, Option.getD_some] at hlink
      cases link with
      | none => exact iff_of_true (.inl hlink) nofun
      | some q => simp [Heap.StaticallyLinked, hlink, Value.ofLink]
  · intro hstatic call op hop hcalls
    have hc : c < r.heap.size := by
      rw [hr]
      exact Nat.lt_of_lt_of_le hmade.lt_size (p.size_le_heapAt hnm)
    exact staticallyLinked_perform hc hstatic hop hcalls

def straying : Program where
  steps := [
    .bind "A" (.operation (.createConstructor (some (.literal (.str "A"))) none none none)),
    .bind "B" (.operation (.extend (.variable "A") none none)),
    .bind "o" (.operation (.createObject none)),
    .operation (.setPrototype (.variable "B") (.variable "o")),
    .operation (.linkStatic (.variable "B") (.literal .none)),
    .operation (.linkStatic (.variable "B") (.variable "A"))]

theorem makes_straying : straying.Makes 12 2 := by
  have hmoments : straying.momentOf 1 = 6 ∧ straying.momentOf 2 = 12 := by decide +kernel
  have hextend : straying.Performs (straying.momentOf 1) (straying.momentOf 2)
      (.extend (.object 0) none none) (.object 2) := by
    refine performs_of_step rfl rfl rfl ?_ (by decide +kernel)
    rw [Operation.mapM, bind_ok (eval_variable (v := .object 0) (by decide +kernel) _)]
    rfl
  rw [hmoments.1, hmoments.2] at hextend
  exact ⟨6, .inr ⟨_, _, _, hextend⟩⟩

theorem staticallyLinked_heapAt_iff_straying :
    (straying.heapAt 19).StaticallyLinked 2 ∧ ¬ (straying.heapAt 15).StaticallyLinked 2 := by
  have hmoments : straying.momentOf 4 = 15 ∧ straying.momentOf 6 = 19 := by decide +kernel
  have hr := (straying.reaches_momentOf 6).heap
  have hr' := (straying.reaches_momentOf 4).heap
  rw [hmoments.2] at hr
  rw [hmoments.1] at hr'
  obtain ⟨hstatic, -⟩ := staticallyLinked_heapAt_iff makes_straying (by decide) hr
  obtain ⟨hstatic', -⟩ := staticallyLinked_heapAt_iff makes_straying (by decide) hr'
  rw [hr] at hstatic
  rw [hr'] at hstatic'
  have hlast : (straying.linksFor 2 12 19).getLast? = some (some 0) := by decide +kernel
  refine ⟨hstatic.2 fun q hq => ?_, fun h => ?_⟩
  · cases hlast.symm.trans hq
    decide +kernel
  · have hconstructor := hstatic'.1 h 4 (by decide +kernel)
    revert hconstructor
    decide +kernel

/-- A constructor can be linked to what is none, as only `linkStatic` asks for a constructor. -/
theorem exists_not_staticallyLinked :
    ∃ (p : Program) (n m : Nat) (c : ObjectId), p.Makes n c ∧ n ≤ m ∧
      ¬ (p.heapAt m).StaticallyLinked c := by
  refine ⟨straying, 12, 15, 2, makes_straying, by decide, ?_⟩
  rintro (h | ⟨q, hq, hconstructor⟩)
  · revert h
    decide +kernel
  · have hlink : (straying.heapAt 15).link 2 = .object 4 := by decide +kernel
    cases hlink.symm.trans hq
    revert hconstructor
    decide +kernel

end ObjectModel.Script.Program
