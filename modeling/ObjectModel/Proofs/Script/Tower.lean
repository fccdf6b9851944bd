import ObjectModel.Proofs.Heap.Ladder
import ObjectModel.Proofs.Realm.Constructing
import ObjectModel.Proofs.Script.Epoch

/-!
Towers of constructors in runs: each extends the one before, with anything else going on in between.
As long as no link changes and the constructors keep their prototypes, whose instance a record is
follows from where it was made.
-/

namespace ObjectModel.Script.Program

open Realm

variable {p : Program} {n m : Nat} {o x : ObjectId} {key : String} {v : Value}

def Performs (p : Program) (n m : Nat) (op : Operation Value) (result : Value) : Prop :=
  n ≤ m ∧ ∃ depth r r', r.heap = p.heapAt n ∧ r'.heap = p.heapAt m ∧
    perform (callFunction p.functions (eval p.functions depth)) op r = .ok result r'

structure Reaches (p : Program) (n : Nat) (r : Realm Session) : Prop where
  heap : r.heap = p.heapAt n
  trace : r.trace.toList = p.events.take n

def Executes (p : Program) (n m : Nat) (op : Operation Value) (result : Value) : Prop :=
  n ≤ m ∧ ∃ depth r r', p.Reaches n r ∧ p.Reaches m r' ∧
    perform (callFunction p.functions (eval p.functions depth)) op r = .ok result r'

theorem Executes.performs {op : Operation Value} (h : p.Executes n m op v) :
    p.Performs n m op v := by
  obtain ⟨hnm, depth, r, r', hr, hr', hrun⟩ := h
  exact ⟨hnm, depth, r, r', hr.heap, hr'.heap, hrun⟩

def result? {α : Type} : EStateM.Result Failure (Realm Session) α → Option α
  | .ok a _ => some a
  | .error .. => none

theorem eq_ok_of_result? {α : Type} {m : ScriptM α} {r : Realm Session} {a : α}
    (h : result? (m r) = some a) : m r = .ok a (ending (m r)) := by
  cases hrun : m r with
  | ok a' r' =>
    rw [hrun] at h
    cases h
    rfl
  | error failure r' =>
    rw [hrun] at h
    cases h

theorem eval_variable {functions : Functions} {r : Realm Session} {name : String} {v : Value}
    (hv : r.client.lookup? name = some v) (depth : Nat) :
    eval functions (depth + 1) (.variable name) r = .ok v r := by
  rw [eval, step, bind_run, get_run]
  dsimp only
  rw [hv]
  rfl

def momentOf (p : Program) (k : Nat) : Nat :=
  (p.runFrom (p.steps.take k) p.start).2.trace.size

theorem reaches_momentOf (p : Program) (k : Nat) :
    p.Reaches (p.momentOf k) (p.runFrom (p.steps.take k) p.start).2 := by
  have hsteps : p.steps = p.steps.take k ++ p.steps.drop k := (List.take_append_drop k _).symm
  refine ⟨(heapAt_runFrom hsteps).symm, ?_⟩
  obtain ⟨later, htrace, -⟩ :=
    p.runFrom_follows (p.steps.drop k) (p.runFrom (p.steps.take k) p.start).2
  rw [← runFrom_append, ← hsteps] at htrace
  rw [events, run, htrace, momentOf, ← Array.length_toList, List.take_left]

theorem executes_of_step {k : Nat} {name : String} {e : Operation Expr} {op : Operation Value}
    {r : Realm Session} {depth : Nat} (hdepth : depthLimit = depth + 2)
    (hstep : p.steps[k]? = some (.bind name (.operation e)))
    (hr : (p.runFrom (p.steps.take k) p.start).2.fresh = r)
    (hop : e.mapM (eval p.functions depth) r = .ok op r)
    (hresult : result? (perform (callFunction p.functions (eval p.functions depth)) op r) =
      some v) :
    p.Executes (p.momentOf k) (p.momentOf (k + 1)) op v := by
  have hrun := eq_ok_of_result? hresult
  have htake : p.steps.take (k + 1) = p.steps.take k ++ [.bind name (.operation e)] := by
    rw [List.take_add_one, hstep]
    rfl
  have hlast : (p.runFrom (p.steps.take (k + 1)) p.start).2 =
      ending (p.outcome (.bind name (.operation e)) r) := by
    rw [htake, runFrom_append, ← hr, ← runStep_snd]
    rfl
  generalize ending (perform (callFunction p.functions (eval p.functions depth)) op r) = r'
    at hrun
  have hend : (ending (p.outcome (.bind name (.operation e)) r)).heap = r'.heap ∧
      (ending (p.outcome (.bind name (.operation e)) r)).trace = r'.trace := by
    -- to bind the result changes what the client keeps, and neither heap nor trace
    have heval : eval p.functions depthLimit (.bind name (.operation e)) r =
        .ok v { r' with client := r'.client.bind name v } := by
      rw [hdepth]
      show step p.functions (step p.functions (eval p.functions depth)) _ r = _
      simp only [step, bind_run, hop, hrun]
      rfl
    rw [outcome, bind_ok heval]
    exact ⟨rfl, rfl⟩
  have hbegins := p.reaches_momentOf k
  have hends := p.reaches_momentOf (k + 1)
  refine ⟨?_, depth, r, r', ?_, ?_, hrun⟩
  · obtain ⟨events, htrace, -⟩ :=
      p.runFrom_follows [.bind name (.operation e)] (p.runFrom (p.steps.take k) p.start).2
    rw [momentOf, momentOf, htake, runFrom_append, ← Array.length_toList, ← Array.length_toList,
      htrace, List.length_append]
    exact Nat.le_add_right _ _
  · rw [← hr]
    exact ⟨hbegins.heap, hbegins.trace⟩
  · rw [hlast] at hends
    exact ⟨hend.1 ▸ hends.heap, hend.2 ▸ hends.trace⟩

theorem performs_of_step {k : Nat} {name : String} {e : Operation Expr} {op : Operation Value}
    {r : Realm Session} {depth : Nat} (hdepth : depthLimit = depth + 2)
    (hstep : p.steps[k]? = some (.bind name (.operation e)))
    (hr : (p.runFrom (p.steps.take k) p.start).2.fresh = r)
    (hop : e.mapM (eval p.functions depth) r = .ok op r)
    (hresult : result? (perform (callFunction p.functions (eval p.functions depth)) op r) =
      some v) :
    p.Performs (p.momentOf k) (p.momentOf (k + 1)) op v :=
  (executes_of_step hdepth hstep hr hop hresult).performs

def Leaves (p : Program) (n m : Nat) (o : ObjectId) (key : String) : Prop :=
  ∀ t < m, n ≤ t → ∀ event ∈ p.events[t]?, ¬ event.Replaces (p.heapAt t) o key

instance (p : Program) (n m : Nat) (o : ObjectId) (key : String) :
    Decidable (p.Leaves n m o key) :=
  inferInstanceAs (Decidable (∀ t < m, n ≤ t → ∀ event ∈ p.events[t]?, _))

theorem size_le_heapAt (p : Program) (hnm : n ≤ m) : (p.heapAt n).size ≤ (p.heapAt m).size := by
  obtain ⟨events, -, hm⟩ := p.exists_admits_between hnm
  rw [hm]
  exact Heap.size_le_foldl _ _

theorem epoch_le_heapAt (p : Program) (hnm : n ≤ m) :
    (p.heapAt n).epoch ≤ (p.heapAt m).epoch := by
  obtain ⟨events, hadmits, hm⟩ := p.exists_admits_between hnm
  rw [hm]
  exact hadmits.epoch_le

theorem link_heapAt (hnm : n ≤ m) (hepoch : (p.heapAt m).epoch = (p.heapAt n).epoch)
    (hx : x < (p.heapAt n).size) : (p.heapAt m).link x = (p.heapAt n).link x := by
  obtain ⟨events, hadmits, hm⟩ := p.exists_admits_between hnm
  rw [hm] at hepoch ⊢
  exact hadmits.link_eq hepoch hx

theorem chain_heapAt (hnm : n ≤ m) (hepoch : (p.heapAt m).epoch = (p.heapAt n).epoch)
    (hx : x < (p.heapAt n).size) : (p.heapAt m).chain (some x) = (p.heapAt n).chain (some x) :=
  ((p.settled_heapAt n).chain_eq (p.size_le_heapAt hnm)
    (fun _ hy => link_heapAt hnm hepoch hy) hx).1

theorem constructor?_heapAt (hnm : n ≤ m) {c : Constructor}
    (hc : (p.heapAt n).constructor? o = some c) : (p.heapAt m).constructor? o = some c := by
  obtain ⟨events, hadmits, hm⟩ := p.exists_admits_between hnm
  rw [hm]
  exact hadmits.constructor?_eq hc

theorem holds_heapAt (hnm : n ≤ m) (hholds : (p.heapAt n).Holds o key v)
    (hleaves : p.Leaves n m o key) : (p.heapAt m).Holds o key v := by
  induction m, hnm using Nat.le_induction with
  | base => exact hholds
  | succ m hnm ih =>
    have hm : (p.heapAt m).Holds o key v := ih fun t ht => hleaves t (Nat.lt_succ_of_lt ht)
    cases h : p.events[m]? with
    | none =>
      rw [heapAt_succ_of_none h]
      exact hm
    | some event =>
      rw [heapAt_succ h]
      exact hm.after (admissible_event h) (hleaves m (Nat.lt_succ_self m) hnm event h)

/--
Constructor by constructor up to a height: the first one is created, and each of the others extends
the one before it once that is made.
-/
structure Tower (p : Program) (height : Nat) (c made : Nat → Nat) : Prop where
  base : ∃ n name initializer staticLink prototypeParent, p.Performs n (made 0)
    (.createConstructor name initializer staticLink prototypeParent) (.object (c 0))
  step : ∀ i < height, ∃ n name initializer, made i ≤ n ∧
    p.Performs n (made (i + 1)) (.extend (.object (c i)) name initializer) (.object (c (i + 1)))

structure Steady (p : Program) (height : Nat) (c made : Nat → Nat) (m : Nat) : Prop where
  made_le : made height ≤ m
  epoch : (p.heapAt m).epoch = (p.heapAt (made 0)).epoch
  leaves : ∀ i ≤ height, p.Leaves (made i) m (c i) "prototype"

theorem Steady.epoch_eq {height : Nat} {c made : Nat → Nat} (hs : p.Steady height c made m)
    {t : Nat} (hle : made 0 ≤ t) (htm : t ≤ m) : (p.heapAt m).epoch = (p.heapAt t).epoch := by
  have hfirst := p.epoch_le_heapAt hle
  have hlast := p.epoch_le_heapAt htm
  have hepoch := hs.epoch
  omega

section Tower

variable {height : Nat} {c made : Nat → Nat} (ht : p.Tower height c made)
include ht

theorem Tower.constructs_zero :
    ∃ n link parent, (p.heapAt n).Constructs (p.heapAt (made 0)) (c 0) link parent := by
  obtain ⟨n, name, initializer, staticLink, prototypeParent, -, depth, r, r', hr, hr', hrun⟩ :=
    ht.base
  obtain ⟨o, r₁, hcreate, hpure⟩ := bind_eq_ok hrun
  cases hpure
  obtain ⟨link, parent, -, -, hmade⟩ := createConstructor_eq_ok hcreate
  rw [hr, hr'] at hmade
  exact ⟨n, link, parent, hmade⟩

theorem Tower.constructs_succ {i : Nat} (hi : i < height) :
    ∃ n, made i ≤ n ∧ n ≤ made (i + 1) ∧
      (p.heapAt n).Constructs (p.heapAt (made (i + 1))) (c (i + 1)) (some (c i))
        ((p.heapAt n).constructionPrototype (c i)) := by
  obtain ⟨n, name, initializer, hn, hle, depth, r, r', hr, hr', hrun⟩ := ht.step i hi
  obtain ⟨o, r₁, hextend, hpure⟩ := bind_eq_ok hrun
  cases hpure
  have hmade := extend_eq_ok hextend
  rw [hr, hr'] at hmade
  exact ⟨n, hn, hle, hmade⟩

theorem Tower.constructs {i : Nat} (hi : i ≤ height) :
    ∃ n link parent, (p.heapAt n).Constructs (p.heapAt (made i)) (c i) link parent := by
  cases i with
  | zero => exact ht.constructs_zero
  | succ i =>
    obtain ⟨n, -, -, hmade⟩ := ht.constructs_succ hi
    exact ⟨n, _, _, hmade⟩

theorem Tower.made_le {i j : Nat} (hij : i ≤ j) (hj : j ≤ height) : made i ≤ made j := by
  induction j, hij using Nat.le_induction with
  | base => exact Nat.le_refl _
  | succ j _ ih =>
    obtain ⟨n, hn, hle, -⟩ := ht.constructs_succ hj
    exact Nat.le_trans (ih (Nat.le_of_succ_le hj)) (Nat.le_trans hn hle)

theorem Tower.succ_lt_size {i : Nat} (hi : i ≤ height) {t : Nat} (hle : made i ≤ t) :
    c i + 1 < (p.heapAt t).size := by
  obtain ⟨n, link, parent, hmade⟩ := ht.constructs hi
  exact Nat.lt_of_lt_of_le hmade.succ_lt_size (p.size_le_heapAt hle)

theorem Tower.lt_succ {i : Nat} (hi : i < height) : c i + 1 < c (i + 1) := by
  obtain ⟨n, hn, -, hmade⟩ := ht.constructs_succ hi
  rw [hmade.object]
  exact ht.succ_lt_size (Nat.le_of_lt hi) hn

variable (hs : p.Steady height c made m)
include hs

theorem Tower.constructor? {i : Nat} (hi : i ≤ height) :
    ∃ k, (p.heapAt m).constructor? (c i) = some k := by
  obtain ⟨n, link, parent, hmade⟩ := ht.constructs hi
  obtain ⟨k, hk⟩ := hmade.constructor?
  exact ⟨k, constructor?_heapAt (Nat.le_trans (ht.made_le hi (Nat.le_refl _)) hs.made_le) hk⟩

theorem Tower.constructionPrototype {i : Nat} (hi : i ≤ height) {t : Nat} (hle : made i ≤ t)
    (htm : t ≤ m) : (p.heapAt t).constructionPrototype (c i) = some (c i + 1) := by
  obtain ⟨n, link, parent, hmade⟩ := ht.constructs hi
  have hholds : (p.heapAt t).Holds (c i) "prototype" (.object (c i + 1)) :=
    holds_heapAt hle hmade.holds fun t' ht' => hs.leaves i hi t' (Nat.lt_of_lt_of_le ht' htm)
  exact hholds.constructionPrototype (ht.succ_lt_size hi hle)

theorem Tower.made_le_end {i : Nat} (hi : i ≤ height) : made i ≤ m :=
  Nat.le_trans (ht.made_le hi (Nat.le_refl _)) hs.made_le

theorem Tower.link_eq {i : Nat} (hi : i ≤ height) {t : Nat} (hle : made i ≤ t) (htm : t ≤ m)
    (hx : x < (p.heapAt t).size) : (p.heapAt m).link x = (p.heapAt t).link x :=
  link_heapAt htm (hs.epoch_eq (Nat.le_trans (ht.made_le (Nat.zero_le i) hi) hle) htm) hx

theorem Tower.ladder : (p.heapAt m).Ladder height c := by
  constructor
  · intro i hi
    exact Nat.lt_of_succ_lt (ht.succ_lt_size hi (ht.made_le_end hs hi))
  · intro i hi
    exact Nat.lt_of_succ_lt (ht.lt_succ hi)
  · intro i hi
    obtain ⟨n, -, -, hmade⟩ := ht.constructs_succ hi
    rw [ht.link_eq hs hi (Nat.le_refl _) (ht.made_le_end hs hi)
      (Nat.lt_of_succ_lt hmade.succ_lt_size), hmade.link_object]
    rfl
  · obtain ⟨n, link, parent, hmade⟩ := ht.constructs_zero
    have hend := ht.made_le_end hs (Nat.zero_le _)
    intro x hx
    rw [chain_heapAt hend (hs.epoch_eq (Nat.le_refl _) hend)
      (Nat.lt_of_succ_lt hmade.succ_lt_size)] at hx
    exact hmade.le_of_mem_chain (p.settled_heapAt n) (p.settled_heapAt _) hx

theorem Tower.ladder_prototype : (p.heapAt m).Ladder height (c · + 1) := by
  constructor
  · intro i hi
    exact ht.succ_lt_size hi (ht.made_le_end hs hi)
  · intro i hi
    exact Nat.succ_lt_succ (Nat.lt_of_succ_lt (ht.lt_succ hi))
  · intro i hi
    obtain ⟨n, hn, hle, hmade⟩ := ht.constructs_succ hi
    have hend := ht.made_le_end hs hi
    rw [ht.link_eq hs hi (Nat.le_refl _) hend hmade.succ_lt_size, hmade.link_prototype,
      ht.constructionPrototype hs (Nat.le_of_lt hi) hn (Nat.le_trans hle hend)]
    rfl
  · obtain ⟨n, link, parent, hmade⟩ := ht.constructs_zero
    have hend := ht.made_le_end hs (Nat.zero_le _)
    intro x hx
    rw [chain_heapAt hend (hs.epoch_eq (Nat.le_refl _) hend) hmade.succ_lt_size] at hx
    exact hmade.le_succ_of_mem_chain (p.settled_heapAt n) (p.settled_heapAt _) hx

theorem Tower.link_of_invoke {i : Nat} (hi : i ≤ height) {a b : Nat} (ha : made i ≤ a) (hb : b ≤ m)
    {args : List Value} (hinvoke : p.Performs a b (.invoke (.object (c i)) args) (.object x)) :
    x < (p.heapAt m).size ∧ (p.heapAt m).link x = .object (c i + 1) := by
  obtain ⟨hab, depth, r, r', hr, hr', hrun⟩ := hinvoke
  obtain ⟨x, r₁, hrun, hpure⟩ := bind_eq_ok hrun
  cases hpure
  obtain ⟨rfl, events, -, hheap, hadmits⟩ :=
    invoke_eq_ok (composedCaller_callFunction p.functions depth) hrun
  have hprototype : r.heap.constructionPrototype (c i) = some (c i + 1) := by
    rw [hr]
    exact ht.constructionPrototype hs hi ha (Nat.le_trans hab hb)
  rw [hprototype] at hheap hadmits
  -- the link is there from the first event on, and the initializer does not change it either
  have hlt : r.heap.size < r'.heap.size := by
    rw [hheap]
    exact Nat.lt_of_lt_of_le (by simp [committed]) (Heap.size_le_foldl _ _)
  have hlink : r'.heap.link r.heap.size = .object (c i + 1) := by
    have hmade := ht.made_le (Nat.zero_le i) hi
    have hepoch : r'.heap.epoch = r.heap.epoch := by
      rw [hr, hr', ← hs.epoch_eq (Nat.le_trans hmade ha) (Nat.le_trans hab hb),
        ← hs.epoch_eq (Nat.le_trans hmade (Nat.le_trans ha hab)) hb]
    rw [hheap] at hepoch ⊢
    rw [hadmits.link_eq hepoch (by simp [committed]), committed, Heap.link_allocate, if_pos rfl]
    rfl
  rw [hr'] at hlt hlink
  refine ⟨Nat.lt_of_lt_of_le hlt (p.size_le_heapAt hb), ?_⟩
  rw [ht.link_eq hs hi (Nat.le_trans ha hab) hb hlt, hlink]

end Tower

/--
In a steady stretch over a tower, an instance that a constructor of the tower made is one of that
constructor and of those below, and of no other; each constructor is above those that extend it,
directly or not; and whatever is an instance of one is an instance of all those below it.
-/
theorem tower_heapAt {height : Nat} {c made : Nat → Nat} (ht : p.Tower height c made)
    (hs : p.Steady height c made m) {r : Realm Session} (hr : r.heap = p.heapAt m) :
    (∀ i ≤ height, ∀ j ≤ height, ∀ a b args x, made i ≤ a → b ≤ m →
        p.Performs a b (.invoke (.object (c i)) args) (.object x) →
        r.Searches x (instanceOf (.object x) (.object (c j))) (j ≤ i)) ∧
      (∀ i ≤ height, ∀ j ≤ height,
        r.Searches (c j) (isPrototypeOf (.object (c i)) (.object (c j))) (i < j)) ∧
      ∀ i j, i ≤ j → j ≤ height → ∀ x < r.heap.size,
        instanceOf (.object x) (.object (c j)) r = .ok true r →
        instanceOf (.object x) (.object (c i)) r = .ok true r := by
  have hset : r.heap.Settled := by
    rw [hr]
    exact p.settled_heapAt m
  have hladder : r.heap.Ladder height c := hr ▸ ht.ladder hs
  have hladder' : r.heap.Ladder height (c · + 1) := hr ▸ ht.ladder_prototype hs
  have hinstance {i x : Nat} (hi : i ≤ height) (hx : x < r.heap.size) :
      r.Searches x (instanceOf (.object x) (.object (c i)))
        (c i + 1 ∈ (r.heap.chain (some x)).tail) := by
    obtain ⟨k, hk⟩ := ht.constructor? hs hi
    rw [← hr] at hk
    refine searches_instanceOf hset hk ?_ hx
    rw [hr]
    exact ht.constructionPrototype hs hi (ht.made_le_end hs hi) (Nat.le_refl _)
  refine ⟨?_, ?_, ?_⟩
  · intro i hi j hj a b args x ha hb hinvoke
    obtain ⟨hx, hlink⟩ := ht.link_of_invoke hs hi ha hb hinvoke
    rw [← hr] at hx hlink
    refine (hinstance hj hx).congr ?_
    rw [hset.chain_eq_cons hx, List.tail_cons, Heap.prototype, hlink]
    exact hladder'.mem_chain_iff hset hi hj
  · intro i hi j hj
    exact (searches_isPrototypeOf hset (hladder.lt_size j hj) (hladder.lt_size i hi)).congr
      (hladder.mem_tail_iff hset hj hi)
  · intro i j hij hj x hx hof
    have hi := Nat.le_trans hij hj
    rw [(hinstance hj hx).holds_iff] at hof
    refine (hinstance hi hx).found ?_
    obtain rfl | hlt := Nat.eq_or_lt_of_le hij
    · exact hof
    · exact hset.mem_tail_trans hx ((hladder'.mem_tail_iff hset hj hi).2 hlt) hof

def towering : Program where
  steps := [
    .bind "A" (.operation (.createConstructor (some (.literal (.str "A")))
      (some (.literal (.function "init"))) none none)),
    .bind "n" (.operation (.createObject none)),
    .bind "B" (.operation (.extend (.variable "A") none (some (.literal (.function "init"))))),
    .bind "x" (.operation (.invoke (.variable "B") [.literal (.int 1)])),
    .operation (.freeze (.variable "A")),
    .bind "C" (.operation (.extend (.variable "B") none none)),
    .operation (.set (.variable "x") (.literal (.str "k")) (.variable "n") none)]
  functions := [("init", [.operation (.set .this (.literal (.str "tag")) (.arg 0) none)])]

theorem tower_heapAt_towering :
    let c (i : Nat) : ObjectId := 3 * i
    let made (i : Nat) := [6, 13, 23].getD i 0
    let r := towering.run.2
    towering.Tower 2 c made ∧ towering.Steady 2 c made 24 ∧
      instanceOf (.object 5) (.object (c 0)) r = .ok true r ∧
      instanceOf (.object 5) (.object (c 2)) r = .ok false r ∧
      isPrototypeOf (.object (c 0)) (.object (c 2)) r = .ok true r := by
  intro c made r
  have hmoments : ∀ k < 7, towering.momentOf k = [0, 6, 7, 13, 16, 17, 23].getD k 0 := by
    decide +kernel
  have hperforms {k n m : Nat} {op : Operation Value} {v : Value} (hk : k < 6)
      (hn : [0, 6, 7, 13, 16, 17, 23].getD k 0 = n)
      (hm : [0, 6, 7, 13, 16, 17, 23].getD (k + 1) 0 = m)
      (h : towering.Performs (towering.momentOf k) (towering.momentOf (k + 1)) op v) :
      towering.Performs n m op v := by
    rwa [hmoments k (by omega), hmoments (k + 1) (by omega), hn, hm] at h
  have hcreate : towering.Performs 0 6 (.createConstructor (some (.str "A"))
      (some (.function "init")) none none) (.object 0) :=
    hperforms (k := 0) (by decide) rfl rfl
      (performs_of_step rfl rfl rfl rfl (by decide +kernel))
  have hextend : towering.Performs 7 13 (.extend (.object 0) none (some (.function "init")))
      (.object 3) := by
    refine hperforms (k := 2) (by decide) rfl rfl
      (performs_of_step rfl rfl rfl ?_ (by decide +kernel))
    rw [Operation.mapM, bind_ok (eval_variable (v := .object 0) (by decide +kernel) _)]
    rfl
  have hinvoke : towering.Performs 13 16 (.invoke (.object 3) [.int 1]) (.object 5) := by
    refine hperforms (k := 3) (by decide) rfl rfl
      (performs_of_step rfl rfl rfl ?_ (by decide +kernel))
    rw [Operation.mapM, bind_ok (eval_variable (v := .object 3) (by decide +kernel) _)]
    rfl
  have hextend' : towering.Performs 17 23 (.extend (.object 3) none none) (.object 6) := by
    refine hperforms (k := 5) (by decide) rfl rfl
      (performs_of_step rfl rfl rfl ?_ (by decide +kernel))
    rw [Operation.mapM, bind_ok (eval_variable (v := .object 3) (by decide +kernel) _)]
    rfl
  have ht : towering.Tower 2 c made := by
    refine ⟨⟨0, _, _, _, _, hcreate⟩, fun i hi => ?_⟩
    obtain rfl | rfl : i = 0 ∨ i = 1 := by omega
    · exact ⟨7, _, _, by decide, hextend⟩
    · exact ⟨17, _, _, by decide, hextend'⟩
  have hs : towering.Steady 2 c made 24 :=
    ⟨by decide, by decide +kernel, by decide +kernel⟩
  have hr : r.heap = towering.heapAt 24 := by
    have hlength : towering.events.length = 24 := by decide +kernel
    rw [← hlength, heapAt_length_events]
  have hend : r.heap.strayEnd? (some 5) = none := by decide +kernel
  obtain ⟨hinstances, habove, -⟩ := tower_heapAt ht hs hr
  refine ⟨ht, hs, ?_, ?_, ?_⟩
  · exact (hinstances 1 (by decide) 0 (by decide) 13 16 _ 5 (by decide) (by decide)
      hinvoke).found (by decide)
  · rw [(hinstances 1 (by decide) 2 (by decide) 13 16 _ 5 (by decide) (by decide)
      hinvoke).missed (by decide), hend]
  · exact (habove 0 (by decide) 2 (by decide)).found (by decide)

end ObjectModel.Script.Program
