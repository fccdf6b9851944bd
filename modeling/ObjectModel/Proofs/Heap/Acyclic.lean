import ObjectModel.Proofs.Heap.Settled
import ObjectModel.Proofs.Heap.Walk

/-!
Heaps in which all chains end at `none`: settled ones without a link that strays. Every admitted
history keeps a heap so, as long as the records made by hand are linked to records or to nothing.
-/

namespace ObjectModel

def Event.LinkedByHand (h : Heap) : Event → Prop
  | changed (.allocate link _ false) => link = .none ∨ (h.object? link).isSome
  | _ => True

instance (h : Heap) : DecidablePred (Event.LinkedByHand h)
  | .changed (.allocate link _ false) =>
    inferInstanceAs (Decidable (link = .none ∨ (h.object? link).isSome))
  | .changed (.allocate _ _ true) | .changed (.define ..) | .changed (.remove ..)
  | .changed (.preventExtensions _) | .changed (.freeze _) | .changed (.relink ..) | .logged _
  | .condoned _ => inferInstanceAs (Decidable True)

namespace Heap

def Acyclic (h : Heap) : Prop :=
  ∀ o < h.size, ∃ os, h.Walk (.object o) os

/-- All walks from a record end: the chain of the record is the walk to its end, no record is on it
twice, and the other walks are searches along the chain. -/
structure Grounded (h : Heap) (o : ObjectId) : Prop where
  walk : h.Walk (.object o) (h.chain (some o))
  nodup : (h.chain (some o)).Nodup
  length_le : (h.chain (some o)).length ≤ h.size
  strayEnd? : h.strayEnd? (some o) = none
  findProperty : ∀ key, h.findProperty (some o) key = h.firstOwner key (h.chain (some o))
  reaches : ∀ ancestor, h.reaches (some o) ancestor = (h.chain (some o)).contains ancestor
  isPrototypeOf : ∀ ancestor,
    h.isPrototypeOf ancestor o = (h.chain (some o)).tail.contains ancestor

def LinkedByHand (h : Heap) : List Event → Prop
  | [] => True
  | event :: rest => event.LinkedByHand h ∧ (h.after event).LinkedByHand rest

instance (h : Heap) : DecidablePred h.LinkedByHand :=
  go h
where
  go (h : Heap) : (events : List Event) → Decidable (h.LinkedByHand events)
    | [] => inferInstanceAs (Decidable True)
    | event :: rest =>
      have := go (h.after event) rest
      inferInstanceAs (Decidable (event.LinkedByHand h ∧ (h.after event).LinkedByHand rest))

variable {h : Heap}

def Unstraying (h : Heap) : Prop :=
  ∀ o < h.size, ∃ prototype, h.link o = .ofLink prototype

theorem acyclic_iff : h.Acyclic ↔ h.Settled ∧ h.Unstraying := by
  constructor
  · intro hac
    constructor
    · intro o ho
      obtain ⟨os, hw⟩ := hac o ho
      have hw : h.Walk (.ofLink (some o)) os := hw
      exact ⟨os, hw.ascent⟩
    · intro o ho
      obtain ⟨os, hw⟩ := hac o ho
      cases hw with
      | next hlt hrest => exact ⟨_, (ofLink_prototype hrest.strayLink?_eq).symm⟩
  · rintro ⟨hset, hlinks⟩ o ho
    obtain ⟨os, ha⟩ := hset o ho
    refine ⟨os, ha.walk fun x hx => ?_⟩
    obtain ⟨prototype, hlink⟩ := hlinks x (ha.lt_size hx)
    rw [strayLink?, hlink]
    cases prototype <;> rfl

theorem Acyclic.grounded (hac : h.Acyclic) {o : ObjectId} (ho : o < h.size) : h.Grounded o := by
  obtain ⟨os, hw⟩ := hac o ho
  have hchain : h.chain (some o) = os :=
    (show h.Walk (.ofLink (some o)) os from hw).chain_eq
  cases hw with
  | @next _ rest hlt hrest =>
    have hw : h.Walk (.ofLink (some o)) (o :: rest) := .next hlt hrest
    have hparent : h.Walk (.ofLink (h.prototype o)) rest :=
      ofLink_prototype hrest.strayLink?_eq ▸ hrest
    constructor
    · rw [hchain]
      exact hw
    · rw [hchain]
      exact hw.ascent.nodup
    · rw [hchain]
      exact hw.ascent.length_le
    · exact hw.strayEnd?_eq
    · rw [hchain]
      exact hw.findProperty_eq
    · rw [hchain]
      exact hw.reaches_eq
    · rw [hchain]
      exact hparent.reaches_eq

theorem linked_of_allocate {link : Value} {c : Option Constructor} {counted : Bool}
    (hadm : (Event.changed (.allocate link c counted)).Admissible h)
    (hhand : (Event.changed (.allocate link c counted)).LinkedByHand h) :
    ∃ prototype, link = .ofLink prototype ∧ ∀ p ∈ prototype, p < h.size := by
  -- a record made by hand is asked for the same that an allocation has checked
  have hlink : link = .none ∨ (h.object? link).isSome := by
    cases counted with
    | false => exact hhand
    | true => exact hadm rfl
  obtain hnone | hobject := hlink
  · exact ⟨none, hnone, nofun⟩
  · obtain ⟨p, hp⟩ := Option.isSome_iff_exists.1 hobject
    obtain ⟨heq, hlt⟩ := object?_eq_some hp
    refine ⟨some p, heq, ?_⟩
    rintro _ ⟨⟩
    exact hlt

theorem within_of_linkedByHand {event : Event} (hadm : event.Admissible h)
    (hhand : event.LinkedByHand h) : event.LinkedWithin h := by
  cases event with
  | logged => trivial
  | condoned => trivial
  | changed change =>
    cases change with
    | allocate link c counted =>
      obtain ⟨prototype, rfl, hlt⟩ := linked_of_allocate hadm hhand
      exact Value.within_ofLink hlt
    | _ => trivial

theorem Unstraying.after (hlinks : h.Unstraying) {event : Event} (hadm : event.Admissible h)
    (hhand : event.LinkedByHand h) : (h.after event).Unstraying := by
  have htable (o : ObjectId) (f : Table → Table) : (h.updateTable o f).Unstraying := by
    intro x hx
    rw [link_updateTable]
    exact hlinks x (by simpa using hx)
  cases event with
  | logged => exact hlinks
  | condoned => exact hlinks
  | changed change =>
    cases change with
    | allocate link c counted =>
      intro x hx
      rw [Heap.after, size_allocate] at hx
      rw [Heap.after, link_allocate]
      by_cases hnew : x = h.size
      · obtain ⟨prototype, hlink, -⟩ := linked_of_allocate hadm hhand
        rw [if_pos hnew]
        exact ⟨prototype, hlink⟩
      · rw [if_neg hnew]
        exact hlinks x (by omega)
    | define o key d => exact htable _ _
    | remove o key => exact htable _ _
    | preventExtensions o => exact htable _ _
    | freeze o => exact htable _ _
    | relink o prototype =>
      intro x hx
      rw [Heap.after, size_relink] at hx
      rw [Heap.after, link_relink]
      split
      · exact ⟨prototype, rfl⟩
      · exact hlinks x hx

theorem Acyclic.after (hac : h.Acyclic) {event : Event} (hadm : event.Admissible h)
    (hhand : event.LinkedByHand h) : (h.after event).Acyclic := by
  obtain ⟨hset, hstray⟩ := acyclic_iff.1 hac
  exact acyclic_iff.2
    ⟨hset.after hadm (within_of_linkedByHand hadm hhand), hstray.after hadm hhand⟩

theorem LinkedByHand.take {events : List Event} (hlinked : h.LinkedByHand events) (n : Nat) :
    h.LinkedByHand (events.take n) := by
  induction events generalizing h n with
  | nil => simpa using hlinked
  | cons event rest ih =>
    cases n with
    | zero => trivial
    | succ n => exact ⟨hlinked.1, ih hlinked.2 n⟩

theorem Acyclic.foldl (hac : h.Acyclic) {events : List Event} (hadmits : h.Admits events)
    (hlinked : h.LinkedByHand events) : (events.foldl Heap.after h).Acyclic := by
  induction events generalizing h with
  | nil => exact hac
  | cons event rest ih => exact ih (hac.after hadmits.1 hlinked.1) hadmits.2 hlinked.2

theorem acyclic_empty : ({} : Heap).Acyclic := by
  intro o ho
  cases ho

end Heap

end ObjectModel
