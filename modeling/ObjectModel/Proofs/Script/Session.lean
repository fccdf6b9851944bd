import ObjectModel.Proofs.Value.Within
import ObjectModel.Script.Session

/-!
Sessions that name no record but the first so many.
-/

namespace ObjectModel.Script

variable {n n' : Nat}

structure Frame.Within (n : Nat) (frame : Frame) : Prop where
  this : frame.this.Within n
  args : ∀ v ∈ frame.args, v.Within n
  locals : ∀ entry ∈ frame.locals, entry.2.Within n

structure Session.Within (n : Nat) (s : Session) : Prop where
  globals : ∀ entry ∈ s.globals, entry.2.Within n
  frame : ∀ frame ∈ s.frame, frame.Within n

theorem Frame.Within.mono {frame : Frame} (hf : frame.Within n) (hle : n ≤ n') :
    frame.Within n' :=
  ⟨hf.this.mono hle, fun v h => (hf.args v h).mono hle, fun entry h => (hf.locals entry h).mono hle⟩

theorem within_lookup {entries : List (String × Value)} {name : String} {v : Value}
    (hentries : ∀ entry ∈ entries, entry.2.Within n) (hv : entries.lookup name = some v) :
    v.Within n := by
  obtain ⟨before, after, rfl, -⟩ := List.lookup_eq_some_iff.1 hv
  exact hentries (name, v) (List.mem_append_right _ List.mem_cons_self)

theorem Session.Within.lookup? {s : Session} (hs : s.Within n) {name : String} {v : Value}
    (hv : s.lookup? name = some v) : v.Within n := by
  rw [Session.lookup?, Option.or_eq_some_iff] at hv
  obtain hlocal | ⟨-, hglobal⟩ := hv
  · obtain ⟨frame, hframe, hlookup⟩ := Option.bind_eq_some_iff.1 hlocal
    exact within_lookup (hs.frame frame hframe).locals hlookup
  · exact within_lookup hs.globals hglobal

theorem Session.Within.bind {s : Session} (hs : s.Within n) (name : String) {v : Value}
    (hv : v.Within n) : (s.bind name v).Within n := by
  unfold Session.bind
  split
  · next frame hframe =>
    refine ⟨hs.globals, ?_⟩
    rintro _ ⟨⟩
    obtain ⟨hthis, hargs, hlocals⟩ := hs.frame frame hframe
    exact ⟨hthis, hargs, List.forall_mem_cons.2 ⟨hv, hlocals⟩⟩
  · exact ⟨List.forall_mem_cons.2 ⟨hv, hs.globals⟩, hs.frame⟩

theorem Session.Within.this {s : Session} (hs : s.Within n) : s.this.Within n := by
  unfold Session.this
  split
  · next frame hframe => exact (hs.frame frame hframe).this
  · trivial

theorem Session.Within.arg {s : Session} (hs : s.Within n) (index : Nat) :
    (s.arg index).Within n := by
  rw [Session.arg]
  cases harg : s.frame.bind (·.args[index]?) with
  | none => trivial
  | some v =>
    obtain ⟨frame, hframe, hv⟩ := Option.bind_eq_some_iff.1 harg
    exact (hs.frame frame hframe).args v (List.mem_of_getElem? hv)

end ObjectModel.Script
