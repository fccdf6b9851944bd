import ObjectModel.Proofs.Steps.Relation

/-!
Laws about steps. What the steps keep, the computations keep that are made of them, if the functions
keep it that they call.
-/

namespace ObjectModel.Realm

variable {σ α : Type} {T : Terms σ} {P : Nat → α → Prop} {m : RealmM σ α} {r r' : Realm σ}

section Open

variable (hopen : ¬ T.closed)
include hopen

/-- What holds of the steps and of the functions of the client, and composes, holds of the whole. -/
theorem Steps.rel {R : Realm σ → Realm σ → Prop} (refl : ∀ r, R r r)
    (trans : ∀ {r r' r''}, R r r' → R r' r'' → R r r'')
    (setStrict : ∀ r v, R r { r with strict := v })
    (setClient : ∀ r client, R r { r with client })
    (extendPool : ∀ {r pool}, T.mints → r.pool.Extends pool → R r { r with pool })
    (note : ∀ {r o key id d}, r.pool.descriptor? id = some d →
      (r.heap.table o).lookup key = some d → R r { r with pool := r.pool.install o key id })
    (emit : ∀ {r event}, event.Admissible r.heap → event.Spares →
      (¬ event.Quiet → T.permits event) →
      R r { r with heap := r.heap.after event, trace := r.trace.push event })
    (rewrite : ∀ {r change}, change.Admissible r.heap → T.permits (.changed change) →
      R r { r with
        heap := r.heap.apply change
        trace := r.trace.push (.changed change)
        pool := r.pool.forget change })
    (hcall : ∀ name this args r, R r (ending (T.call name this args r)))
    (h : Steps T P m r) : R r (ending (m r)) := by
  -- the terms are not closed, so nothing is to be known of what the parts return
  induction h with
  | pure | fail | stray | uncallable | throw => exact refl _
  | @bind α β P Q m f r hm hf ihm ihf =>
    cases hr : m r with
    | ok a r' =>
      rw [bind_ok hr]
      rw [hr] at ihm
      exact trans ihm (ihf a r' hr fun hT => absurd hT hopen)
    | error failure r' =>
      rw [bind_error hr]
      rw [hr] at ihm
      exact ihm
  | @tryCatch α P m handler r hm hh ihm ihh =>
    cases hr : m r with
    | ok a r' =>
      rw [tryCatch_ok hr]
      rw [hr] at ihm
      exact ihm
    | error failure r' =>
      rw [tryCatch_error hr]
      rw [hr] at ihm
      exact trans ihm (ihh failure r' hr fun hT => absurd hT hopen)
  | weaken hm h ih => exact ih
  | inClosed h ih => exact ih fun hT => absurd hT hopen
  | inspect hf h ih => exact ih
  | setStrict h hv => exact setStrict _ _
  | extendPool h hf hin => exact extendPool h hf
  | note hid hd => exact note hid hd
  | client hstrict hin => exact setClient _ _
  | @within α P m enter leave r hm hfails henter hleave ih =>
    unfold Realm.within
    cases hr : m { r with client := enter r.client } with
    | ok a r' =>
      rw [hr] at ih
      exact trans (trans (setClient r _) ih) (setClient r' _)
    | error failure r' =>
      rw [hr] at ih
      exact trans (trans (setClient r _) ih) (setClient r' _)
  | emit hadm hspares hlink h hin => exact emit hadm hspares h
  | rewrite hadm hlink h hin => exact rewrite hadm h
  | @relinked o prototype r shown hadm h =>
    exact trans (@emit _ (.changed (.relink o prototype)) hadm trivial fun _ => h _ trivial)
      (@emit _ (.logged (.relinked ..)) trivial trivial fun _ => h _ trivial)
  | call name hin => exact hcall name _ _ _

theorem Steps.relOfEvents {R : Realm σ → Realm σ → Prop} (refl : ∀ r, R r r)
    (trans : ∀ {r r' r''}, R r r' → R r' r'' → R r r'')
    (setStrict : ∀ r v, R r { r with strict := v })
    (setPool : ∀ {r pool}, T.mints ∨ r.pool.SameContent pool → R r { r with pool })
    (setClient : ∀ r client, R r { r with client })
    (emit : ∀ {r event}, event.Admissible r.heap → (¬ event.Quiet → T.permits event) →
      R r { r with heap := r.heap.after event, trace := r.trace.push event })
    (hcall : ∀ name this args r, R r (ending (T.call name this args r)))
    (h : Steps T P m r) : R r (ending (m r)) := by
  refine h.rel hopen refl trans setStrict setClient ?_ ?_ ?_ ?_ hcall
  · exact fun hmints _ => setPool (.inl hmints)
  · exact fun _ _ => setPool (.inr ⟨rfl, rfl, rfl⟩)
  · exact fun hadm _ hpermitted => emit hadm hpermitted
  · intro r change hadm hpermitted
    exact trans (@emit _ (.changed change) hadm fun _ => hpermitted)
      (setPool (.inr (r.pool.sameContent_forget change)))

theorem Steps.composed (hcall : ComposedCaller T.aware T.call) (h : Steps T P m r) :
    Composed T.aware m r := by
  induction h with
  | pure => exact .pure _ _
  | fail | stray | uncallable | throw => exact .throw _ _
  | bind hm hf ihm ihf => exact .bind ihm fun a r' hr => ihf a r' hr fun hT => absurd hT hopen
  | tryCatch hm hh ihm ihh =>
    exact .tryCatch ihm fun failure r' hr => ihh failure r' hr fun hT => absurd hT hopen
  | weaken hm h ih => exact ih
  | inClosed h ih => exact ih fun hT => absurd hT hopen
  | inspect hf h ih => exact .inspect ih h
  | setStrict h hv => exact .setStrict h _ _
  | extendPool | note => exact .modifyPool _ _
  | client hstrict hin => exact .client hstrict
  | within hm hfails henter hleave ih => exact .within _ _ ih
  | @emit event r hadm hspares hlink h hin =>
    cases event with
    | changed change =>
      refine .commit hadm ?_
      rintro o prototype rfl
      exact hlink trivial
    | logged entry =>
      refine .log _ ?_
      rintro o prototype n rfl
      exact hlink trivial
    | condoned error => exact .condoned _ _
  | rewrite hadm hlink h hin =>
    refine .bind (.commit hadm ?_) fun _ _ _ => .modifyPool _ _
    rintro o prototype rfl
    exact hlink trivial
  | relinked shown hadm h => exact .relinked shown hadm
  | call name hin => exact hcall _ _ _ _

theorem Steps.follows (hcall : ComposedCaller T.aware T.call) (h : Steps T P m r) :
    r.Follows (ending (m r)) :=
  (h.composed hopen hcall).follows

theorem Steps.trace_isPrefix (hcall : ∀ name this args (r : Realm σ),
      r.trace.toList <+: (ending (T.call name this args r)).trace.toList)
    (h : Steps T P m r) : r.trace.toList <+: (ending (m r)).trace.toList := by
  apply h.relOfEvents hopen (R := fun r r' => r.trace.toList <+: r'.trace.toList)
  · exact fun r => List.prefix_refl _
  · exact List.IsPrefix.trans
  · exact fun _ _ => List.prefix_refl _
  · exact fun _ => List.prefix_refl _
  · exact fun _ _ => List.prefix_refl _
  · intro r event _ _
    simp
  · exact hcall

theorem Steps.explained (hcall : ∀ name this args (r : Realm σ),
      r.trace.toList <+: (ending (T.call name this args r)).trace.toList)
    (h : Steps T P m r) {failure : Failure} (hm : m r = .error failure r') :
    Explained r'.heap failure ∨ r.Threw T.call failure r' ∨ T.fails failure := by
  have after {r r₁ : Realm σ} (hlonger : r.trace.toList <+: r₁.trace.toList) {failure : Failure}
      (h : Explained r'.heap failure ∨ r₁.Threw T.call failure r' ∨ T.fails failure) :
      Explained r'.heap failure ∨ r.Threw T.call failure r' ∨ T.fails failure := by
    refine h.imp_right (.imp_left ?_)
    rintro ⟨name, this, args, r₂, hlater, hthrown⟩
    exact ⟨name, this, args, r₂, hlonger.trans hlater, hthrown⟩
  -- a failure comes of one of the parts, and the trace that it found only goes on from this one
  induction h generalizing failure with
  | fail error r =>
    cases hm
    exact .inl (.refused error)
  | stray hstray =>
    cases hm
    exact .inl (.stray hstray)
  | uncallable h =>
    cases hm
    exact .inl (.uncallable h)
  | throw h r =>
    cases hm
    exact .inr (.inr h)
  | @bind α β P Q m f r hfirst hf ihm ihf =>
    cases hr : m r with
    | error failure r₁ =>
      rw [bind_error hr] at hm
      cases hm
      exact ihm hr
    | ok a r₁ =>
      rw [bind_ok hr] at hm
      have hlonger := hfirst.trace_isPrefix hopen hcall
      rw [hr] at hlonger
      exact after hlonger (ihf a r₁ hr (fun hT => absurd hT hopen) hm)
  | @tryCatch α P m handler r hfirst hh ihm ihh =>
    cases hr : m r with
    | ok a r₁ =>
      rw [tryCatch_ok hr] at hm
      cases hm
    | error failure₁ r₁ =>
      rw [tryCatch_error hr] at hm
      have hlonger := hfirst.trace_isPrefix hopen hcall
      rw [hr] at hlonger
      exact after hlonger (ihh failure₁ r₁ hr (fun hT => absurd hT hopen) hm)
  | weaken hm' h ih => exact ih hm
  | inClosed h ih => exact ih (fun hT => absurd hT hopen) hm
  | inspect hf h ih => exact ih hm
  | within hm' hfails henter hleave ih => exact .inr (.inr (hfails failure))
  | call name hin => exact .inr (.inl ⟨name, _, _, _, List.prefix_refl _, hm⟩)
  | pure | setStrict | extendPool | note | client | emit | rewrite | relinked => cases hm

theorem Steps.spares {n : Nat} (hpermits : ∀ event, T.permits event → event.Passes n)
    (hcall : ∀ name this args (r : Realm σ), r.Spares n (ending (T.call name this args r)))
    (h : Steps T P m r) (hn : n ≤ r.heap.size) : r.Spares n (ending (m r)) := by
  revert hn
  apply h.relOfEvents hopen (R := fun r r' => n ≤ r.heap.size → r.Spares n r')
  · exact fun r _ => .refl r
  · exact fun first second hn => (first hn).trans (second (Nat.le_trans hn (first hn).size))
  · exact fun _ _ _ => .of_eq rfl rfl
  · exact fun _ _ => .of_eq rfl rfl
  · exact fun _ _ _ => .of_eq rfl rfl
  · intro r event _ hpermitted hn
    refine .emit hn ?_
    by_cases hquiet : event.Quiet
    · exact hquiet.passes n
    · exact hpermits event (hpermitted hquiet)
  · exact fun name this args r _ => hcall name this args r

end Open

def ClosedCaller (C : Nat → σ → Prop) (call : Caller σ) : Prop :=
  ∀ name this args (r : Realm σ), r.Closed C → this.Within r.heap.size →
    (∀ v ∈ args, v.Within r.heap.size) → ClosedFrom C Value.Within r (call name this args r)

theorem closedCaller_barred {C : Nat → σ → Prop} : ClosedCaller C barred :=
  fun _ _ _ _ hr _ _ => ⟨.refl _, hr, nofun⟩

theorem Steps.closedFrom (hT : T.closed) (hcall : ClosedCaller T.kept T.call)
    (h : Steps T P m r) (hr : r.Closed T.kept) : ClosedFrom T.kept P r (m r) := by
  induction h with
  | pure ha =>
    refine ⟨.refl _, hr, ?_⟩
    rintro _ _ ⟨⟩
    exact ha hT
  | fail | stray | uncallable | throw => exact ⟨.refl _, hr, nofun⟩
  | @bind α β P Q m f r hm hf ihm ihf =>
    have hfirst := ihm hr
    cases hrun : m r with
    | ok a r' =>
      rw [hrun] at hfirst
      obtain ⟨hgrows, hclosed, hresult⟩ := hfirst
      rw [bind_ok hrun]
      exact (ihf a r' hrun (fun _ => ⟨hgrows.size_le, hresult rfl⟩) hclosed).after hgrows
    | error failure r' =>
      rw [hrun] at hfirst
      rw [bind_error hrun]
      exact ⟨hfirst.grows, hfirst.closed, nofun⟩
  | @tryCatch α P m handler r hm hh ihm ihh =>
    have hfirst := ihm hr
    cases hrun : m r with
    | ok a r' =>
      rw [hrun] at hfirst
      rw [tryCatch_ok hrun]
      exact hfirst
    | error failure r' =>
      rw [hrun] at hfirst
      obtain ⟨hgrows, hclosed, -⟩ := hfirst
      rw [tryCatch_error hrun]
      exact (ihh failure r' hrun (fun _ => hgrows.size_le) hclosed).after hgrows
  | weaken hm h ih =>
    obtain ⟨hgrows, hclosed, hresult⟩ := ih hr
    exact ⟨hgrows, hclosed, fun hok => h _ _ (hresult hok)⟩
  | inClosed h ih => exact ih (fun _ => hr) hr
  | inspect hf h ih => exact ih hr
  | setStrict h hv => exact ⟨.of_eq rfl rfl, ⟨hr.heap, hr.pool, hv hT, hr.client⟩, fun _ => trivial⟩
  | extendPool h hf hin =>
    exact ⟨.of_eq rfl rfl, ⟨hr.heap, hin hT hr.pool, hr.strict, hr.client⟩, fun _ => trivial⟩
  | note hid hd =>
    exact ⟨.of_eq rfl rfl, ⟨hr.heap, hr.pool.modifyInstalled _ _, hr.strict, hr.client⟩,
      fun _ => trivial⟩
  | client hstrict hin =>
    obtain ⟨hresult, hkept⟩ := hin hT
    refine ⟨.of_eq rfl rfl, ⟨hr.heap, hr.pool, hr.strict, fun n hn => ?_⟩, ?_⟩
    · exact hkept n hn (hr.client n hn)
    · rintro _ _ ⟨⟩
      exact hresult
  | @within α P m enter leave r hm hfails henter hleave ih =>
    have hinside := ih ⟨hr.heap, hr.pool, hr.strict,
      fun n hn => henter hT n hn (hr.client n hn)⟩
    -- what was outside is still there, and the heap has not become smaller
    have hback {r' : Realm σ} (hgrows : r.Grows r') (hr' : r'.Closed T.kept) :
        Closed T.kept { r' with client := leave r.client r'.client } :=
      ⟨hr'.heap, hr'.pool, hr'.strict, fun n hn => hleave hT n _
        (hr.client n (Nat.le_trans hgrows.size_le hn)) (hr'.client n hn)⟩
    unfold Realm.within
    cases hrun : m { r with client := enter r.client } with
    | ok a r' =>
      rw [hrun] at hinside
      obtain ⟨hgrows, hclosed, hresult⟩ := hinside
      have hresult : P r'.heap.size a := hresult rfl
      refine ⟨hgrows, hback hgrows hclosed, ?_⟩
      rintro _ _ ⟨⟩
      exact hresult
    | error failure r' =>
      rw [hrun] at hinside
      exact ⟨hinside.grows, hback hinside.grows hinside.closed, nofun⟩
  | emit hadm hspares hlink h hin =>
    exact ⟨.emit (hin hT), hr.emit (hin hT), fun _ => trivial⟩
  | @rewrite change r hadm hlink h hin =>
    have hin : Event.Within r.heap (.changed change) := hin hT
    have hafter := hr.emit hin
    refine ⟨.emit hin, ?_, fun _ => trivial⟩
    exact ⟨hafter.heap, hafter.pool.forget change, hafter.strict, hafter.client⟩
  | @relinked o prototype r shown hadm h =>
    have hin : Event.Within r.heap (.changed (.relink o prototype)) := hadm.target
    have hlogged {h : Heap} {entry : LogEntry} : Event.Within h (.logged entry) := trivial
    exact ⟨(Grows.emit hin).trans (.emit hlogged), (hr.emit hin).emit hlogged, fun _ => trivial⟩
  | call name hin =>
    obtain ⟨hthis, hargs⟩ := hin hT
    exact hcall _ _ _ _ hr hthis hargs

theorem Steps.inline {call : Caller σ} (hcall : ∀ name this args (r : Realm σ),
      (T.closed → this.Within r.heap.size ∧ ∀ v ∈ args, v.Within r.heap.size) →
      Steps T Value.Within (call name this args) r)
    (h : Steps { T with call } P m r) : Steps T P m r := by
  induction h with
  | pure ha => exact .pure ha
  | fail error r => exact .fail error r
  | stray hstray => exact .stray hstray
  | uncallable h => exact .uncallable h
  | throw h r => exact .throw (T := T) h r
  | bind hm hf ihm ihf => exact .bind ihm ihf
  | tryCatch hm hh ihm ihh => exact .tryCatch ihm ihh
  | weaken hm h ih => exact .weaken ih h
  | inClosed h ih => exact .inClosed ih
  | inspect hf h ih => exact .inspect ih h
  | setStrict h hv => exact .setStrict h hv
  | extendPool h hf hin => exact .extendPool h hf hin
  | note hid hd => exact .note hid hd
  | client hstrict hin => exact .client hstrict hin
  | within hm hfails henter hleave ih => exact .within ih hfails henter hleave
  | emit hadm hspares hlink h hin => exact .emit hadm hspares hlink h hin
  | rewrite hadm hlink h hin => exact .rewrite hadm hlink h hin
  | relinked shown hadm h => exact .relinked shown hadm h
  | call name hin => exact hcall name _ _ _ hin

end ObjectModel.Realm
