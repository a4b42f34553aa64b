import Cpredict.Operations.Finality

/-!
# Cancelled operations

A refresh closes an operation whose result is unknown when its admission has expired, the bundler does not know its
user operation, and the chain has not used its nonce. What the chain does afterwards is not asked any more: the user
operation may still be executed, and the operation stays cancelled (`executed_after_closing`). An operation that is
cancelled with a hash had not been executed when it was closed (`cancelled_unexecuted`).
-/

namespace Cpredict.Operations

open Program

section

variable {cfg : ServiceConfig} {X Y : Recorded} {id : Nat} {r : StoredOperation} {hash : Bytes32}

/-- The await closes the operation. -/
def ClosesOperation (id : Nat) (o : Occurrence) : Prop :=
  (∃ at', o.event.cmd = .transition id .closeUnaccepted at') ∧
    ∃ old, o.before.rows.find id = some old ∧ old.operation.state = .unknown

/-- Only closing cancels an operation that has a hash. -/
theorem cancelled_by_closing {c : Change} {at' : Nat} {o : Operation} (h : Sound o) (hp : c.Proper)
    (hs : o.state ∈ c.source)
    (hc : (c.next at' o).state = .cancelled) (hh : (c.next at' o).userOperationHash = some hash) :
    c = .closeUnaccepted := by
  by_cases hpassed : Passed o
  · rw [next_state] at hc
    cases c with
    | closeUnaccepted => rfl
    | submit g => exact absurd hpassed (source_submit hs)
    | settle s =>
      have hst : s.state = .cancelled := hc
      exact absurd hp.1 (by simp [hst])
    | cancel => exact absurd hs hpassed
    | expire => exact absurd hs hpassed
    | sponsor => exact absurd hc (source_not_cancelled hs)
    | proceed => exact absurd hc (source_not_cancelled hs)
    | query => exact absurd hc (source_not_cancelled hs)
    | resultUnknown => cases hc
    | reorganized => cases hc
  · rcases next_of_not_passed at' hs hpassed with ⟨g, rfl⟩ | ⟨-, hst⟩ | ⟨hcancel, -⟩
    · rw [next_state] at hc
      cases hc
    · exact absurd (hst.symm.trans hc) (source_not_cancelled hs)
    · rw [next_hash (by rintro g rfl; simp at hcancel), h.unsent hpassed] at hh
      cases hh

/-- An operation that is cancelled with a hash has been closed. -/
theorem closed_of_cancelled (h : Legal.Reachable cfg X) (hr : X.state.rows.find id = some r)
    (hc : r.operation.state = .cancelled) (hh : r.operation.userOperationHash = some hash) :
    ∃ w ∈ X.trace, ClosesOperation id w := by
  refine Reach.Reachable.invariant (I := fun X => ∀ r, X.state.rows.find id = some r → r.operation.state = .cancelled →
    r.operation.userOperationHash = some hash → ∃ w ∈ X.trace, ClosesOperation id w) ?_ ?_ h r hr hc hh
  · rintro X ⟨⟨hrows, -⟩, -⟩ r hr
    rw [hrows] at hr
    cases hr
  · intro X Y hX ih hs r hr hc hh
    obtain ⟨t, ht⟩ := Recorded.trace_le (Relation.ReflTransGen.single hs)
    have horderly := Legal.Reachable.orderly hX
    rcases hs.moves.origin horderly hr with hold | ⟨i, c, at', x, old, hp, htr, hf, hsource, rfl⟩ | ⟨-, hfresh⟩
    · obtain ⟨w, hw, hcloses⟩ := ih r hold hc hh
      exact ⟨w, ht ▸ List.mem_append_left t hw, hcloses⟩
    · obtain rfl := cancelled_by_closing (horderly.find hf).1 hp.proper hsource hc hh
      refine ⟨_, htr ▸ List.mem_append_right _ (List.mem_singleton_self _), ⟨at', rfl⟩, old, hf, ?_⟩
      simpa [Change.source] using hsource
    · rw [hfresh.state] at hc
      cases hc

/-- What a refresh has seen before it closes: the bundler does not know the user operation, its admission has
expired, and its nonce has not been used on the chain. -/
def SeesUnaccepted (hash : Bytes32) (o : Operation) (q c n : Occurrence) : Prop :=
  q.event = ⟨.userOperationReceipt hash, .ok none⟩ ∧ (∃ now, c.event = ⟨.clock, .ok now⟩ ∧ o.expiresAt ≤ now) ∧
    n.event = ⟨.getNonce o.account (o.nonce / 2 ^ 64), .ok o.nonce⟩ ∧ ¬n.before.chain.Uses o

/-- What a refresh has seen when it closes an operation. -/
theorem closing_based (h : Legal.Reachable cfg X) {w : Occurrence} (hw : w ∈ X.trace) (hcloses : ClosesOperation id w)
    (hr : X.state.rows.find id = some r) (hh : r.operation.userOperationHash = some hash) :
    ∃ q c n, [q, c, n, w].Sublist X.trace ∧ (∀ o ∈ [q, c, n], o.thread = w.thread) ∧
      SeesUnaccepted hash r.operation q c n := by
  obtain ⟨⟨at', hcmd⟩, -⟩ := hcloses
  obtain ⟨s, t, ht⟩ := List.append_of_mem hw
  obtain ⟨Z, hZ⟩ := h.split ht
  have hp := hZ.permits
  rw [hcmd] at hp
  have hcloses : Closes (own w.thread s) id := hp
  cases hcloses with
  | @intro e r₀ hash₀ now hs hunknown hexpired hsub =>
    obtain ⟨os, hos, hevents, hthread⟩ := own_sublist hsub
    obtain ⟨a, os, rfl, ha, hevents⟩ := List.map_eq_cons_iff.mp hevents.symm
    obtain ⟨q, os, rfl, hq, hevents⟩ := List.map_eq_cons_iff.mp hevents
    obtain ⟨c, os, rfl, hc, hevents⟩ := List.map_eq_cons_iff.mp hevents
    obtain ⟨n, os, rfl, hn, hevents⟩ := List.map_eq_cons_iff.mp hevents
    obtain rfl := List.map_eq_nil_iff.mp hevents
    -- the record that was read is an earlier version of the record
    have hlater : Later r₀.operation r.operation := by
      obtain ⟨r', hr', hl⟩ :=
        hZ.reachable.read_snapshot (i := w.thread) (by rw [hZ.trace]; exact hsub.subset List.mem_cons_self) hs
      obtain ⟨r'', hr'', hl'⟩ := hZ.reachable.later hZ.whole hr'
      rw [hr] at hr''
      obtain rfl := Option.some.inj hr''
      exact hl.trans hl'
    obtain rfl : hash₀ = hash := Option.some.inj ((hlater.hash hash₀ hs.hash).symm.trans hh)
    have hlast : [q, c, n].Sublist s := (List.sublist_cons_self a _).trans hos
    refine ⟨q, c, n, ?_, ?_, hq, ⟨now, hc, ?_⟩, ?_, ?_⟩
    · rw [ht]
      exact hlast.append (List.singleton_sublist.mpr List.mem_cons_self)
    · exact fun o ho => hthread o (List.mem_cons_of_mem a ho)
    · rwa [hlater.admission.expiresAt]
    · rw [hn, hlater.admission.account, hlater.admission.nonce]
    · obtain ⟨s₂, t₂, hs₂⟩ := List.append_of_mem (hlast.subset (show n ∈ [q, c, n] by simp))
      obtain ⟨W, hW⟩ := hZ.reachable.split (hZ.trace.trans hs₂)
      have heff := hW.effect
      rw [hn] at heff
      obtain ⟨-, hans | ⟨_, hans⟩⟩ := heff.rows
      · rw [← hW.state]
        refine (hW.reachable.valid).unused ?_
        rw [hlater.admission.account, hlater.admission.nonce, hW.state]
        exact (Except.ok.inj hans).symm
      · cases hans

end

/-! ## The service -/

/-- An operation that is cancelled stays as it is. -/
theorem cancelled_stays {cfg : ServiceConfig} {X Y : Threads} (hX : Service.Reachable cfg X)
    (hY : Reach.Run (Service cfg) X Y)
    {id : Nat} {r : StoredOperation} (hr : X.recorded.state.rows.find id = some r)
    (hc : r.operation.state = .cancelled) :
    ∃ r', Y.recorded.state.rows.find id = some r' ∧ r'.operation = r.operation := by
  obtain ⟨r', hr', hl⟩ := hX.legal.later (hX.run hY) hr
  exact ⟨r', hr', hl.cancelled hc⟩

/-- A bundler that answers nothing. -/
def silentResponder : Responder :=
  { sampleResponder with userOperationReceipt := fun _ => none, sendUserOperation := fun _ => .error .unavailable }

/-- Time passes. -/
def waitUntil (now : Nat) : Action := .env fun w => { w with now := now }

theorem waitUntil_valid {w : World} {now : Nat} (h : w.now ≤ now) (hv : w.chain.Valid) : Env w { w with now := now } :=
  ⟨rfl, h, hv, .refl _, fun x hx => ⟨x, hx, rfl, rfl, rfl⟩⟩

/-- Sending gets no answer, and the admission expires; a query closes the operation. -/
def closing : List Action :=
  sampleRegistration ++ [sampleRequest, .run 1 20, waitUntil 100000, .start 2 (query sampleConfig true 1), .run 2 20]

/-- Then the user operation is executed, although nobody knew it. -/
def executing : List Action := closing ++ [withChain (sampleChain 1)]

theorem closing_reachable :
    Service.Reachable sampleConfig (silentResponder.play closing (beginning emptyChain [])) := by
  refine silentResponder.reachable emptyChain_valid
    ⟨⟨rfl, .register _ _⟩, trivial, ⟨rfl, .serve _ _⟩, trivial, ?_, ⟨rfl, .query _ _⟩, trivial, trivial⟩
  exact waitUntil_valid (Nat.zero_le _) emptyChain_valid

theorem executing_reachable :
    Service.Reachable sampleConfig (silentResponder.play executing (beginning emptyChain [])) := by
  refine silentResponder.reachable emptyChain_valid
    ⟨⟨rfl, .register _ _⟩, trivial, ⟨rfl, .serve _ _⟩, trivial, ?_, ⟨rfl, .query _ _⟩, trivial, ?_, trivial⟩
  · exact waitUntil_valid (Nat.zero_le _) emptyChain_valid
  · refine withChain_valid (sampleChain_valid 1) ⟨Nat.zero_le _, ?_⟩
    exact fun _ hb => absurd hb List.not_mem_nil

/-- An operation that has been closed is executed, and stays cancelled for ever. -/
theorem executed_after_closing : ∃ X r, Service.Reachable sampleConfig X ∧ X.recorded.state.rows.find 1 = some r ∧
    r.operation.state = .cancelled ∧ r.operation.userOperationHash = some 5 ∧
    X.recorded.state.chain.Executes 5 r.operation ∧
    ∀ Y, Reach.Run (Service sampleConfig) X Y → ∃ r', Y.recorded.state.rows.find 1 = some r' ∧
      r'.operation.state = .cancelled := by
  refine ⟨_, _, executing_reachable, rfl, rfl, rfl, ⟨⟨5, addr 7, 5, true, 3⟩, List.mem_singleton_self _,
    rfl, rfl, rfl⟩, ?_⟩
  intro Y hY
  have hr : (silentResponder.play executing (beginning emptyChain [])).recorded.state.rows.find 1 = some _ := rfl
  obtain ⟨r', hr', hsame⟩ := cancelled_stays executing_reachable hY hr rfl
  exact ⟨r', hr', congrArg Operation.state hsame⟩

/-- **What is cancelled was not executed when it was closed.** An operation that is cancelled with a hash has been
closed by a refresh, which has seen that the bundler did not know it after its admission had expired, and that its
nonce was not used on the chain. It stays as it is. -/
theorem cancelled_unexecuted {cfg : ServiceConfig} {X Y : Threads} (hX : Service.Reachable cfg X)
    (hY : Reach.Run (Service cfg) X Y)
    {id : Nat} {r : StoredOperation} {hash : Bytes32} (hr : X.recorded.state.rows.find id = some r)
    (hc : r.operation.state = .cancelled) (hh : r.operation.userOperationHash = some hash) :
    (∃ q c n w, [q, c, n, w].Sublist X.recorded.trace ∧ (∀ o ∈ [q, c, n], o.thread = w.thread) ∧
      SeesUnaccepted hash r.operation q c n ∧ ClosesOperation id w) ∧
    ∃ r', Y.recorded.state.rows.find id = some r' ∧ r'.operation = r.operation := by
  obtain ⟨w, hw, hcloses⟩ := closed_of_cancelled hX.legal hr hc hh
  obtain ⟨q, c, n, hsub, hthread, hsees⟩ := closing_based hX.legal hw hcloses hr hh
  exact ⟨⟨q, c, n, w, hsub, hthread, hsees, hcloses⟩, cancelled_stays hX hY hr hc⟩

theorem cancelled_unexecuted_sample : ∃ X r, Service.Reachable sampleConfig X ∧ X.recorded.state.rows.find 1 = some r ∧
    r.operation.state = .cancelled ∧ ∃ q c n w, [q, c, n, w].Sublist X.recorded.trace ∧
      SeesUnaccepted 5 r.operation q c n ∧
    ClosesOperation 1 w := by
  obtain ⟨r, hr, hc, hh⟩ : ∃ r, (silentResponder.play closing (beginning emptyChain [])).recorded.state.rows.find 1 =
    some r ∧
      r.operation.state = .cancelled ∧ r.operation.userOperationHash = some 5 := ⟨_, rfl, rfl, rfl⟩
  obtain ⟨⟨q, c, n, w, hsub, -, hsees, hcloses⟩, -⟩ := cancelled_unexecuted closing_reachable .refl hr hc hh
  exact ⟨_, r, closing_reachable, hr, hc, q, c, n, w, hsub, hsees, hcloses⟩

end Cpredict.Operations
