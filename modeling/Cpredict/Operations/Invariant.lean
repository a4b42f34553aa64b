import Cpredict.Operations.Protocol

/-!
# What holds of the records

What a step of the protocol does to the rows (`Moves`); what holds of every record (`Sound`), and how a record goes on
(`Later`).
-/

namespace Cpredict.Operations

open Program

/-! ## What a change keeps -/

/-- The operation has left the states before its submission. -/
def Passed (o : Operation) : Prop := o.state ∉ [OperationState.preparing, .awaitingSignature]

structure Sound (o : Operation) : Prop where
  unsent : ¬Passed o → o.userOperationHash = none
  sent : Passed o → o.state ≠ .cancelled → o.userOperationHash ≠ none
  provider : o.providerOperationId = o.userOperationHash
  transaction : o.userOperationHash = none → o.transactionHash = none
  final : o.finality = .finalized → o.state ∈ [OperationState.confirmed, .reverted] ∧ o.transactionHash ≠ none ∧
    o.blockNumber ≠ none ∧ o.blockHash ≠ none ∧ o.actualGasCost ≠ none
  attempted : o.sponsorshipAttempted ≠ none
  released : o.gasReleasedAt ≠ none → o.state = .cancelled ∧ o.sponsorshipAttempted = some false ∧
    o.userOperationHash = none

/-- A record, and the same record later. -/
structure Later (x y : Operation) : Prop where
  admission : SameAdmission x y
  passed : Passed x → Passed y
  hash : ∀ hash, x.userOperationHash = some hash → y.userOperationHash = some hash
  cancelled : x.state = .cancelled → y = x
  attempted : x.sponsorshipAttempted = some true → y.sponsorshipAttempted = some true

theorem Later.refl (x : Operation) : Later x x := ⟨.refl x, id, fun _ h => h, fun _ => rfl, id⟩

theorem Later.trans {x y z : Operation} (h : Later x y) (h' : Later y z) : Later x z where
  admission := h.admission.trans h'.admission
  passed hx := h'.passed (h.passed hx)
  hash t ht := h'.hash t (h.hash t ht)
  cancelled hx := by
    obtain rfl := h.cancelled hx
    exact h'.cancelled hx
  attempted hx := h'.attempted (h.attempted hx)

/-- A settlement that a refresh may write. -/
def Change.Proper : Change → Prop
  | .settle s => s.state ∈ [OperationState.unknown, .confirming, .confirmed, .reverted] ∧
    (s.finality = .finalized → s.state ∈ [OperationState.confirmed, .reverted])
  | _ => True

section

variable {c : Change} {at' : Nat} {o : Operation}

/-- An operation that has been submitted does not go back. -/
theorem next_passed (hc : c.Proper) (hs : o.state ∈ c.source) (hp : Passed o) : Passed (c.next at' o) := by
  unfold Passed at *
  rw [next_state]
  cases c <;> simp_all [Change.patch, Change.source, Change.Proper]
  case settle s =>
    rcases hc.1 with h | h | h | h <;> simp [h]

/-- Only a submission sets the hash, and it is made before any other. -/
theorem next_hash (h : ∀ hash, c ≠ .submit hash) :
    (c.next at' o).userOperationHash = o.userOperationHash := by
  rw [next_userOperationHash]
  cases c with
  | submit hash => exact absurd rfl (h hash)
  | _ => rfl

theorem next_gasReleasedAt (h : (c.next at' o).gasReleasedAt ≠ none) : o.gasReleasedAt ≠ none ∨
    (c.next at' o).state = .cancelled ∧ o.sponsorshipAttempted = some false ∧
    (c.next at' o).userOperationHash = none := by
  by_cases hr : Releases c at' o
  · refine .inr ⟨?_, hr.2.1, ?_⟩
    · rw [next_of_releases hr]
      exact hr.1
    · rw [next_of_releases hr]
      exact hr.2.2.1
  · rw [next_of_not_releases hr] at h
    exact .inl h

theorem source_not_cancelled (hs : o.state ∈ c.source) : o.state ≠ .cancelled := by
  intro h
  rw [h] at hs
  cases c <;> simp [Change.source] at hs

theorem source_submit {hash : Bytes32} (hs : o.state ∈ (Change.submit hash).source) : ¬Passed o := by
  have h : o.state = .awaitingSignature := by simpa [Change.source] using hs
  simp [Passed, h]

/-- A change of an operation that has been submitted leaves its hash. -/
theorem next_hash_passed (hs : o.state ∈ c.source) (hp : Passed o) :
    (c.next at' o).userOperationHash = o.userOperationHash := by
  refine next_hash ?_
  rintro hash rfl
  exact source_submit hs hp

/-- What a change of an operation that has not been submitted does to its state. -/
theorem next_of_not_passed (at' : Nat) (hs : o.state ∈ c.source) (hp : ¬Passed o) :
    (∃ hash, c = .submit hash) ∨ ((c = .sponsor ∨ c = .proceed) ∧ (c.next at' o).state = o.state) ∨
      ((c = .cancel ∨ c = .expire) ∧ (c.next at' o).state = .cancelled) := by
  rw [next_state]
  have ho : o.state = .preparing ∨ o.state = .awaitingSignature := by simpa [Passed, imp_iff_not_or] using hp
  cases c with
  | submit hash => exact .inl ⟨hash, rfl⟩
  | sponsor => exact .inr (.inl ⟨.inl rfl, rfl⟩)
  | proceed => exact .inr (.inl ⟨.inr rfl, rfl⟩)
  | cancel => exact .inr (.inr ⟨.inl rfl, rfl⟩)
  | expire => exact .inr (.inr ⟨.inr rfl, rfl⟩)
  | _ => rcases ho with h | h <;> simp [Change.source, h] at hs

theorem Sound.hash_of_source (h : Sound o) (hs : o.state ∈ c.source) (hp : Passed o) : o.userOperationHash ≠ none :=
  h.sent hp (source_not_cancelled hs)

/-- Only a settlement leaves an operation final. -/
theorem Sound.settles_of_final (h : Sound o) (at' : Nat) (hs : o.state ∈ c.source)
    (hn : (c.next at' o).finality = .finalized) :
    ∃ s, c = .settle s ∧ s.finality = .finalized := by
  rw [next_finality] at hn
  by_cases hf : o.finality = .finalized
  · have hst : o.state = .confirmed ∨ o.state = .reverted := by simpa using (h.final hf).1
    cases c with
    | settle s => exact ⟨s, rfl, hn⟩
    | reorganized => cases hn
    | _ => rcases hst with h' | h' <;> simp [Change.source, h'] at hs
  · cases c with
    | settle s => exact ⟨s, rfl, hn⟩
    | reorganized => cases hn
    | _ => exact absurd hn hf

theorem Sound.next (h : Sound o) (hc : c.Proper) (hs : o.state ∈ c.source) : Sound (c.next at' o) where
  unsent hn := by
    have hp : ¬Passed o := fun hp => hn (next_passed hc hs hp)
    rcases next_of_not_passed at' hs hp with ⟨hash, rfl⟩ | ⟨hc', -⟩ | ⟨-, hcancelled⟩
    · simp [Passed, next_state, Change.patch] at hn
    · rw [next_hash (by rintro hash rfl; simp at hc')]
      exact h.unsent hp
    · simp [Passed, hcancelled] at hn
  sent hn hne := by
    by_cases hp : Passed o
    · rw [next_hash_passed hs hp]
      exact h.hash_of_source hs hp
    · rcases next_of_not_passed at' hs hp with ⟨hash, rfl⟩ | ⟨-, hst⟩ | ⟨-, hcancelled⟩
      · simp [next_userOperationHash, Change.patch]
      · exact absurd (by simpa [Passed, hst] using hn) hp
      · exact absurd hcancelled hne
  provider := by
    rw [next_providerOperationId, next_userOperationHash]
    cases c with
    | submit hash => rfl
    | _ => exact h.provider
  transaction hn := by
    by_cases hp : Passed o
    · rw [next_hash_passed hs hp] at hn
      exact absurd hn (h.hash_of_source hs hp)
    · rw [next_transactionHash]
      have ht := h.transaction (h.unsent hp)
      rcases next_of_not_passed at' hs hp with ⟨hash, rfl⟩ | ⟨rfl | rfl, -⟩ | ⟨rfl | rfl, -⟩ <;> exact ht
  final hn := by
    rw [next_finality] at hn
    by_cases hsettle : ∃ s, c = .settle s
    · obtain ⟨s, rfl⟩ := hsettle
      refine ⟨?_, ?_, ?_, ?_, ?_⟩
      · rw [next_state]
        exact hc.2 hn
      · simp [next_transactionHash, Change.patch]
      · simp [next_blockNumber, Change.patch]
      · simp [next_blockHash, Change.patch]
      · simp [next_actualGasCost, Change.patch]
    · have hf : o.finality = .finalized ∧ c ≠ .reorganized := by
        cases c with
        | settle s => exact absurd ⟨s, rfl⟩ hsettle
        | reorganized => cases hn
        | _ => exact ⟨hn, nofun⟩
      -- no other change is made of an operation that is final
      exfalso
      obtain ⟨hst, -⟩ := h.final hf.1
      have hst' : o.state = .confirmed ∨ o.state = .reverted := by simpa using hst
      cases c with
      | settle s => exact hsettle ⟨s, rfl⟩
      | reorganized => exact hf.2 rfl
      | _ => rcases hst' with h' | h' <;> simp [Change.source, h'] at hs
  attempted := by
    rw [next_sponsorshipAttempted]
    cases c with
    | sponsor => nofun
    | proceed => nofun
    | _ => exact h.attempted
  released hn := by
    rcases next_gasReleasedAt hn with ho | ⟨hst, hatt, hhash⟩
    · exact absurd (h.released ho).1 (source_not_cancelled hs)
    · refine ⟨hst, ?_, hhash⟩
      rw [next_sponsorshipAttempted]
      cases c with
      | sponsor => exact absurd (next_state.symm.trans hst) (source_not_cancelled hs)
      | proceed => exact absurd (next_state.symm.trans hst) (source_not_cancelled hs)
      | _ => exact hatt

/-- **A change leads to a later record.** -/
theorem Sound.later (h : Sound o) (hc : c.Proper) (hs : o.state ∈ c.source) : Later o (c.next at' o) where
  admission := next_admission c at' o
  passed := next_passed hc hs
  hash t ht := by
    have hp : Passed o := by
      intro hp
      rw [h.unsent (not_not.mpr hp)] at ht
      cases ht
    rw [next_hash_passed hs hp]
    exact ht
  cancelled hx := absurd hx (source_not_cancelled hs)
  attempted hx := by
    rw [next_sponsorshipAttempted, hx]
    cases c <;> rfl

end

/-! ## Steps of the protocol -/

theorem Fresh.sound {cfg : ServiceConfig} {o : Operation} (h : Fresh cfg o) : Sound o where
  unsent _ := h.userOperationHash
  sent hp := absurd hp (by simp [Passed, h.state])
  provider := h.providerOperationId.trans h.userOperationHash.symm
  transaction _ := h.transactionHash
  final hf := by
    rw [h.finality] at hf
    cases hf
  attempted := by
    rw [h.sponsorshipAttempted]
    nofun
  released hr := absurd h.gasReleasedAt hr

theorem settlement_proper {t : Bytes32} {receipt : Receipt} {event : UserOperationEvent} {verified enough : Bool}
    {finality : Finality} {settled : Option Nat} (h : finality ≠ .pending → enough = true) :
    (Change.settle (settlement t receipt event verified enough finality settled)).Proper := by
  unfold Change.Proper settlement
  cases verified with
  | false => exact ⟨by simp, nofun⟩
  | true =>
    cases enough with
    | false => exact ⟨by simp, fun hf => absurd (h (by rw [show finality = .finalized from hf]; nofun)) nofun⟩
    | true => cases event.success <;> simp

/-- What a refresh settles is proper. -/
theorem Settles.proper {cfg : ServiceConfig} {l : List Event} {id : Nat} {s : Settlement} (h : Settles cfg l id s) :
    (Change.settle s).Proper := by
  cases h with
  | intro hs he henough hh hb hpending hfinal => exact settlement_proper hpending

theorem Permits.proper {cfg : ServiceConfig} {l : List Event} {id at' : Nat} {c : Change}
    (h : Permits cfg l (.transition id c at')) : c.Proper := by
  cases c with
  | settle s => exact Settles.proper h
  | _ => trivial

/-- What an admission does: it adds the record, or nothing. -/
theorem admit_ok {sessions : List StoredSession} {rows rows' : Rows} {value x : StoredOperation}
    (h : admitOperation sessions rows value = .ok (rows', x)) :
    rows' = rows ∨ rows' = rows ++ [value] ∧ (∀ r ∈ rows, r.operation.id ≠ value.operation.id) ∧
      sessionQuota sessions rows value = .ok () := by
  unfold admitOperation at h
  split at h
  · split at h
    · cases h
    · exact .inl (Prod.mk.inj (Except.ok.inj h)).1.symm
  · obtain ⟨⟨⟩, hq, h⟩ := Outcome.bind_eq_ok.mp h
    obtain ⟨⟨⟩, hk, h⟩ := Outcome.bind_eq_ok.mp h
    obtain ⟨rfl, -⟩ := Prod.mk.inj (Except.ok.inj h)
    exact .inr ⟨rfl, fun r hr he => Outcome.revertIf_eq_ok.mp hk ⟨r, hr, he⟩, hq⟩

/-- What a step of the protocol does to the rows. -/
inductive Moves (cfg : ServiceConfig) (X Y : Recorded) : Prop
  | same : Y.state.rows = X.state.rows → Moves cfg X Y
  | transition {i id at' : Nat} {c : Change} {r : Except AppErr (Bool × StoredOperation)} {old : StoredOperation} :
      Permits cfg (own i X.trace) (.transition id c at') →
      Y.trace = X.trace ++ [⟨i, ⟨.transition id c at', r⟩, X.state, Y.state⟩] →
      X.state.rows.find id = some old → old.operation.state ∈ c.source →
      Y.state.rows = X.state.rows.set id (c.next at' old.operation) → Moves cfg X Y
  | admitOperation {i : Nat} {value : StoredOperation} {r : Except AppErr StoredOperation} :
      Permits cfg (own i X.trace) (.admitOperation value) →
        Y.trace = X.trace ++ [⟨i, ⟨.admitOperation value, r⟩, X.state, Y.state⟩] →
      Y.state.rows = X.state.rows ++ [value] → (∀ x ∈ X.state.rows, x.operation.id ≠ value.operation.id) →
      sessionQuota X.state.sessions X.state.rows value = .ok () → Moves cfg X Y

theorem Legal.moves {cfg : ServiceConfig} {X Y : Recorded} (h : Legal cfg X Y) : Moves cfg X Y := by
  cases h with
  | env he => exact .same he.rows
  | @call i c r t hp he =>
    have hrows := he.rows
    cases c with
    | transition id c at' =>
      rcases hrows with ⟨⟨b, x⟩, hok, -⟩ | ⟨hsame, -⟩
      · obtain ⟨old, hf, ⟨-, hs, hset, -⟩ | ⟨-, -, hsame, -⟩⟩ := transition_ok hok
        · exact .transition hp rfl hf hs hset
        · exact .same hsame
      · exact .same hsame
    | admitOperation value =>
      rcases hrows with ⟨x, hok, -⟩ | ⟨hsame, -⟩
      · obtain hsame | ⟨hadd, hk, hq⟩ := admit_ok hok
        · exact .same hsame
        · exact .admitOperation hp rfl hadd hk hq
      · exact .same hsame
    | _ => exact .same (by first | exact hrows | exact hrows.1)

/-! ## Runs -/

/-- What holds of the rows in every state that is reached. -/
structure Orderly (rows : Rows) : Prop where
  keyed : rows.Keyed
  sound : ∀ r ∈ rows, Sound r.operation

section

variable {cfg : ServiceConfig} {X Y : Recorded} {id : Nat} {r : StoredOperation}

theorem Orderly.find (h : Orderly X.state.rows) (hr : X.state.rows.find id = some r) :
    Sound r.operation ∧ r.operation.id = id :=
  ⟨h.sound r (mem_of_find hr).1, (mem_of_find hr).2⟩

theorem Moves.orderly (h : Orderly X.state.rows) (hm : Moves cfg X Y) : Orderly Y.state.rows := by
  cases hm with
  | same hs => rwa [hs]
  | @transition i id at' c r old hp _ hf hs hset =>
    obtain ⟨hsound, hid⟩ := h.find hf
    rw [hset]
    refine ⟨keyed_set h.keyed ?_, ?_⟩
    · exact (next_admission c at' old.operation).id.trans hid
    · intro x hx
      rcases mem_set hx with ⟨y, hy, hyid, rfl⟩ | ⟨hx, -⟩
      · exact hsound.next hp.proper hs
      · exact h.sound x hx
  | @admitOperation i value r hp _ hrows hk _ =>
    rw [hrows]
    refine ⟨?_, ?_⟩
    · rw [Rows.Keyed, List.map_append, List.nodup_append]
      refine ⟨h.keyed, by simp, ?_⟩
      intro a ha b hb
      obtain ⟨x, hx, rfl⟩ := List.mem_map.mp ha
      obtain rfl : b = value.operation.id := by simpa using hb
      exact hk x hx
    · intro x hx
      rcases List.mem_append.mp hx with hx | hx
      · exact h.sound x hx
      · obtain rfl := List.mem_singleton.mp hx
        exact Fresh.sound hp

theorem Legal.Reachable.orderly (h : Legal.Reachable cfg X) : Orderly X.state.rows := by
  refine Reach.Reachable.invariant (I := fun X => Orderly X.state.rows) ?_ ?_ h
  · rintro X ⟨⟨hr, -⟩, -⟩
    rw [hr]
    exact ⟨List.nodup_nil, fun _ hx => absurd hx List.not_mem_nil⟩
  · intro X Y _ hX hs
    exact hs.moves.orderly hX

/-- What a step does to one record. -/
theorem Moves.record (h : Orderly X.state.rows) (hm : Moves cfg X Y) (hr : X.state.rows.find id = some r) :
    Y.state.rows.find id = some r ∨ ∃ i c at' x, Permits cfg (own i X.trace) (.transition id c at') ∧
      Y.trace = X.trace ++ [⟨i, ⟨.transition id c at', x⟩, X.state, Y.state⟩] ∧ r.operation.state ∈ c.source ∧
      Y.state.rows.find id = some { r with operation := c.next at' r.operation } := by
  cases hm with
  | same hs =>
    rw [hs]
    exact .inl hr
  | @transition i id' at' c x old hp htr hf hs hset =>
    obtain ⟨-, hid⟩ := h.find hf
    have hid' : (c.next at' old.operation).id = id' := (next_admission c at' old.operation).id.trans hid
    rw [hset]
    by_cases he : id = id'
    · subst he
      obtain rfl : r = old := Option.some.inj (hr.symm.trans hf)
      exact .inr ⟨i, c, at', x, hp, htr, hs, find_set hr hid'⟩
    · rw [find_set_other he hid']
      exact .inl hr
  | @admitOperation i value x hp _ hrows hk _ =>
    rw [hrows]
    unfold Rows.find at *
    rw [List.find?_append, hr]
    exact .inl rfl

/-- Where a record comes from: it was there before, or it has been changed, or it is new. -/
theorem Moves.origin (h : Orderly X.state.rows) (hm : Moves cfg X Y)
    (hr : Y.state.rows.find id = some r) : X.state.rows.find id = some r ∨
      (∃ i c at' x old, Permits cfg (own i X.trace) (.transition id c at') ∧
        Y.trace = X.trace ++ [⟨i, ⟨.transition id c at', x⟩, X.state, Y.state⟩] ∧ X.state.rows.find id = some old ∧
        old.operation.state ∈ c.source ∧ r = { old with operation := c.next at' old.operation }) ∨
      X.state.rows.find id = none ∧ Fresh cfg r.operation := by
  cases hX : X.state.rows.find id with
  | some old =>
    rcases hm.record h hX with hsame | ⟨i, c, at', x, hp, htr, hs, hnext⟩
    · exact .inl (hsame.symm.trans hr)
    · exact .inr (.inl ⟨i, c, at', x, old, hp, htr, rfl, hs, Option.some.inj (hr.symm.trans hnext)⟩)
  | none =>
    cases hm with
    | same hs =>
      rw [hs, hX] at hr
      cases hr
    | @transition i id' at' c x old hp htr hf hs hset =>
      rw [hset] at hr
      by_cases he : id = id'
      · rw [he, hf] at hX
        cases hX
      · rw [find_set_other he ((next_admission c at' old.operation).id.trans (h.find hf).2), hX] at hr
        cases hr
    | @admitOperation i value x hp _ hrows _ _ =>
      have hv : r = value := by
        have hm := (mem_of_find hr).1
        rw [hrows] at hm
        rcases List.mem_append.mp hm with hm | hm
        · exact absurd (mem_of_find hr).2 (by simpa using List.find?_eq_none.mp hX r hm)
        · exact List.mem_singleton.mp hm
      exact .inr (.inr ⟨rfl, hv ▸ hp⟩)

/-- A record goes on. -/
theorem Moves.later (h : Orderly X.state.rows) (hm : Moves cfg X Y) (hr : X.state.rows.find id = some r) :
    ∃ r', Y.state.rows.find id = some r' ∧ Later r.operation r'.operation := by
  rcases hm.record h hr with hsame | ⟨i, c, at', x, hp, -, hs, hf⟩
  · exact ⟨r, hsame, .refl _⟩
  · exact ⟨_, hf, (h.find hr).1.later hp.proper hs⟩

/-- **A record goes on, over every run.** -/
theorem Legal.Reachable.later (h : Legal.Reachable cfg X) (hrun : Reach.Run (Legal cfg) X Y)
    (hr : X.state.rows.find id = some r) : ∃ r', Y.state.rows.find id = some r' ∧ Later r.operation r'.operation := by
  induction hrun with
  | refl => exact ⟨r, hr, .refl _⟩
  | tail hrun hstep ih =>
    obtain ⟨r', hr', hl⟩ := ih
    obtain ⟨r'', hr'', hl'⟩ := hstep.moves.later (Legal.Reachable.orderly (Reach.Reachable.run h hrun)) hr'
    exact ⟨r'', hr'', hl.trans hl'⟩

/-- The chain is one that the EntryPoint has produced. -/
theorem Legal.Reachable.valid (h : Legal.Reachable cfg X) : X.state.chain.Valid := by
  refine Reach.Reachable.invariant (I := fun X => X.state.chain.Valid) ?_ ?_ h
  · rintro X ⟨⟨-, hv⟩, -⟩
    exact hv
  · intro X Y _ ih hs
    cases hs with
    | call _ he => exact he.chain ▸ ih
    | env he => exact he.valid

end

end Cpredict.Operations
