import Cpredict.Operations.Cancelled

/-!
# Charges of sponsored gas

What an operation is charged to the budget of its lane (`budgetCharges`): its gas once it is final, otherwise its
ceiling, and nothing if it was cancelled before any sponsorship could be granted, or if its nonce has been used for
good.

A refresh reads the block of a receipt before it asks for the finalized block, and does not read it again. When the
chain replaces the block in between, a receipt is settled that is not on the chain (`charged_too_little`). In every
other run the charges of a lane cover what the sponsor has paid and may come to pay (`charges_cover`).
-/

namespace Cpredict.Operations

open Program

/-! ## Charges -/

def nonceKey (o : Operation) : Nat × Address × Nat := (o.deploymentId, o.account, o.nonce)

def hasFinalGas (o : Operation) : Bool :=
  decide (o.state ∈ [OperationState.confirmed, .reverted]) && decide (o.finality = .finalized) &&
    o.actualGasCost.isSome &&
    o.userOperationHash.isSome && o.transactionHash.isSome && o.blockHash.isSome && o.blockNumber.isSome

/-- Cancelled, and never sent. -/
def Withdrawn (o : Operation) : Prop :=
  o.state = .cancelled ∧ o.userOperationHash = none ∧ o.transactionHash = none ∧ o.providerOperationId = none

instance (o : Operation) : Decidable (Withdrawn o) := inferInstanceAs (Decidable (_ ∧ _ ∧ _ ∧ _))

/-- No sponsorship was granted before the cancellation. -/
def Released (o : Operation) : Prop := o.sponsorshipAttempted = some false ∧ o.gasReleasedAt ≠ none

instance (o : Operation) : Decidable (Released o) := inferInstanceAs (Decidable (_ ∧ _))

/-- What an operation is charged, by the nonces of those that have final gas. -/
def charge (finalNonces : List (Nat × Address × Nat)) (o : Operation) : Nat :=
  if o.gasPayment = some .selfFunded then 0
  else if hasFinalGas o = true then o.actualGasCost.getD 0
  else if Withdrawn o ∧ (Released o ∨ nonceKey o ∈ finalNonces) then 0
  else o.maxGasCost

def finalNonces (operations : List Operation) : List (Nat × Address × Nat) :=
  (operations.filter fun o => hasFinalGas o).map nonceKey

/-- `budgetCharges`: every operation with its charge. -/
def budgetCharges (operations : List Operation) : List (Operation × Nat) :=
  operations.map fun o => (o, charge (finalNonces operations) o)

/-- The charges of a lane. -/
def laneCharges (operations : List Operation) (lane : BudgetLane) : Nat :=
  (((budgetCharges operations).filter fun x => decide (x.1.lane = lane)).map Prod.snd).sum

/-! ## What the sponsor pays -/

/-- The await asks the paymaster for the operation, or lets the provider proceed with it. -/
def Grants (id : Nat) (o : Occurrence) : Prop :=
  (∃ u, o.event.cmd = .sponsorUserOperation id u) ∨ o.event.cmd = .proceed id

/-- The gas that an operation has cost on the chain. -/
def paid (C : Chain) (o : Operation) : Nat :=
  ((C.executed.filter fun e => decide (o.userOperationHash = some e.userOpHash ∧ e.sender = o.account ∧
    e.nonce = o.nonce)).map
    UserOperationEvent.actualGasCost).sum

/-- A block that is final has used the nonce for another user operation. -/
def Chain.UsedByAnother (C : Chain) (o : Operation) : Prop :=
  ∃ b ∈ C.blocks, b.number ≤ C.finalized ∧ ∃ r ∈ b.receipts, ∃ e ∈ r.executed, e.sender = o.account ∧
    e.nonce = o.nonce ∧
    o.userOperationHash ≠ some e.userOpHash

/-- The operation could still be executed: its nonce is not used for good by another one, and at some time it is
sent, or sponsorship is granted to it. -/
def Outstanding (cfg : ServiceConfig) (X : Threads) (o : Operation) : Prop :=
  ¬X.recorded.state.chain.UsedByAnother o ∧
    ∃ Y, Reach.Run (Service cfg) X Y ∧ ∃ g ∈ Y.recorded.trace, Grants o.id g ∨ Sends o.id g

open Classical in
/-- What the sponsor has paid for an operation that is final, or may come to pay for another. -/
noncomputable def liability (cfg : ServiceConfig) (X : Threads) (o : Operation) : Nat :=
  if o.gasPayment = some .selfFunded then 0
  else if hasFinalGas o = true then paid X.recorded.state.chain o
  else if Outstanding cfg X o then o.maxGasCost
  else 0

noncomputable def laneLiability (cfg : ServiceConfig) (X : Threads) (lane : BudgetLane) : Nat :=
  (((X.recorded.state.rows.map StoredOperation.operation).filter fun o => decide (o.lane = lane)).map
    (liability cfg X)).sum

/-! ## The condition -/

/-- Blocks that have one hash are one block. -/
def HashesBlocks (tr : List Occurrence) : Prop :=
  ∀ o ∈ tr, ∀ o' ∈ tr, ∀ b ∈ o.before.chain.blocks, ∀ b' ∈ o'.before.chain.blocks, b.hash = b'.hash → b = b'

/-- Between the read of the block of a receipt and the read of the finalized block, the chain keeps that block. -/
def KeepsBlocks (tr : List Occurrence) : Prop :=
  ∀ (s t u : List Occurrence) (b f : Occurrence) (receipt : Receipt) (number : Nat), tr = s ++ b :: (t ++ f :: u) →
    f.thread = b.thread → OnlyHeads (own b.thread t) → b.event = blockRead receipt → f.event = finalizedRead number →
    receipt.blockNumber ≤ number → f.before.chain.getBlock receipt.blockNumber = some receipt.blockHash

theorem HashesBlocks.mono {s t : List Occurrence} (h : HashesBlocks (s ++ t)) : HashesBlocks s := by
  intro o ho o' ho'
  exact h o (List.mem_append_left t ho) o' (List.mem_append_left t ho')

theorem KeepsBlocks.mono {s t : List Occurrence} (h : KeepsBlocks (s ++ t)) : KeepsBlocks s := by
  intro s₁ s₂ s₃ b f receipt number hs
  exact h s₁ s₂ (s₃ ++ t) b f receipt number (by simp [hs])

/-! ## What is final is on the chain -/

/-- A block that is final has executed the operation, at the gas that is recorded. -/
def Chain.Settled (C : Chain) (o : Operation) : Prop :=
  ∃ b ∈ C.blocks, b.number ≤ C.finalized ∧ ∃ r ∈ b.receipts, ∃ e ∈ r.executed, o.userOperationHash = some e.userOpHash ∧
    e.sender = o.account ∧ e.nonce = o.nonce ∧ o.actualGasCost = some e.actualGasCost

theorem Chain.Settled.extends {C C' : Chain} {o : Operation} (h : C.Settled o) (he : C.Extends C') : C'.Settled o := by
  obtain ⟨b, hb, hn, hr⟩ := h
  exact ⟨b, he.blocks b hb hn, hn.trans he.finalized, hr⟩

section

variable {cfg : ServiceConfig} {X Y : Recorded} {id : Nat} {r : StoredOperation}

theorem Legal.extends (h : Legal cfg X Y) : X.state.chain.Extends Y.state.chain := by
  cases h with
  | call _ he => exact he.chain ▸ .refl _
  | env he => exact he.chain

theorem run_extends (h : Reach.Run (Legal cfg) X Y) : X.state.chain.Extends Y.state.chain := by
  induction h with
  | refl => exact .refl _
  | tail _ hs ih => exact ih.trans (Legal.extends hs)

/-- The block that holds a receipt which a thread has read. -/
theorem receipt_block (h : Legal.Reachable cfg X) {x : Occurrence} (hx : x ∈ X.trace) {transactionHash : Bytes32}
    {receipt : Receipt}
    (he : x.event = receiptRead transactionHash receipt) :
    ∃ b ∈ x.before.chain.blocks, receipt ∈ b.receipts ∧ receipt.blockNumber = b.number ∧
      receipt.blockHash = b.hash := by
  obtain ⟨s, t, ht⟩ := List.append_of_mem hx
  obtain ⟨W, hW⟩ := h.split ht
  have heff := hW.effect
  rw [he] at heff
  obtain ⟨-, hans | ⟨_, hans⟩⟩ := heff.rows
  · obtain ⟨b, hb, hr⟩ := Chain.mem_receipts.mp (Chain.getTransactionReceipt_mem (Except.ok.inj hans).symm).1
    obtain ⟨hnumber, hhash⟩ := (hW.state ▸ hW.reachable.valid : x.before.chain.Valid).located b hb receipt hr
    exact ⟨b, hb, hr, hnumber, hhash⟩
  · cases hans

/-- What a refresh settles for good is on the chain. -/
theorem settles_canonical (h : Legal.Reachable cfg X) (hk : KeepsBlocks X.trace) (hh : HashesBlocks X.trace)
    {i at' : Nat}
    {s : Settlement} (hp : Permits cfg (own i X.trace) (.transition id (.settle s) at')) (hf : s.finality = .finalized)
    (hr : X.state.rows.find id = some r) : X.state.chain.Settled ((Change.settle s).next at' r.operation) := by
  have hs : Settles cfg (own i X.trace) id s := hp
  cases hs with
  | @intro e r₀ hash transactionHash receipt event head u v enough finality settled hsnap hevent henough hhead hread
      hpend hfinal =>
    have hfin : finality = .finalized := by
      cases hd : depositVerified r₀.operation hash receipt event with
      | true => simpa [settlement, hd] using hf
      | false => simp [settlement, hd] at hf
    obtain ⟨number, w, z, hnumber, rfl, hw⟩ := hfinal hfin
    obtain ⟨s₁, b, t₁, ht₁, hb, hbe, hs₁, hown⟩ := own_split hread.whole
    obtain ⟨t₂, f, t₃, rfl, hfthread, hfe, ht₂, -⟩ := own_split hown
    -- the block of the receipt is still there when the finalized block is read
    have hkeeps := hk s₁ t₂ t₃ b f receipt number ht₁ (hfthread.trans hb.symm) (by rw [hb, ht₂]; exact hw)
      hbe hfe hnumber
    obtain ⟨x, hx, -, hxe⟩ := mem_own.mp (hs₁ ▸ hread.first.subset (List.mem_cons_of_mem _ (List.mem_singleton_self _)))
    have hxmem : x ∈ X.trace := ht₁ ▸ List.mem_append_left _ hx
    have hfmem : f ∈ X.trace := by simp [ht₁]
    obtain ⟨block, hblock, hreceipt, hn, hhash⟩ := receipt_block h hxmem hxe
    obtain ⟨block', hfind, hblockhash⟩ := Option.map_eq_some_iff.mp hkeeps
    have hsame : block' = block :=
      hh f hfmem x hxmem block' (List.mem_of_find?_eq_some hfind) block hblock (hblockhash.trans hhash)
    rw [hsame] at hfind
    obtain ⟨W, hW⟩ := h.split (s := s₁ ++ b :: t₂) (o := f) (t := t₃) (by simp [ht₁])
    have heff := hW.effect
    rw [hfe] at heff
    obtain ⟨-, hans | ⟨_, hans⟩⟩ := heff.rows
    · obtain ⟨hmem, hu, hsender, hnonce⟩ := operationEvent_ok hevent
      obtain ⟨r', hr', hl⟩ :=
        h.read_snapshot (i := i) (hread.whole ▸ List.mem_append_left _ (hread.first.subset List.mem_cons_self))
        hsnap
      rw [hr] at hr'
      obtain rfl := Option.some.inj hr'
      have hsettled : f.before.chain.Settled ((Change.settle (settlement transactionHash receipt event
          (depositVerified r₀.operation hash receipt event) enough finality settled)).next at' r.operation) := by
        have hadm := next_admission (Change.settle (settlement transactionHash receipt event
          (depositVerified r₀.operation hash receipt event) enough finality settled)) at' r.operation
        refine ⟨block, List.mem_of_find?_eq_some hfind, ?_, receipt, hreceipt, event, hmem, ?_, ?_, ?_, ?_⟩
        · rw [← hn]
          exact hnumber.trans (Nat.le_of_eq (Except.ok.inj hans))
        · rw [next_hash (by nofun), hl.hash hash hsnap.hash, hu]
        · rw [hsender, hadm.account, hl.admission.account]
        · rw [hnonce, hadm.nonce, hl.admission.nonce]
        · rw [next_actualGasCost]
          rfl
      refine hsettled.extends ?_
      rw [← hW.state]
      exact run_extends hW.whole
    · cases hans

/-- **What is final has been executed by a block that is final**, as long as the chain keeps the blocks that are
read. -/
theorem final_canonical (h : Legal.Reachable cfg X) (hk : KeepsBlocks X.trace) (hh : HashesBlocks X.trace)
    (hr : X.state.rows.find id = some r) (hf : r.operation.finality = .finalized) :
    X.state.chain.Settled r.operation := by
  refine Reach.Reachable.invariant (I := fun X => KeepsBlocks X.trace → HashesBlocks X.trace →
    ∀ r, X.state.rows.find id = some r →
    r.operation.finality = .finalized → X.state.chain.Settled r.operation) ?_ ?_ h hk hh r hr hf
  · rintro X ⟨⟨hrows, -⟩, -⟩ - - r hr
    rw [hrows] at hr
    cases hr
  · intro X Y hX ih hs hk hh r hr hf
    obtain ⟨t, ht⟩ := Recorded.trace_le (Relation.ReflTransGen.single hs)
    rw [← ht] at hk hh
    have horderly := Legal.Reachable.orderly hX
    rcases hs.moves.origin horderly hr with hold | ⟨i, c, at', x, old, hp, htr, hfind, hsource, rfl⟩ | ⟨-, hfresh⟩
    · exact (ih hk.mono hh.mono r hold hf).extends (Legal.extends hs)
    · obtain ⟨s, rfl, hsf⟩ := (horderly.find hfind).1.settles_of_final at' hsource hf
      exact (settles_canonical hX hk.mono hh.mono hp hsf hfind).extends (Legal.extends hs)
    · rw [hfresh.finality] at hf
      cases hf

/-- What has been granted is on record. -/
theorem grant_stored (h : Legal.Reachable cfg X) {g : Occurrence} (hg : g ∈ X.trace) (hgrant : Grants id g)
    (hr : X.state.rows.find id = some r) : r.operation.sponsorshipAttempted = some true := by
  obtain ⟨s, t, ht⟩ := List.append_of_mem hg
  obtain ⟨Z, hZ⟩ := h.split ht
  -- the thread has just recorded that it grants
  have hlast : ∃ c at' x, (c = .sponsor ∨ c = .proceed) ∧ x.operation.id = id ∧
      ⟨.transition id c at', .ok (true, x)⟩ ∈ own g.thread Z.trace := by
    have hp := hZ.permits
    rcases hgrant with ⟨u, hc⟩ | hc
    · rw [hc, ← hZ.trace] at hp
      obtain ⟨m, id', at', x, hm, hx⟩ := hp
      have hmem : ⟨.transition id' .sponsor at', .ok (true, x)⟩ ∈ own g.thread Z.trace := by simp [hm]
      have hid : id' = id := (hZ.reachable.read_transition hmem).1.symm.trans hx
      subst hid
      exact ⟨.sponsor, at', x, .inl rfl, hx, hmem⟩
    · rw [hc, ← hZ.trace] at hp
      obtain ⟨m, at', x, hm⟩ := hp
      have hmem : ⟨.transition id .proceed at', .ok (true, x)⟩ ∈ own g.thread Z.trace := by simp [hm]
      exact ⟨.proceed, at', x, .inr rfl, (hZ.reachable.read_transition hmem).1, hmem⟩
  obtain ⟨c, at', x, hc, hx, hmem⟩ := hlast
  obtain ⟨-, r', hr', hl⟩ := hZ.reachable.read_transition hmem
  obtain ⟨r'', hr'', hl'⟩ := hZ.reachable.later hZ.whole hr'
  rw [hr] at hr''
  obtain rfl := Option.some.inj hr''
  refine hl'.attempted (hl.attempted ?_)
  obtain ⟨s₁, o, t₁, ht₁, -, ho⟩ := own_mem hmem
  obtain ⟨W, hW⟩ := hZ.reachable.split ht₁
  have heff := hW.effect
  rw [ho] at heff
  obtain ⟨old, -, -, rfl, -⟩ := transition_acknowledged heff
  rw [next_sponsorshipAttempted]
  rcases hc with rfl | rfl <;> rfl

/-- What has been sent has a hash. -/
theorem sent_stored (h : Legal.Reachable cfg X) {g : Occurrence} (hg : g ∈ X.trace) (hsend : Sends id g)
    (hr : X.state.rows.find id = some r) : r.operation.userOperationHash ≠ none := by
  obtain ⟨u, hu⟩ := hsend
  obtain ⟨-, k, hk, -, hm⟩ := send_stored h hg hu
  obtain ⟨r', hr', hhash⟩ := mark_stored h (hk.subset List.mem_cons_self) hm
  rw [hr] at hr'
  obtain rfl := Option.some.inj hr'
  rw [hhash]
  nofun

/-- The chain pays for an operation once. -/
theorem Chain.Settled.paid_eq {C : Chain} {o : Operation} (h : C.Settled o) (hC : C.Valid) :
    paid C o = o.actualGasCost.getD 0 := by
  obtain ⟨b, hb, -, receipt, hr, e, he, hhash, hsender, hnonce, hcost⟩ := h
  have hmem : e ∈ C.executed := Chain.mem_executed.mpr ⟨receipt, Chain.mem_receipts.mpr ⟨b, hb, hr⟩, he⟩
  have hsingle : (C.executed.filter fun e => decide (o.userOperationHash = some e.userOpHash ∧ e.sender = o.account ∧
      e.nonce = o.nonce)) = [e] := by
    refine List.perm_singleton.mp ((List.perm_ext_iff_of_nodup (hC.once.of_map.filter _) (List.nodup_singleton e)).mpr
      ?_)
    intro x
    rw [List.mem_filter, List.mem_singleton, decide_eq_true_iff]
    refine ⟨?_, ?_⟩
    · rintro ⟨hx, -, hs, hn⟩
      exact hC.unique hx hmem (hs.trans hsender.symm) (hn.trans hnonce.symm)
    · rintro rfl
      exact ⟨hmem, hhash, hsender, hnonce⟩
  unfold paid
  rw [hsingle, hcost]
  simp

/-- The nonce of an operation that is settled has been used for good, by its user operation alone. -/
theorem Chain.Settled.used {C : Chain} {o x : Operation} (h : C.Settled o) (hC : C.Valid) (ha : x.account = o.account)
    (hn : x.nonce = o.nonce) (hx : x.userOperationHash = none) :
    C.UsedByAnother x ∧ ∀ e ∈ C.executed, e.sender = x.account → e.nonce = x.nonce →
      o.userOperationHash = some e.userOpHash := by
  obtain ⟨b, hb, hnumber, receipt, hr, e, he, hhash, hsender, hnonce, -⟩ := h
  refine ⟨⟨b, hb, hnumber, receipt, hr, e, he, hsender.trans ha.symm, hnonce.trans hn.symm, ?_⟩, ?_⟩
  · rw [hx]
    nofun
  · intro e' he' hs' hn'
    have hmem : e ∈ C.executed := Chain.mem_executed.mpr ⟨receipt, Chain.mem_receipts.mpr ⟨b, hb, hr⟩, he⟩
    rw [hhash, hC.unique he' hmem (hs'.trans (ha.trans hsender.symm)) (hn'.trans (hn.trans hnonce.symm))]

end

/-! ## What is charged -/

/-- The table. -/
def operations (X : Recorded) : List Operation := X.state.rows.map StoredOperation.operation

theorem mem_finalNonces {ops : List Operation} {k : Nat × Address × Nat} :
    k ∈ finalNonces ops ↔ ∃ f ∈ ops, hasFinalGas f = true ∧ nonceKey f = k := by
  simp [finalNonces, and_assoc]

theorem finality_of_finalGas {o : Operation} (h : hasFinalGas o = true) : o.finality = .finalized := by
  simp only [hasFinalGas, Bool.and_eq_true, decide_eq_true_eq] at h
  exact h.1.1.1.1.1.2

/-- An operation that is final has everything that its charge needs. -/
theorem Sound.finalGas {o : Operation} (h : Sound o) (hf : o.finality = .finalized) : hasFinalGas o = true := by
  obtain ⟨hst, htx, hnumber, hhash, hcost⟩ := h.final hf
  have hu : o.userOperationHash ≠ none := fun hu => htx (h.transaction hu)
  simp only [hasFinalGas, Bool.and_eq_true, decide_eq_true_eq, Option.isSome_iff_ne_none]
  exact ⟨⟨⟨⟨⟨⟨hst, hf⟩, hcost⟩, hu⟩, htx⟩, hhash⟩, hnumber⟩

section

variable {cfg : ServiceConfig} {X Y : Threads} {o : Operation}

/-- The row of an operation. -/
theorem row_of_operation (h : Legal.Reachable cfg X.recorded) (ho : o ∈ operations X.recorded) :
    ∃ r, X.recorded.state.rows.find o.id = some r ∧ r.operation = o := by
  obtain ⟨r, hr, rfl⟩ := List.mem_map.mp ho
  exact ⟨r, h.orderly.keyed.find hr, rfl⟩

/-- A row that is withdrawn stays as it is. -/
theorem withdrawn_stays (hX : Service.Reachable cfg X) (hY : Reach.Run (Service cfg) X Y)
    (ho : o ∈ operations X.recorded)
    (hw : Withdrawn o) : ∃ r, Y.recorded.state.rows.find o.id = some r ∧ r.operation = o := by
  obtain ⟨r, hr, rfl⟩ := row_of_operation hX.legal ho
  exact cancelled_stays hX hY hr hw.1

theorem released_never_granted (hX : Service.Reachable cfg X) (hY : Reach.Run (Service cfg) X Y)
    (ho : o ∈ operations X.recorded)
    (hw : Withdrawn o) (hr : Released o) {g : Occurrence} (hg : g ∈ Y.recorded.trace) : ¬Grants o.id g := by
  intro hgrant
  obtain ⟨r, hrow, rfl⟩ := withdrawn_stays hX hY ho hw
  have ht := grant_stored (Reach.Reachable.run hX.legal (hX.run hY)) hg hgrant hrow
  rw [hr.1] at ht
  cases ht

theorem withdrawn_never_sent (hX : Service.Reachable cfg X) (hY : Reach.Run (Service cfg) X Y)
    (ho : o ∈ operations X.recorded)
    (hw : Withdrawn o) {g : Occurrence} (hg : g ∈ Y.recorded.trace) : ¬Sends o.id g := by
  intro hsend
  obtain ⟨r, hrow, rfl⟩ := withdrawn_stays hX hY ho hw
  exact sent_stored (Reach.Reachable.run hX.legal (hX.run hY)) hg hsend hrow hw.2.1

/-- A withdrawn operation whose nonce is final for another one is never executed. -/
theorem superseded (hX : Service.Reachable cfg X) (hY : Reach.Run (Service cfg) X Y) (hk : KeepsBlocks X.recorded.trace)
    (hh : HashesBlocks X.recorded.trace) (hw : Withdrawn o) (hn : nonceKey o ∈ finalNonces (operations X.recorded)) :
    Y.recorded.state.chain.UsedByAnother o ∧
      ∃ f ∈ operations X.recorded, hasFinalGas f = true ∧ nonceKey f = nonceKey o ∧
        ∀ e ∈ Y.recorded.state.chain.executed,
        e.sender = o.account → e.nonce = o.nonce → f.userOperationHash = some e.userOpHash := by
  obtain ⟨f, hf, hfinal, hkey⟩ := mem_finalNonces.mp hn
  obtain ⟨r, hr, rfl⟩ := row_of_operation hX.legal hf
  have hsettled := (final_canonical hX.legal hk hh hr (finality_of_finalGas hfinal)).extends (run_extends (hX.run hY))
  have hvalid : Y.recorded.state.chain.Valid := Legal.Reachable.valid (Reach.Reachable.run hX.legal (hX.run hY))
  obtain ⟨-, hkey'⟩ := Prod.mk.inj hkey
  obtain ⟨ha, hnonce⟩ := Prod.mk.inj hkey'
  obtain ⟨hused, hother⟩ := hsettled.used hvalid ha.symm hnonce.symm hw.2.1
  exact ⟨hused, _, hf, hfinal, hkey, hother⟩

/-- An operation that is final is charged what it has cost. -/
theorem charge_final (hX : Service.Reachable cfg X) (hk : KeepsBlocks X.recorded.trace)
    (hh : HashesBlocks X.recorded.trace)
    (ho : o ∈ operations X.recorded) (hp : o.gasPayment ≠ some .selfFunded) (hf : hasFinalGas o = true) :
    o.actualGasCost = some (paid X.recorded.state.chain o) ∧
      charge (finalNonces (operations X.recorded)) o = paid X.recorded.state.chain o := by
  obtain ⟨r, hr, rfl⟩ := row_of_operation hX.legal ho
  have hsettled := final_canonical hX.legal hk hh hr (finality_of_finalGas hf)
  have hpaid := hsettled.paid_eq hX.legal.valid
  obtain ⟨b, -, -, receipt, -, e, -, -, -, -, hcost⟩ := hsettled
  rw [hcost] at hpaid
  refine ⟨by rw [hcost, hpaid]; rfl, ?_⟩
  rw [charge, if_neg hp, if_pos hf, hcost, hpaid]

/-- What is charged for an operation covers it. -/
theorem liability_le (hX : Service.Reachable cfg X) (hk : KeepsBlocks X.recorded.trace)
    (hh : HashesBlocks X.recorded.trace)
    (ho : o ∈ operations X.recorded) : liability cfg X o ≤ charge (finalNonces (operations X.recorded)) o := by
  unfold liability
  split
  · exact Nat.zero_le _
  · rename_i hp
    split
    · rename_i hf
      exact Nat.le_of_eq (charge_final hX hk hh ho hp hf).2.symm
    · rename_i hf
      split
      · rename_i hout
        rw [charge, if_neg hp, if_neg hf, if_neg]
        rintro ⟨hw, hzero⟩
        obtain ⟨hunused, Y, hY, g, hg, hgrant⟩ := hout
        rcases hgrant with hgrant | hsend
        · rcases hzero with hr | hn
          · exact released_never_granted hX hY ho hw hr hg hgrant
          · exact hunused (superseded hX .refl hk hh hw hn).1
        · exact withdrawn_never_sent hX hY ho hw hg hsend
      · exact Nat.zero_le _

/-- The charges of a lane, operation by operation. -/
theorem laneCharges_eq (ops : List Operation) (lane : BudgetLane) :
    laneCharges ops lane = ((ops.filter fun o => decide (o.lane = lane)).map (charge (finalNonces ops))).sum := by
  unfold laneCharges budgetCharges
  rw [List.filter_map, List.map_map]
  rfl

end

/-- **Charges cover what the sponsor pays.** As long as the chain keeps the block of a receipt until the refresh has
seen that it is final: an operation that is released is never granted sponsorship; an operation that is superseded
by its nonce is never sent, and the nonce is only used by the operation that is final; an operation that is final is
charged what it has cost, and any other its ceiling. The charges of a lane are at least what the sponsor has paid
for the operations that are final, and the ceilings of those that could still be executed. -/
theorem charges_cover {cfg : ServiceConfig} {X : Threads} (hX : Service.Reachable cfg X)
    (hk : KeepsBlocks X.recorded.trace)
    (hh : HashesBlocks X.recorded.trace) :
    (∀ o ∈ operations X.recorded, Withdrawn o → Released o →
      ∀ Y, Reach.Run (Service cfg) X Y → ∀ g ∈ Y.recorded.trace, ¬Grants o.id g) ∧
    (∀ o ∈ operations X.recorded, Withdrawn o → nonceKey o ∈ finalNonces (operations X.recorded) →
      ∀ Y, Reach.Run (Service cfg) X Y → (∀ g ∈ Y.recorded.trace, ¬Sends o.id g) ∧
        ∃ f ∈ operations X.recorded, hasFinalGas f = true ∧ nonceKey f = nonceKey o ∧
          ∀ e ∈ Y.recorded.state.chain.executed,
          e.sender = o.account → e.nonce = o.nonce → f.userOperationHash = some e.userOpHash) ∧
    (∀ o ∈ operations X.recorded, o.gasPayment ≠ some .selfFunded →
      (o.finality = .finalized → o.actualGasCost = some (paid X.recorded.state.chain o) ∧
        charge (finalNonces (operations X.recorded)) o = paid X.recorded.state.chain o) ∧
      (o.finality ≠ .finalized → ¬(Withdrawn o ∧ (Released o ∨ nonceKey o ∈ finalNonces (operations X.recorded))) →
        charge (finalNonces (operations X.recorded)) o = o.maxGasCost)) ∧
    ∀ lane, laneLiability cfg X lane ≤ laneCharges (operations X.recorded) lane := by
  refine ⟨?_, ?_, ?_, ?_⟩
  · intro o ho hw hr Y hY g hg
    exact released_never_granted hX hY ho hw hr hg
  · intro o ho hw hn Y hY
    exact ⟨fun g hg => withdrawn_never_sent hX hY ho hw hg, (superseded hX hY hk hh hw hn).2⟩
  · intro o ho hp
    refine ⟨fun hf => ?_, fun hf hz => ?_⟩
    · obtain ⟨r, hr, rfl⟩ := row_of_operation hX.legal ho
      exact charge_final hX hk hh ho hp ((hX.legal.orderly.find hr).1.finalGas hf)
    · rw [charge, if_neg hp, if_neg (fun hg => hf (finality_of_finalGas hg)), if_neg hz]
  · intro lane
    rw [laneCharges_eq]
    refine List.sum_le_sum ?_
    intro o ho
    exact liability_le hX hk hh (List.mem_filter.mp ho).1

/-! A run in which the chain replaces the block that a refresh has read. -/

/-- The user operation has been executed by another block, at a higher price. -/
def otherChain : Chain where
  blocks := [⟨1, 101, [⟨9, 1, 101, true, [.userOperationEvent ENTRY_POINT ⟨5, addr 7, 5, true, 7⟩]⟩]⟩]
  finalized := 1
  sequence _ _ := 6

theorem otherChain_valid : otherChain.Valid where
  numbers := List.pairwise_singleton _ _
  located := by
    rintro b hb r hr
    obtain rfl := List.mem_singleton.mp hb
    obtain rfl := List.mem_singleton.mp hr
    exact ⟨rfl, rfl⟩
  once := List.nodup_singleton _
  used := by
    rintro e he
    obtain rfl := List.mem_singleton.mp he
    exact (by decide : 5 % 2 ^ 64 < 6)

/-- A query has read the head and the block; then the block is replaced, and the other block is final. -/
def replacing : List Action :=
  sampleRegistration ++ [sampleRequest, .run 1 20, withChain (sampleChain 0), .start 2 (query sampleConfig true 1),
    .run 2 6,
    withChain otherChain, .run 2 20]

theorem replacing_reachable :
    Service.Reachable sampleConfig (sampleResponder.play replacing (beginning emptyChain [])) := by
  refine sampleResponder.reachable emptyChain_valid
    ⟨⟨rfl, .register _ _⟩, trivial, ⟨rfl, .serve _ _⟩, trivial, ?_, ⟨rfl, .query _ _⟩, trivial, ?_, trivial, trivial⟩
  · refine withChain_valid (sampleChain_valid 0) ⟨Nat.le_refl _, ?_⟩
    exact fun _ hb => absurd hb List.not_mem_nil
  · refine withChain_valid otherChain_valid ⟨Nat.zero_le _, ?_⟩
    intro b hb hn
    obtain rfl := List.mem_singleton.mp hb
    exact absurd hn (by decide)

theorem laneLiability_of_final {cfg : ServiceConfig} {X : Threads} {r : StoredOperation}
    (hrows : X.recorded.state.rows = [r])
    (hp : r.operation.gasPayment ≠ some .selfFunded) (hf : hasFinalGas r.operation = true) :
    laneLiability cfg X r.operation.lane = paid X.recorded.state.chain r.operation := by
  simp [laneLiability, liability, hrows, hp, hf]

/-- The receipt that is settled is not on the chain: the charge does not cover what has been paid. -/
theorem charged_too_little : ∃ X r, Service.Reachable sampleConfig X ∧ X.recorded.state.rows = [r] ∧
    r.operation.gasPayment ≠ some .selfFunded ∧ hasFinalGas r.operation = true ∧
    paid X.recorded.state.chain r.operation = 7 ∧ laneCharges (operations X.recorded) r.operation.lane = 3 ∧
    laneCharges (operations X.recorded) r.operation.lane < laneLiability sampleConfig X r.operation.lane := by
  obtain ⟨r, hrows, hp, hf, hpaid, hcharged⟩ : ∃ r,
      (sampleResponder.play replacing (beginning emptyChain [])).recorded.state.rows = [r] ∧
      r.operation.gasPayment = some .sponsored ∧ hasFinalGas r.operation = true ∧
      paid (sampleResponder.play replacing (beginning emptyChain [])).recorded.state.chain r.operation = 7 ∧
      laneCharges (operations (sampleResponder.play replacing (beginning emptyChain [])).recorded)
        r.operation.lane = 3 :=
    ⟨_, rfl, rfl, rfl, rfl, rfl⟩
  have hsponsored : r.operation.gasPayment ≠ some .selfFunded := by
    rw [hp]
    nofun
  refine ⟨_, r, replacing_reachable, hrows, hsponsored, hf, hpaid, hcharged, ?_⟩
  rw [laneLiability_of_final hrows hsponsored hf, hpaid, hcharged]
  decide

/-! A run that meets the condition. -/

/-- Whether the await reads a block, or the finalized block. -/
def Await.readsBlock : Await → Bool
  | .getBlock _ | .getFinalized => true
  | _ => false

/-- A chain that has the same blocks at all reads keeps them. -/
theorem keepsBlocks_of_same {cfg : ServiceConfig} {X : Recorded} (h : Legal.Reachable cfg X) (blocks : List ChainBlock)
    (hsame : X.trace.all (fun o => !o.event.cmd.readsBlock || decide (o.before.chain.blocks = blocks)) = true) :
    KeepsBlocks X.trace := by
  have hblocks : ∀ o ∈ X.trace, o.event.cmd.readsBlock = true → o.before.chain.blocks = blocks := by
    intro o ho hreads
    have h := List.all_eq_true.mp hsame o ho
    simpa [hreads] using h
  intro s t u b f receipt number ht _ _ hb hf _
  obtain ⟨W, hW⟩ := h.split ht
  have heff := hW.effect
  rw [hb] at heff
  have hread : b.before.chain.getBlock receipt.blockNumber = some receipt.blockHash := heff.rows.2 receipt.blockHash rfl
  have hbb := hblocks b (by simp [ht]) (by rw [hb]; rfl)
  have hff := hblocks f (by simp [ht]) (by rw [hf]; rfl)
  rw [← hread, Chain.getBlock, Chain.getBlock, hff, hbb]

theorem hashesBlocks_of_single {tr : List Occurrence} (block : ChainBlock)
    (h : tr.all (fun o => decide (o.before.chain.blocks = []) || decide (o.before.chain.blocks = [block])) = true) :
    HashesBlocks tr := by
  have hsingle : ∀ o ∈ tr, ∀ b ∈ o.before.chain.blocks, b = block := by
    intro o ho b hb
    have ho := List.all_eq_true.mp h o ho
    simp only [Bool.or_eq_true, decide_eq_true_eq] at ho
    rcases ho with ho | ho
    · rw [ho] at hb
      cases hb
    · rw [ho] at hb
      exact List.mem_singleton.mp hb
  intro o ho o' ho' b hb b' hb' _
  rw [hsingle o ho b hb, hsingle o' ho' b' hb']

/-- An operation is cancelled; another one of the same nonce is executed and settled. -/
def superseding : List Action :=
  [.start 4 (register sampleConfig { sampleInput with idempotencyKey := 2 } 2), .run 4 20,
    .start 5 (cancel 2), .run 5 20] ++
    sampleRegistration ++ [sampleRequest, .run 1 20, withChain (sampleChain 1), .start 2 (query sampleConfig true 1),
      .run 2 20]

theorem superseding_reachable :
    Service.Reachable sampleConfig (sampleResponder.play superseding (beginning emptyChain [])) := by
  refine sampleResponder.reachable emptyChain_valid ⟨⟨rfl, .register _ _⟩, trivial, ⟨rfl, .cancel _⟩, trivial,
    ⟨rfl, .register _ _⟩,
    trivial, ⟨rfl, .serve _ _⟩, trivial, ?_, ⟨rfl, .query _ _⟩, trivial, trivial⟩
  refine withChain_valid (sampleChain_valid 1) ⟨Nat.zero_le _, ?_⟩
  exact fun _ hb => absurd hb List.not_mem_nil

theorem charges_cover_sample : ∃ X o, Service.Reachable sampleConfig X ∧ o ∈ operations X.recorded ∧
    Withdrawn o ∧ Released o ∧
    nonceKey o ∈ finalNonces (operations X.recorded) ∧
      (∀ Y, Reach.Run (Service sampleConfig) X Y → ∀ g ∈ Y.recorded.trace, ¬Sends o.id g) ∧
    laneCharges (operations X.recorded) .exit = 3 ∧ laneLiability sampleConfig X .exit ≤ 3 := by
  obtain ⟨o, ho, hw, hr, hn, hcharged⟩ : ∃ o,
    o ∈ operations (sampleResponder.play superseding (beginning emptyChain [])).recorded ∧
      Withdrawn o ∧ Released o ∧
      nonceKey o ∈ finalNonces (operations (sampleResponder.play superseding (beginning emptyChain [])).recorded) ∧
      laneCharges (operations (sampleResponder.play superseding (beginning emptyChain [])).recorded) .exit = 3 :=
    ⟨_, List.mem_cons_self, ⟨rfl, rfl, rfl, rfl⟩, ⟨rfl, nofun⟩, List.mem_cons_self, rfl⟩
  obtain ⟨-, hsuperseded, -, hlane⟩ := charges_cover superseding_reachable
    (keepsBlocks_of_same superseding_reachable.legal (sampleChain 1).blocks rfl)
    (hashesBlocks_of_single ⟨1, 100, [⟨9, 1, 100, true, [.userOperationEvent ENTRY_POINT ⟨5, addr 7, 5, true, 3⟩]⟩]⟩
      rfl)
  exact ⟨_, o, superseding_reachable, ho, hw, hr, hn, fun Y hY => (hsuperseded o ho hw hn Y hY).1, hcharged,
    hcharged ▸ hlane .exit⟩

end Cpredict.Operations
