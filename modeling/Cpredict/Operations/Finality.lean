import Cpredict.Operations.Submission

/-!
# Finality

A refresh writes its outcome if the record is in one of some states; whether the record is final is only asked of
the record that the refresh has read. So a refresh that is overtaken by another one may write over an outcome that
is final (`finality_lost`). If no outcome is written between what a refresh reads and what it writes
(`Undisturbed`), an operation that is final stays as it is, and an outcome is only replaced by one from newer
answers (`finality_absorbing`).
-/

namespace Cpredict.Operations

open Program

/-! ## Outcomes -/

def Change.isOutcome : Change → Bool
  | .settle _ | .reorganized => true
  | _ => false

/-- The await writes an outcome of the operation. -/
def WritesOutcome (id : Nat) (o : Occurrence) : Prop :=
  ∃ c at' old, o.event.cmd = .transition id c at' ∧ c.isOutcome = true ∧ o.before.rows.find id = some old ∧
    old.operation.state ∈ c.source ∧ o.after.rows.find id = some { old with operation := c.next at' old.operation }

/-- The await reads the record of the operation. -/
def ReadsOperation (id : Nat) (o : Occurrence) : Prop := ∃ r, ReadsRecord r o.event ∧ r.operation.id = id

/-- The await is answered by the bundler or the chain. -/
def Await.readsChain : Await → Bool
  | .userOperationReceipt _ | .getNonce _ _ | .getTransactionReceipt _ | .getBlockNumber | .getBlock
      _ | .getFinalized => true
  | _ => false

/-- Between what a refresh reads of an operation and the outcome that it writes, no outcome of the operation is
written. -/
def Undisturbed (tr : List Occurrence) : Prop :=
  ∀ (id i j k : Nat) (a m b : Occurrence), tr[i]? = some a → tr[j]? = some m → tr[k]? = some b → i < j → j < k →
    a.thread = b.thread → ReadsOperation id a → WritesOutcome id b → ¬WritesOutcome id m

/-- The answer at `j` has been asked for by the refresh that writes at `k`, after it has read the record. -/
def BasedOn (tr : List Occurrence) (id k j : Nat) : Prop :=
  ∃ i a x b, tr[i]? = some a ∧ tr[j]? = some x ∧ tr[k]? = some b ∧ i < j ∧ j < k ∧ a.thread = b.thread ∧
    x.thread = b.thread ∧ ReadsOperation id a ∧ x.event.cmd.readsChain = true

theorem Undisturbed.mono {s t : List Occurrence} (h : Undisturbed (s ++ t)) : Undisturbed s := by
  intro id i j k a m b hi hj hk hij hjk
  have hlt : ∀ {n : Nat} {o : Occurrence}, s[n]? = some o → (s ++ t)[n]? = some o := by
    intro n o hn
    rw [List.getElem?_append_left (List.getElem?_eq_some_iff.mp hn).1]
    exact hn
  exact h id i j k a m b (hlt hi) (hlt hj) (hlt hk) hij hjk

/-- The condition, for a trace that is split at the read and the write. -/
theorem Undisturbed.between {s₁ s₂ t : List Occurrence} {a b m : Occurrence} {id : Nat}
    (h : Undisturbed (s₁ ++ a :: (s₂ ++ b :: t))) (hthread : a.thread = b.thread) (ha : ReadsOperation id a)
    (hb : WritesOutcome id b) (hm : m ∈ s₂) : ¬WritesOutcome id m := by
  obtain ⟨u, v, rfl⟩ := List.append_of_mem hm
  refine h id s₁.length (s₁.length + (u.length + 1)) (s₁.length + (u.length + v.length + 2)) a m b ?_ ?_ ?_ ?_
    ?_ hthread ha hb
  · simp
  · simp
  · rw [List.getElem?_append_right (by omega)]
    simp [show s₁.length + (u.length + v.length + 2) - s₁.length = (u.length + (v.length + 1)) + 1 by omega]
  · omega
  · omega

section

variable {cfg : ServiceConfig} {X Y : Recorded} {id : Nat} {r : StoredOperation}

theorem pending_mem {rows : Rows} {now limit : Nat} (h : r ∈ pending rows now limit) : r ∈ rows := by
  have h' := (List.perm_insertionSort _ _).mem_iff.mp (List.mem_of_mem_take h)
  exact (List.mem_filter.mp h').1

/-- The record that is read is the record that is stored. -/
theorem reads_effect {o : Occurrence} (ho : Orderly o.before.rows) (hr : ReadsRecord r o.event)
    (he : Effect o.event.cmd o.before o.event.reply o.after) : o.after.rows.find r.operation.id = some r := by
  obtain ⟨i, e, w, w'⟩ := o
  cases hr with
  | @operation id =>
    obtain ⟨hrows, hans | ⟨_, hans⟩⟩ := he.rows
    · have hf : w.rows.find id = some r := (Except.ok.inj hans).symm
      rw [hrows, (mem_of_find hf).2]
      exact hf
    · cases hans
  | @pending n items hm =>
    obtain ⟨hrows, hans | ⟨_, hans⟩⟩ := he.rows
    · have hitems : items = pending w.rows w.now n := Except.ok.inj hans
      rw [hitems] at hm
      rw [hrows]
      exact ho.keyed.find (pending_mem hm)
    · cases hans

/-- The record that a refresh has read is an earlier version. -/
theorem Legal.Reachable.read_snapshot (h : Legal.Reachable cfg X) {i : Nat} {hash : Bytes32} {e : Event}
    (he : e ∈ own i X.trace)
    (hs : Snapshot id hash r e) : ∃ r', X.state.rows.find id = some r' ∧ Later r.operation r'.operation := by
  obtain ⟨s, o, t, ht, -, ho⟩ := own_mem he
  obtain ⟨W, hW⟩ := h.split ht
  have hfind := reads_effect (hW.state ▸ hW.reachable.orderly) (ho ▸ hs.reads) hW.effect
  rw [hs.id] at hfind
  exact hW.after.later hW.run hfind

/-- An outcome is written from a record that was not final when it was read. -/
theorem Permits.snapshot {l : List Event} {at' : Nat} {c : Change} (h : Permits cfg l (.transition id c at'))
    (hc : c.isOutcome = true) : ∃ e r hash, Snapshot id hash r e ∧ e ∈ l := by
  cases c with
  | settle s =>
    have hs : Settles cfg l id s := h
    cases hs with
    | intro hs _ _ hh _ _ _ => exact ⟨_, _, _, hs, hh.subset List.mem_cons_self⟩
  | reorganized => exact h
  | _ => cases hc

/-- Only an outcome changes the finality. -/
theorem next_finality_of_not_outcome {c : Change} {at' : Nat} {o : Operation} (hc : c.isOutcome = false) :
    (c.next at' o).finality = o.finality := by
  rw [next_finality]
  cases c with
  | settle s => cases hc
  | reorganized => cases hc
  | _ => rfl

/-- As long as no outcome is written, the finality stays. -/
theorem finality_kept (h : Legal.Reachable cfg X) (hrun : Reach.Run (Legal cfg) X Y) {t : List Occurrence}
    (ht : Y.trace = X.trace ++ t) (hno : ∀ m ∈ t, ¬WritesOutcome id m) (hr : X.state.rows.find id = some r) :
    ∃ r', Y.state.rows.find id = some r' ∧ r'.operation.finality = r.operation.finality := by
  induction hrun generalizing t with
  | refl => exact ⟨r, hr, rfl⟩
  | @tail Z Y hrun hstep ih =>
    obtain ⟨t₁, ht₁⟩ := Recorded.trace_le hrun
    obtain ⟨t₂, ht₂⟩ := Recorded.trace_le (Relation.ReflTransGen.single hstep)
    obtain rfl : t = t₁ ++ t₂ := by
      rw [← ht₁, List.append_assoc] at ht₂
      exact (List.append_cancel_left (ht₂.trans ht)).symm
    obtain ⟨r', hr', hf⟩ := ih ht₁.symm fun m hm => hno m (List.mem_append_left _ hm)
    have hZ := Reach.Reachable.run h hrun
    rcases hstep.moves.record (Legal.Reachable.orderly hZ) hr' with hsame | ⟨i, c, at', x, hp, htr, hs, hnext⟩
    · exact ⟨r', hsame, hf⟩
    · refine ⟨_, hnext, (next_finality_of_not_outcome ?_).trans hf⟩
      obtain rfl : t₂ = [⟨i, ⟨.transition id c at', x⟩, Z.state, Y.state⟩] := List.append_cancel_left (ht₂.trans htr)
      by_contra hc
      exact hno _ (List.mem_append_right _ (List.mem_singleton_self _))
        ⟨c, at', r', rfl, by simpa using hc, hr', hs, hnext⟩

/-- If nothing disturbs it, an outcome is not written over an operation that is final. -/
theorem outcome_not_final (h : Legal.Reachable cfg X) (hu : Undisturbed X.trace) {s t : List Occurrence}
    {b : Occurrence}
    (ht : X.trace = s ++ b :: t) (hb : WritesOutcome id b) (hr : b.before.rows.find id = some r) :
    r.operation.finality ≠ .finalized := by
  obtain ⟨Z, hZ⟩ := h.split ht
  have hb' := hb
  obtain ⟨c, at', old, hc, hout, -⟩ := hb'
  have hp := hZ.permits
  rw [hc] at hp
  obtain ⟨e, r₀, hash, hs, he⟩ := hp.snapshot hout
  rw [← hZ.trace] at he
  obtain ⟨s₁, a, s₂, hsplit, hthread, hae⟩ := own_mem he
  obtain ⟨W, hW⟩ := hZ.reachable.split hsplit
  have hread : ReadsRecord r₀ a.event := hae ▸ hs.reads
  have hfind : a.after.rows.find id = some r₀ := by
    rw [← hs.id]
    exact reads_effect (hW.state ▸ hW.reachable.orderly) hread hW.effect
  have hno : ∀ m ∈ s₂, ¬WritesOutcome id m := by
    intro m hm
    have hu' : Undisturbed (s₁ ++ a :: (s₂ ++ b :: t)) := by
      rw [← List.cons_append, ← List.append_assoc, ← hsplit, hZ.trace, ← ht]
      exact hu
    exact hu'.between hthread ⟨r₀, hread, hs.id⟩ hb hm
  obtain ⟨r', hr', hf⟩ := finality_kept hW.after hW.run (t := s₂) (by simpa using hsplit) hno hfind
  rw [hZ.state, hr] at hr'
  obtain rfl := Option.some.inj hr'
  rw [hf]
  exact hs.notFinal

/-- If nothing disturbs it, an operation that is final stays as it is. -/
theorem final_stays (h : Legal.Reachable cfg X) (hrun : Reach.Run (Legal cfg) X Y) (hu : Undisturbed Y.trace)
    (hr : X.state.rows.find id = some r) (hf : r.operation.finality = .finalized) :
    ∃ r', Y.state.rows.find id = some r' ∧ r'.operation = r.operation := by
  induction hrun with
  | refl => exact ⟨r, hr, rfl⟩
  | @tail Z Y hrun hstep ih =>
    have hY := (Reach.Reachable.run h hrun).next hstep
    obtain ⟨t, ht⟩ := Recorded.trace_le (Relation.ReflTransGen.single hstep)
    obtain ⟨r', hr', hsame⟩ := ih (ht ▸ hu).mono
    have hZ := Legal.Reachable.orderly (Reach.Reachable.run h hrun)
    rcases hstep.moves.record hZ hr' with hkept | ⟨i, c, at', x, hp, htr, hs, hnext⟩
    · exact ⟨r', hkept, hsame⟩
    · -- the change would be an outcome, for no other is made of a final operation
      exfalso
      have hstate := ((hZ.find hr').1.final (by rw [hsame]; exact hf)).1
      have hout : c.isOutcome = true := by
        have hst : r'.operation.state = .confirmed ∨ r'.operation.state = .reverted := by simpa using hstate
        cases c with
        | settle s => rfl
        | reorganized => rfl
        | _ => rcases hst with h' | h' <;> simp [Change.source, h'] at hs
      refine outcome_not_final hY hu htr ⟨c, at', r', rfl, hout, hr', hs, hnext⟩ hr' ?_
      rw [hsame]
      exact hf

/-- If nothing disturbs it, an outcome is replaced by one from newer answers only. -/
theorem answers_ordered {tr : List Occurrence} (hu : Undisturbed tr) {k k' j j' : Nat} {m b : Occurrence}
    (hk : tr[k]? = some m)
    (hk' : tr[k']? = some b) (hkk : k < k') (hm : WritesOutcome id m) (hb : WritesOutcome id b) (hj : BasedOn tr id k j)
    (hj' : BasedOn tr id k' j') : j < j' := by
  obtain ⟨_, _, _, _, _, _, _, _, hjk, -⟩ := hj
  obtain ⟨i, a, x, b', hi, -, hb', hij, -, hthread, -, hread, -⟩ := hj'
  obtain rfl := Option.some.inj (hk'.symm.trans hb')
  have hle : ¬i < k := fun hik => hu id i k k' a m b hi hk hk' hik hkk hthread hread hb hm
  omega

/-- A settlement is based on the receipt that it writes. -/
theorem settlement_based (h : Legal.Reachable cfg X) {s t : List Occurrence} {at' : Nat} {b : Occurrence}
    {w : Settlement}
    (ht : X.trace = s ++ b :: t) (hb : b.event.cmd = .transition id (.settle w) at') :
    ∃ j x receipt, BasedOn X.trace id s.length j ∧ X.trace[j]? = some x ∧
      x.event = receiptRead w.transactionHash receipt ∧ w.blockNumber = receipt.blockNumber ∧
        w.blockHash = receipt.blockHash := by
  obtain ⟨Z, hZ⟩ := h.split ht
  have hp : Settles cfg (own b.thread s) id w := by
    have hp := hZ.permits
    rwa [hb] at hp
  cases hp with
  | @intro e r hash transactionHash receipt event head _ _ enough finality settled hs _ _ hh _ _ _ =>
    have hpair : [e, receiptRead transactionHash receipt].Sublist (own b.thread s) := by
      refine List.Sublist.trans ?_ hh
      simp
    obtain ⟨s₁, a, s₂, x, s₃, rfl, ha, hae, hx, hxe⟩ := own_pair hpair
    have hja : X.trace[s₁.length]? = some a := by
      rw [ht]
      simp
    have hjx : X.trace[s₁.length + (s₂.length + 1)]? = some x := by
      rw [ht, List.append_assoc]
      simp
    refine ⟨s₁.length + (s₂.length + 1), x, receipt, ⟨s₁.length, a, x, b, hja, hjx, ?_, by omega, ?_, ha, hx, ?_, ?_⟩,
      hjx, hxe,
      rfl, rfl⟩
    · rw [ht]
      simp
    · simp
    · exact ⟨r, hae ▸ hs.reads, hs.id⟩
    · rw [hxe]
      rfl

end

/-! ## The service -/

/-- The operation has been executed. A query has read everything but has not yet written it when the block becomes
final; another query writes that. -/
def overlapping : List Action :=
  sampleRegistration ++ [sampleRequest, .run 1 20, withChain (sampleChain 0), .start 2 (query sampleConfig true 1),
    .run 2 8,
    withChain (sampleChain 1), .start 3 (query sampleConfig true 1), .run 3 20]

theorem overlapping_reachable :
    Service.Reachable sampleConfig (sampleResponder.play overlapping (beginning emptyChain [])) := by
  refine sampleResponder.reachable emptyChain_valid
    ⟨⟨rfl, .register _ _⟩, trivial, ⟨rfl, .serve _ _⟩, trivial, ?_, ⟨rfl, .query _ _⟩, trivial, ?_, ⟨rfl, .query _ _⟩,
      trivial, trivial⟩
  · refine withChain_valid (sampleChain_valid 0) ⟨Nat.le_refl _, ?_⟩
    exact fun _ hb => absurd hb List.not_mem_nil
  · refine withChain_valid (sampleChain_valid 1) ⟨Nat.zero_le _, ?_⟩
    exact fun _ hb _ => hb

/-- A query that has been overtaken takes the finality back. -/
theorem finality_lost : ∃ X Y, Service.Reachable sampleConfig X ∧ Reach.Run (Service sampleConfig) X Y ∧
    ∃ r r', X.recorded.state.rows.find 1 = some r ∧ r.operation.finality = .finalized ∧
      Y.recorded.state.rows.find 1 = some r' ∧ r'.operation.finality = .applicationConfirmed :=
  ⟨_, _, overlapping_reachable, Program.Threads.advance_run sampleResponder.effect 2 1 _, _, _, rfl, rfl, rfl, rfl⟩

/-- **Finality is absorbing.** In every run in which nothing disturbs a refresh between what it reads and what it
writes, an operation that is final stays as it is; an outcome is only replaced by one that is based on newer
answers, and a settlement is based on the receipt that it writes. -/
theorem finality_absorbing {cfg : ServiceConfig} {X Y : Threads} (hX : Service.Reachable cfg X)
    (hY : Reach.Run (Service cfg) X Y)
    (hu : Undisturbed Y.recorded.trace) :
    (∀ id r, X.recorded.state.rows.find id = some r → r.operation.finality = .finalized →
      ∃ r', Y.recorded.state.rows.find id = some r' ∧ r'.operation = r.operation) ∧
    (∀ (id k k' : Nat) (m b : Occurrence), Y.recorded.trace[k]? = some m → Y.recorded.trace[k']? = some b → k < k' →
      WritesOutcome id m → WritesOutcome id b →
      ∀ j j', BasedOn Y.recorded.trace id k j → BasedOn Y.recorded.trace id k' j' → j < j') ∧
    ∀ (s t : List Occurrence) (b : Occurrence) (id at' : Nat) (w : Settlement), Y.recorded.trace = s ++ b :: t →
      b.event.cmd = .transition id (.settle w) at' → ∃ j x receipt, BasedOn Y.recorded.trace id s.length j ∧
        Y.recorded.trace[j]? = some x ∧ x.event = receiptRead w.transactionHash receipt ∧
        w.blockNumber = receipt.blockNumber ∧ w.blockHash = receipt.blockHash := by
  refine ⟨?_, ?_, ?_⟩
  · intro id r hr hf
    exact final_stays hX.legal (hX.run hY) hu hr hf
  · intro id k k' m b hk hk' hkk hm hb j j' hj hj'
    exact answers_ordered hu hk hk' hkk hm hb hj hj'
  · intro s t b id at' w ht hb
    exact settlement_based (Reach.Reachable.run hX.legal (hX.run hY)) ht hb

/-! A run that settles. -/

/-- Whether the await may write an outcome. -/
def Await.isOutcome : Await → Bool
  | .transition _ c _ => c.isOutcome
  | _ => false

/-- When an outcome is written, the threads that write one later have not begun. -/
def apart (seen : List Nat) : List (Nat × Bool) → Bool
  | [] => true
  | (i, outcome) :: rest => (!outcome || rest.all fun y => !y.2 || !seen.contains y.1) && apart (i :: seen) rest

theorem not_mem_of_apart {seen : List Nat} {s t : List (Nat × Bool)} {x y : Nat × Bool}
    (h : apart seen (s ++ x :: t) = true)
    (hx : x.2 = true) (hyt : y ∈ t) (hy : y.2 = true) : y.1 ∉ seen ∧ y.1 ∉ s.map Prod.fst := by
  induction s generalizing seen with
  | nil =>
    have hall := (Bool.and_eq_true_iff.mp h).1
    rw [hx, Bool.not_true, Bool.false_or, List.all_eq_true] at hall
    have hnot := hall y hyt
    rw [hy, Bool.not_true, Bool.false_or] at hnot
    exact ⟨by simpa using hnot, List.not_mem_nil⟩
  | cons z s ih =>
    obtain ⟨hseen, hs⟩ := ih (Bool.and_eq_true_iff.mp h).2
    obtain ⟨hz, hseen⟩ := not_or.mp (mt List.mem_cons.mpr hseen)
    exact ⟨hseen, by simp [hz, hs]⟩

/-- A run whose refreshes come one after the other is undisturbed. -/
theorem undisturbed_of_apart {tr : List Occurrence}
    (h : apart [] (tr.map fun o => (o.thread, o.event.cmd.isOutcome)) = true) : Undisturbed tr := by
  have hout : ∀ {o : Occurrence} {id : Nat}, WritesOutcome id o → o.event.cmd.isOutcome = true := by
    rintro o id ⟨c, at', old, hc, hout, -⟩
    rw [hc]
    exact hout
  intro id i j k a m b hi hj hk hij hjk hthread _ hb hm
  obtain ⟨hjl, rfl⟩ := List.getElem?_eq_some_iff.mp hj
  have hsplit : tr = tr.take j ++ tr[j] :: tr.drop (j + 1) := by simp
  rw [hsplit, List.map_append, List.map_cons] at h
  have hbt : b ∈ tr.drop (j + 1) := by
    refine List.mem_iff_getElem?.mpr ⟨k - (j + 1), ?_⟩
    rw [List.getElem?_drop, ← hk]
    congr 1
    omega
  have hat : a ∈ tr.take j := by
    refine List.mem_iff_getElem?.mpr ⟨i, ?_⟩
    rw [List.getElem?_take_of_lt hij, hi]
  refine (not_mem_of_apart h (hout hm) (List.mem_map_of_mem hbt) (hout hb)).2 ?_
  rw [← hthread, List.map_map]
  exact List.mem_map_of_mem (f := Prod.fst ∘ _) hat

/-- The chain on which another block has the transaction. -/
def replacedChain : Chain where
  blocks := [⟨1, 200, [⟨9, 1, 200, true, [.userOperationEvent ENTRY_POINT ⟨5, addr 7, 5, true, 3⟩]⟩]⟩]
  finalized := 1
  sequence _ _ := 6

theorem replacedChain_valid : replacedChain.Valid where
  numbers := List.pairwise_singleton _ _
  located := by
    rintro b hb r hr
    obtain rfl := List.mem_singleton.mp hb
    obtain rfl := List.mem_singleton.mp hr
    exact ⟨rfl, rfl⟩
  once := List.nodup_singleton _
  used := by
    rintro e he
    obtain rfl := List.mem_singleton.mp he
    exact (by decide : 5 % 2 ^ 64 < 6)

/-- The operation is executed and settled, its block is lost, and it is settled in another block that is final. -/
def settling : List Action :=
  sampleRegistration ++ [sampleRequest, .run 1 20, withChain (sampleChain 0), .start 2 (query sampleConfig true 1),
    .run 2 20,
    withChain emptyChain, .start 3 (query sampleConfig true 1), .run 3 20, withChain replacedChain,
    .start 6 (query sampleConfig true 1), .run 6 20]

theorem settling_reachable :
    Service.Reachable sampleConfig (sampleResponder.play settling (beginning emptyChain [])) := by
  refine sampleResponder.reachable emptyChain_valid
    ⟨⟨rfl, .register _ _⟩, trivial, ⟨rfl, .serve _ _⟩, trivial, ?_, ⟨rfl, .query _ _⟩, trivial, ?_,
      ⟨rfl, .query _ _⟩, trivial, ?_,
      ⟨rfl, .query _ _⟩, trivial, trivial⟩
  · refine withChain_valid (sampleChain_valid 0) ⟨Nat.le_refl _, ?_⟩
    exact fun _ hb => absurd hb List.not_mem_nil
  · refine withChain_valid emptyChain_valid ⟨Nat.le_refl _, ?_⟩
    intro b hb hn
    obtain rfl := List.mem_singleton.mp hb
    exact absurd hn (Nat.not_succ_le_zero 0)
  · refine withChain_valid replacedChain_valid ⟨Nat.zero_le _, ?_⟩
    exact fun _ hb => absurd hb List.not_mem_nil

/-- What is written of the finality, in a trace. -/
def outcomes (trace : List Occurrence) : List (Option Finality) :=
  trace.filterMap fun o => match o.event.cmd with
    | .transition _ (.settle s) _ => some (some s.finality)
    | .transition _ .reorganized _ => some none
    | _ => none

/-- Three outcomes are written, one after the other; a query of the final operation writes none. -/
theorem finality_absorbing_sample : ∃ X Y r, Service.Reachable sampleConfig X ∧ Reach.Run (Service sampleConfig) X Y ∧
    outcomes Y.recorded.trace = [some .applicationConfirmed, none, some .finalized] ∧
    X.recorded.state.rows.find 1 = some r ∧ r.operation.finality = .finalized ∧ r.operation.blockHash = some 200 ∧
    ∃ r', Y.recorded.state.rows.find 1 = some r' ∧ r'.operation = r.operation := by
  have hrun : Reach.Run (Service sampleConfig) (sampleResponder.play settling (beginning emptyChain []))
      (sampleResponder.play [.start 7 (query sampleConfig true 1), .run 7 20]
        (sampleResponder.play settling (beginning emptyChain []))) :=
    Program.Threads.play_run sampleResponder.effect ⟨⟨rfl, .query _ _⟩, trivial, trivial⟩
  refine ⟨_, _, _, settling_reachable, hrun, rfl, rfl, rfl, rfl, ?_⟩
  exact (finality_absorbing settling_reachable hrun (undisturbed_of_apart rfl)).1 1 _ rfl rfl

end Cpredict.Operations
