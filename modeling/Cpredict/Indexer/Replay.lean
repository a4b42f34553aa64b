import Cpredict.Indexer.EventStore

/-!
# Batches in a straight line

What a store has that has taken batches of one chain, one after the other, with the events of each in the order of
the chain (`Straight`), and what it would have if the last batches had ended at an earlier block (`Straight.cut`).
-/

namespace Cpredict.Indexer

open Outcome

namespace EventStore

/-! ## The order of the chain -/

section

variable {a b c : IndexedEvent} {events known : List IndexedEvent} {n : Nat}

theorem eventLe_iff : eventLe a b = true ↔ a.blockNumber < b.blockNumber ∨ a.blockNumber = b.blockNumber ∧
    (a.transactionIndex < b.transactionIndex ∨ a.transactionIndex = b.transactionIndex ∧ a.logIndex ≤ b.logIndex) := by
  unfold eventLe
  split <;> rename_i hb
  · simp only [decide_eq_true_eq]
    omega
  · split <;> rename_i ht <;> simp only [decide_eq_true_eq] <;> omega

theorem eventLe_trans (h₁ : eventLe a b = true) (h₂ : eventLe b c = true) : eventLe a c = true := by
  rw [eventLe_iff] at *
  omega

theorem eventLe_total (a b : IndexedEvent) : eventLe a b = true ∨ eventLe b a = true := by
  rw [eventLe_iff, eventLe_iff]
  omega

instance : IsTrans IndexedEvent fun a b => eventLe a b = true := ⟨fun _ _ _ => eventLe_trans⟩

instance : Std.Total fun a b : IndexedEvent => eventLe a b = true := ⟨eventLe_total⟩

/-- The events of a batch are in the order of the chain. -/
def Ordered (batch : CanonicalBatch) : Prop := batch.events.Pairwise fun a b => eventLe a b = true

/-- The events up to a block come first. -/
theorem sorted_split (h : events.Pairwise fun a b => eventLe a b = true) (n : Nat) :
    ∃ early later, events = early ++ later ∧ (∀ e ∈ early, e.blockNumber ≤ n) ∧ ∀ e ∈ later, n < e.blockNumber := by
  induction events with
  | nil => exact ⟨[], [], rfl, fun e he => absurd he List.not_mem_nil, fun e he => absurd he List.not_mem_nil⟩
  | cons x rest ih =>
    obtain ⟨hx, hrest⟩ := List.pairwise_cons.mp h
    by_cases hn : x.blockNumber ≤ n
    · obtain ⟨early, later, rfl, hearly, hlater⟩ := ih hrest
      exact ⟨x :: early, later, rfl, List.forall_mem_cons.mpr ⟨hn, hearly⟩, hlater⟩
    · refine ⟨[], x :: rest, rfl, fun e he => absurd he List.not_mem_nil, fun e he => ?_⟩
      rcases List.mem_cons.mp he with rfl | he
      · omega
      · have hle := eventLe_iff.mp (hx e he)
        omega

theorem filter_split {early later : List IndexedEvent} (hearly : ∀ e ∈ early, e.blockNumber ≤ n)
    (hlater : ∀ e ∈ later, n < e.blockNumber) :
    (early ++ later).filter (fun e => ChainData.keeps (some n) e.blockNumber) = early := by
  have h₁ : early.filter (fun e => ChainData.keeps (some n) e.blockNumber) = early :=
    List.filter_eq_self.mpr fun e he => (keeps_some n _).mpr (hearly e he)
  have h₂ : later.filter (fun e => ChainData.keeps (some n) e.blockNumber) = [] :=
    List.filter_eq_nil_iff.mpr fun e he hk => absurd ((keeps_some n _).mp hk) (Nat.not_le.mpr (hlater e he))
  rw [List.filter_append, h₁, h₂, List.append_nil]

/-- The new ones of the events up to a block are the new events up to the block. -/
theorem firsts_filter (h : events.Pairwise fun a b => eventLe a b = true) (n : Nat) (known : List IndexedEvent) :
    firsts known (events.filter fun e => ChainData.keeps (some n) e.blockNumber) =
      (firsts known events).filter fun e => ChainData.keeps (some n) e.blockNumber := by
  obtain ⟨early, later, rfl, hearly, hlater⟩ := sorted_split h n
  rw [filter_split hearly hlater, firsts_append,
    filter_split (fun e he => hearly e (firsts_subset he)) fun e he => hlater e (firsts_subset he)]

/-- New events differ from those that are known, and from one another. -/
theorem firsts_apart (known events : List IndexedEvent)
    (h : known.Pairwise fun a b => ChainData.sameKey a b = false) :
    (known ++ firsts known events).Pairwise fun a b => ChainData.sameKey a b = false := by
  induction events generalizing known with
  | nil => simpa [firsts] using h
  | cons x rest ih =>
    unfold firsts
    split
    · exact ih known h
    · rename_i hx
      have hnew : (known ++ [x]).Pairwise fun a b => ChainData.sameKey a b = false := by
        refine List.pairwise_append.mpr ⟨h, List.pairwise_singleton _ _, fun a ha b hb => ?_⟩
        rw [List.mem_singleton.mp hb]
        by_contra hs
        refine hx (List.any_eq_true.mpr ⟨a, ha, ?_⟩)
        simp only [ChainData.sameKey, Bool.not_eq_false, Bool.and_eq_true, decide_eq_true_eq] at hs ⊢
        exact ⟨hs.1.symm, hs.2.symm⟩
      have hall := ih (known ++ [x]) hnew
      rwa [List.append_assoc] at hall

end

/-! ## Batches of one chain -/

section

variable {Q : Type} (X : Projector Q)

/-- Batches of a chain that a new store has taken. -/
inductive Straight (c : Nat) : List CanonicalBatch → EventStore Q → Prop
  | nil : Straight c [] (fresh X)
  | snoc {bs : List CanonicalBatch} {T T' : EventStore Q} {batch : CanonicalBatch} : Straight c bs T →
      batch.range.chainId = c → Ordered batch → Taken X T batch T' → Straight c (bs ++ [batch]) T'

/-- What a store has that has taken batches of a chain. -/
structure Line (c : Nat) (bs : List CanonicalBatch) (T : EventStore Q) : Prop where
  blocks : ∀ n b, (T.chains c).blocks n = some b → n < (T.chains c).next
  ranges : ∀ r ∈ (T.chains c).ranges, r.toBlock < (T.chains c).next
  batches : ∀ batch ∈ bs, batch.range.toBlock < (T.chains c).next
  chain : ∀ e ∈ (T.chains c).events, e.chainId = c
  events : ∀ e ∈ (T.chains c).events, e.blockNumber < (T.chains c).next
  sorted : (T.chains c).events.Pairwise fun a b => eventLe a b = true
  seen : (T.chains c).events = firsts [] (bs.flatMap CanonicalBatch.events)
  replay : X.projectAll (T.chains c).events X.empty = .ok T.projections
  applied : applyAll X bs (fresh X) = .ok T

end

section

variable {Q : Type} {X : Projector Q} {c : Nat} {bs : List CanonicalBatch}
  {S S' T T' : EventStore Q} {C : ChainData} {batch : CanonicalBatch}

/-- A batch starts behind what has been scanned. -/
theorem Continues.next_le (h : Continues C.checkpoint batch.range) : C.next ≤ batch.range.fromBlock := by
  unfold ChainData.next
  cases hc : C.checkpoint with
  | none => exact Nat.zero_le _
  | some p => exact (h.next p hc).1.ge

theorem next_taken {overwrites : Bool} (h : Valid batch) :
    (taken overwrites batch C).next = batch.range.toBlock + 1 := by
  unfold ChainData.next taken
  rw [h.checkpoint]
  rfl

/-- A batch that starts behind the checkpoint is not one that has been committed. -/
theorem Taken.not_committed (h : Taken X S batch S') : ¬S.Committed batch := by
  rintro ⟨-, hcp⟩
  have hle := Continues.next_le h.continues
  have hn := h.valid.nonempty
  unfold ChainData.next at hle
  rw [hcp, h.valid.checkpoint] at hle
  simp only [Option.elim_some] at hle
  omega

theorem Straight.line (h : Straight X c bs T) : Line X c bs T := by
  induction h with
  | nil =>
    exact ⟨fun n b hb => absurd hb (by simp [fresh, ChainData.empty]), fun r hr => absurd hr List.not_mem_nil,
      fun b hb => absurd hb List.not_mem_nil, fun e he => absurd he List.not_mem_nil,
      fun e he => absurd he List.not_mem_nil, List.Pairwise.nil, rfl, rfl, rfl⟩
  | @snoc bs T T' batch _ hchain ho ht ih =>
    subst hchain
    have hself := ht.chain_self
    have hle := Continues.next_le ht.continues
    have hne := ht.valid.nonempty
    have hnext : (T'.chains batch.range.chainId).next = batch.range.toBlock + 1 := by
      rw [hself, next_taken ht.valid]
    have hnew : ∀ e ∈ firsts (T.chains batch.range.chainId).events batch.events,
        FitsEvent batch.range batch.anchors e := fun e he => ht.valid.events e (firsts_subset he)
    have hevents : (T'.chains batch.range.chainId).events = (T.chains batch.range.chainId).events ++
        firsts (T.chains batch.range.chainId).events batch.events := by rw [hself]; rfl
    refine ⟨fun n b hb => ?_, fun r hr => ?_, fun x hx => ?_, fun e he => ?_, fun e he => ?_, ?_, ?_, ?_, ?_⟩
    · rw [hnext]
      rw [hself] at hb
      by_cases hn : ∃ a ∈ batch.anchors, a.blockNumber = n
      · obtain ⟨a, ha, rfl⟩ := hn
        exact Nat.lt_succ_of_le (ht.valid.anchors a ha).below
      · have hold := ih.blocks n b ((putAll_other fun a ha han => hn ⟨a, ha, han⟩).symm.trans hb)
        omega
    · rw [hself] at hr
      rw [hnext]
      rcases List.mem_append.mp hr with hr | hr
      · have hold := ih.ranges r hr
        omega
      · rw [List.mem_singleton.mp hr]
        omega
    · rw [hnext]
      rcases List.mem_append.mp hx with hx | hx
      · have hold := ih.batches x hx
        omega
      · rw [List.mem_singleton.mp hx]
        omega
    · rw [hevents] at he
      rcases List.mem_append.mp he with he | he
      · exact ih.chain e he
      · exact (hnew e he).chain
    · rw [hevents] at he
      rw [hnext]
      rcases List.mem_append.mp he with he | he
      · have hold := ih.events e he
        omega
      · exact Nat.lt_succ_of_le (hnew e he).below
    · rw [hevents]
      refine List.pairwise_append.mpr ⟨ih.sorted, ho.sublist (firsts_sublist _ _), fun a ha b hb => ?_⟩
      have hold := ih.events a ha
      have habove := (hnew b hb).above
      exact eventLe_iff.mpr (Or.inl (by omega))
    · rw [hevents, List.flatMap_append, List.flatMap_singleton, firsts_append, ← ih.seen, List.nil_append]
    · rw [hevents]
      unfold Projector.projectAll
      rw [List.foldlM_append]
      exact Outcome.bind_eq_ok.mpr ⟨_, ih.replay, ht.projections⟩
    · unfold applyAll
      rw [List.foldlM_append]
      refine Outcome.bind_eq_ok.mpr ⟨_, ih.applied, ?_⟩
      rw [List.foldlM_cons]
      exact Outcome.bind_eq_ok.mpr ⟨_, (applyBatch_iff ht.not_committed).mpr ht, rfl⟩

/-- The projections are those of the chain. -/
theorem Line.ofChain (h : Line X c bs T) : X.ofChain c T.projections = T.projections := by
  have hr := Projector.projectAll_ofChain X.keyed_empty h.chain h.replay
  rw [Projector.ofChain_empty, h.replay] at hr
  exact (Except.ok.inj hr).symm

end

/-! ## The part of a batch up to a block -/

/-- A batch as it would be if its range ended at a block, which has an anchor then. -/
def cutBatch (n : Nat) (batch : CanonicalBatch) : Option CanonicalBatch :=
  if batch.range.toBlock ≤ n then some batch
  else (batch.anchors.find? fun a => a.blockNumber = n).map fun a =>
    { range := { batch.range with toBlock := n, endBlockHash := a.blockHash }
      anchors := batch.anchors.filter fun a => a.blockNumber ≤ n
      events := batch.events.filter fun e => ChainData.keeps (some n) e.blockNumber
      checkpoint := ⟨batch.range.chainId, n, a.blockHash⟩ }

/-- What is left of some batches after a rollback. -/
def survivors (ancestor : Option Nat) (bs : List CanonicalBatch) : List CanonicalBatch :=
  ancestor.elim [] fun n => bs.filterMap (cutBatch n)

/-- The data of a chain up to a block. -/
structure Cut (c n : Nat) (C C' : ChainData) : Prop where
  checkpoint : C'.checkpoint = ((C.blocks n).map CanonicalBlock.blockHash).map fun hash => ⟨c, n, hash⟩
  blocks : ∀ m, C'.blocks m = if m ≤ n then C.blocks m else none
  events : C'.events = C.events.filter fun e => ChainData.keeps (some n) e.blockNumber

section

variable {Q : Type} {X : Projector Q} {c n : Nat} {bs : List CanonicalBatch}
  {S S' T T' : EventStore Q} {C : ChainData} {batch : CanonicalBatch} {anchors : List CanonicalBlock}
  {blocks : Nat → Option CanonicalBlock}

/-- The block that is stored under a number is an anchor with the number, or the block from before. -/
theorem putAll_filter {overwrites : Bool} {blocks' : Nat → Option CanonicalBlock} {m : Nat} (hm : m ≤ n)
    (h : blocks m = blocks' m) :
    putAll overwrites blocks (anchors.filter fun a => a.blockNumber ≤ n) m = putAll overwrites blocks' anchors m := by
  induction anchors generalizing blocks blocks' with
  | nil => exact h
  | cons x rest ih =>
    by_cases hx : x.blockNumber ≤ n
    · rw [List.filter_cons_of_pos (by simpa using hx)]
      exact ih (putBlock_congr h)
    · rw [List.filter_cons_of_neg (by simpa using hx)]
      have hxm : m ≠ x.blockNumber := by omega
      exact ih (h.trans (putBlock_other hxm.symm).symm)

/-- A batch that ends in time is kept as it is. -/
theorem cutBatch_whole (h : batch.range.toBlock ≤ n) : cutBatch n batch = some batch := if_pos h

/-- A batch that starts later is dropped. -/
theorem cutBatch_none (hv : Valid batch) (h : n < batch.range.fromBlock) : cutBatch n batch = none := by
  have hne := hv.nonempty
  unfold cutBatch
  rw [if_neg (by omega), Option.map_eq_none_iff, List.find?_eq_none]
  intro a ha hn
  have hab := (hv.anchors a ha).above
  have hn := of_decide_eq_true hn
  omega

/-- A batch in the middle of which the block is ends there. -/
theorem cutBatch_middle (h : n < batch.range.toBlock) (ha : ∃ a ∈ batch.anchors, a.blockNumber = n) :
    ∃ a ∈ batch.anchors, a.blockNumber = n ∧ cutBatch n batch =
      some { range := { batch.range with toBlock := n, endBlockHash := a.blockHash }
             anchors := batch.anchors.filter fun a => a.blockNumber ≤ n
             events := batch.events.filter fun e => ChainData.keeps (some n) e.blockNumber
             checkpoint := ⟨batch.range.chainId, n, a.blockHash⟩ } := by
  obtain ⟨x, hx, hxn⟩ := ha
  obtain ⟨a, hfind⟩ := Option.isSome_iff_exists.mp
    (List.find?_isSome.mpr ⟨x, hx, decide_eq_true hxn⟩ :
      (batch.anchors.find? fun a => a.blockNumber = n).isSome = true)
  have han := List.find?_some hfind
  refine ⟨a, List.mem_of_find?_eq_some hfind, by simpa using han, ?_⟩
  unfold cutBatch
  rw [if_neg (Nat.not_le.mpr h), hfind, Option.map_some]

/-- The events of a batch up to a block can be projected if all can. -/
theorem projectAll_filter {P P' : Q} {events : List IndexedEvent}
    (hs : events.Pairwise fun a b => eventLe a b = true) (n : Nat)
    (h : X.projectAll events P = .ok P') :
    ∃ P₀, X.projectAll
      (events.filter fun e => ChainData.keeps (some n) e.blockNumber) P = .ok P₀ := by
  obtain ⟨early, later, rfl, hearly, hlater⟩ := sorted_split hs n
  rw [filter_split hearly hlater]
  unfold Projector.projectAll at h
  rw [List.foldlM_append] at h
  obtain ⟨P₀, h₀, -⟩ := Outcome.bind_eq_ok.mp h
  exact ⟨P₀, h₀⟩

/-- A batch that ends at the block of one of its anchors is taken where the whole batch is. -/
theorem Taken.cut (h : Taken X T batch T') (ho : Ordered batch) (hn : n < batch.range.toBlock)
    (ha : ∃ a ∈ batch.anchors, a.blockNumber = n) :
    ∃ cut T₀, cutBatch n batch = some cut ∧ cut.range.chainId = batch.range.chainId ∧ Ordered cut ∧
      Taken X T cut T₀ ∧ cut.range.toBlock = n ∧ cut.anchors = batch.anchors.filter (·.blockNumber ≤ n) ∧
      cut.events = batch.events.filter (fun e => ChainData.keeps (some n) e.blockNumber) ∧
      ∃ a ∈ batch.anchors, a.blockNumber = n ∧ a.blockHash = cut.checkpoint.blockHash := by
  obtain ⟨a, ha, han, hcut⟩ := cutBatch_middle hn ha
  obtain ⟨P₀, hP⟩ := projectAll_filter (ho.sublist (firsts_sublist (T.chains batch.range.chainId).events _)) n
    h.projections
  rw [← firsts_filter ho] at hP
  refine ⟨_, ⟨_, P₀⟩, hcut, rfl, ho.sublist List.filter_sublist,
    ⟨?_, ⟨h.continues.first, h.continues.next⟩, ?_, ?_, rfl, hP⟩,
    rfl, rfl, rfl, a, ha, han, rfl⟩
  · refine ⟨?_, rfl, h.valid.next, fun x hx => ?_, h.valid.consistent.filter _, ⟨a, ?_, han, rfl⟩, fun e he => ?_⟩
    · rw [← han]
      exact (h.valid.anchors a ha).above
    · obtain ⟨hx, hxn⟩ := List.mem_filter.mp hx
      have hf := h.valid.anchors x hx
      exact ⟨hf.chain, hf.above, of_decide_eq_true hxn, hf.status⟩
    · exact List.mem_filter.mpr ⟨ha, decide_eq_true han.le⟩
    · obtain ⟨he, hen⟩ := List.mem_filter.mp he
      have hen := (keeps_some n _).mp hen
      have hf := h.valid.events e he
      obtain ⟨x, hx, hxe, hxh⟩ := hf.anchored
      exact ⟨hf.chain, hf.above, hen, hf.status, x, List.mem_filter.mpr ⟨hx, decide_eq_true (hxe ▸ hen)⟩, hxe, hxh⟩
  · exact fun item hi hlap => h.apart item hi ⟨hlap.1.trans hn.le, hlap.2⟩
  · exact fun x hx => h.blocks x (List.mem_filter.mp hx).1

/-- The blocks up to a block are those from before a batch that starts later. -/
theorem taken_blocks_before {overwrites : Bool} (hv : Valid batch) (h : n < batch.range.fromBlock) :
    (taken overwrites batch C).blocks n = C.blocks n := by
  refine putAll_other fun a ha han => ?_
  have hab := (hv.anchors a ha).above
  omega

theorem Line.blocks_none (hl : Line X c bs T) (h : (T.chains c).next ≤ n) : (T.chains c).blocks n = none := by
  cases hb : (T.chains c).blocks n with
  | none => rfl
  | some x =>
    have hn := hl.blocks n x hb
    omega

theorem Line.events_kept (hl : Line X c bs T) (h : (T.chains c).next ≤ n) :
    (T.chains c).events.filter (fun e => ChainData.keeps (some n) e.blockNumber) = (T.chains c).events := by
  refine List.filter_eq_self.mpr fun e he => (keeps_some n _).mpr ?_
  have hen := hl.events e he
  omega

theorem Line.batches_kept (hl : Line X c bs T) (h : (T.chains c).next ≤ n) :
    bs.filterMap (cutBatch n) = bs := by
  have hwhole : ∀ x ∈ bs, cutBatch n x = some x := by
    intro x hx
    have hxn := hl.batches x hx
    exact cutBatch_whole (by omega)
  clear hl h
  induction bs with
  | nil => rfl
  | cons x rest ih =>
    rw [List.filterMap_cons_some (hwhole x List.mem_cons_self), ih fun y hy => hwhole y (List.mem_cons_of_mem _ hy)]

/-- The cut at a block from before a batch. -/
theorem Taken.cut_before (ht : Taken X T batch T') (hlo : n < batch.range.fromBlock)
    (h : Cut c n (T.chains batch.range.chainId) C) : Cut c n (T'.chains batch.range.chainId) C := by
  rw [ht.chain_self]
  refine ⟨?_, fun m => ?_, ?_⟩
  · rw [taken_blocks_before ht.valid hlo]
    exact h.checkpoint
  · rw [h.blocks]
    split
    · rename_i hm
      exact (taken_blocks_before ht.valid (by omega)).symm
    · rfl
  · have hlate : (firsts (T.chains batch.range.chainId).events batch.events).filter
        (fun e => ChainData.keeps (some n) e.blockNumber) = [] := by
      refine List.filter_eq_nil_iff.mpr fun e he hk => ?_
      have hab := (ht.valid.events e (firsts_subset he)).above
      have hen := (keeps_some n _).mp hk
      omega
    rw [h.events]
    simp only [taken, List.filter_append, hlate, List.append_nil]

/-- The cut at the last block of a batch. -/
theorem Taken.cut_last (hl : Line X batch.range.chainId bs T) (ht : Taken X T batch T') :
    Cut batch.range.chainId batch.range.toBlock (T'.chains batch.range.chainId) (T'.chains batch.range.chainId) := by
  have hle := Continues.next_le ht.continues
  have hne := ht.valid.nonempty
  rw [ht.chain_self]
  refine ⟨?_, fun m => ?_, ?_⟩
  · obtain ⟨a, ha, han, hah⟩ := ht.valid.endpoint
    have hhash : (putAll X.overwrites (T.chains batch.range.chainId).blocks batch.anchors batch.range.toBlock).map
        CanonicalBlock.blockHash = some batch.range.endBlockHash := by
      rw [← han, ← hah]
      exact putAll_hash ht.valid.consistent ht.blocks ha
    simp only [taken, hhash, ht.valid.checkpoint, Option.map_some]
  · split
    · rfl
    · refine (putAll_other fun x hx hxm => ?_).trans (hl.blocks_none (by omega))
      have hxn := (ht.valid.anchors x hx).below
      omega
  · refine (List.filter_eq_self.mpr fun e he => (keeps_some _ _).mpr ?_).symm
    rcases List.mem_append.mp he with he | he
    · have hen := hl.events e he
      omega
    · exact (ht.valid.events e (firsts_subset he)).below

/-- The cut in the middle of a batch. -/
theorem Taken.cut_within {T₀ : EventStore Q} {cut : CanonicalBatch} (hl : Line X batch.range.chainId bs T)
    (ht : Taken X T batch T') (ho : Ordered batch) (hlo : batch.range.fromBlock ≤ n)
    (hc : cut.range.chainId = batch.range.chainId) (hct : Taken X T cut T₀) (hto : cut.range.toBlock = n)
    (hca : cut.anchors = batch.anchors.filter (·.blockNumber ≤ n))
    (hce : cut.events = batch.events.filter fun e => ChainData.keeps (some n) e.blockNumber)
    (ha : ∃ a ∈ batch.anchors, a.blockNumber = n ∧ a.blockHash = cut.checkpoint.blockHash) :
    Cut batch.range.chainId n (T'.chains batch.range.chainId) (T₀.chains batch.range.chainId) := by
  have hle := Continues.next_le ht.continues
  have hself := hct.chain_self
  rw [hc] at hself
  rw [hself, ht.chain_self]
  refine ⟨?_, fun m => ?_, ?_⟩
  · obtain ⟨a, ha, han, hah⟩ := ha
    have hhash : (putAll X.overwrites (T.chains batch.range.chainId).blocks batch.anchors n).map
      CanonicalBlock.blockHash =
        some cut.range.endBlockHash := by
      rw [← han, putAll_hash ht.valid.consistent ht.blocks ha, hah, hct.valid.checkpoint]
    simp only [taken, hhash, hct.valid.checkpoint, Option.map_some, hc, hto]
  · simp only [taken, hca]
    split
    · rename_i hm
      exact putAll_filter hm rfl
    · refine (putAll_other fun x hx hxm => ?_).trans (hl.blocks_none (by omega))
      have hxn := (List.mem_filter.mp hx).2
      simp only [decide_eq_true_eq] at hxn
      omega
  · simp only [taken, hce, List.filter_append, hl.events_kept (hle.trans hlo), firsts_filter ho]

/-- **Batches that end at a stored block**: a new store takes the batches up to the block, and has what the other
store has up to there. -/
theorem Straight.cut (h : Straight X c bs T) {b : CanonicalBlock} (hb : (T.chains c).blocks n = some b) :
    ∃ T', Straight X c (bs.filterMap (cutBatch n)) T' ∧ Cut c n (T.chains c) (T'.chains c) := by
  induction h with
  | nil => cases hb
  | @snoc bs T T' batch hs hchain ho ht ih =>
    subst hchain
    have hl := hs.line
    have hle := Continues.next_le ht.continues
    rw [List.filterMap_append]
    by_cases hlo : n < batch.range.fromBlock
    · rw [ht.chain_self, taken_blocks_before ht.valid hlo] at hb
      obtain ⟨T₀, h₀, hcut⟩ := ih hb
      refine ⟨T₀, ?_, ht.cut_before hlo hcut⟩
      rw [List.filterMap_cons_none (cutBatch_none ht.valid hlo), List.filterMap_nil, List.append_nil]
      exact h₀
    · have hanchor : ∃ a ∈ batch.anchors, a.blockNumber = n := by
        by_contra hno
        rw [ht.chain_self] at hb
        have hold := hl.blocks n b ((putAll_other fun a ha han => hno ⟨a, ha, han⟩).symm.trans hb)
        omega
      rw [hl.batches_kept (by omega)]
      by_cases hhi : n < batch.range.toBlock
      · obtain ⟨cut, T₀, hcut, hc, hco, hct, hto, hca, hce, ha⟩ := ht.cut ho hhi hanchor
        refine ⟨T₀, ?_, Taken.cut_within hl ht ho (by omega) hc hct hto hca hce ha⟩
        rw [List.filterMap_cons_some hcut, List.filterMap_nil]
        exact hs.snoc hc hco hct
      · obtain ⟨a, ha, han⟩ := hanchor
        have hbelow := (ht.valid.anchors a ha).below
        have hto : batch.range.toBlock = n := by omega
        subst hto
        refine ⟨T', ?_, Taken.cut_last hl ht⟩
        rw [List.filterMap_cons_some (cutBatch_whole (Nat.le_refl _)), List.filterMap_nil]
        exact hs.snoc rfl ho ht

end

end EventStore

end Cpredict.Indexer
