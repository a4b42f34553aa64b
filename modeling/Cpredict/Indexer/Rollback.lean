import Cpredict.Indexer.PostgresStore
import Cpredict.Indexer.Replay

/-!
# Rollback

A history of a store: batches that it accepts, and rollbacks. The projections of a chain are those of its stored
events, each applied once; a rollback projects the events that are left in the order of the chain. Where the batches
list their events in that order, the projections are at any time those of a new store that has taken the surviving
batches only (`History.follows`).
-/

namespace Cpredict.Indexer

open Outcome

namespace EventStore

section

variable {Q : Type} (X : Projector Q)

/-- Batches of a kind and rollbacks, with the batches of every chain that have survived. -/
inductive History (kind : CanonicalBatch → Prop) : (Nat → List CanonicalBatch) → EventStore Q → Prop
  | fresh : History kind (fun _ => []) (fresh X)
  | apply {bs : Nat → List CanonicalBatch} {S S' : EventStore Q} {batch : CanonicalBatch} : History kind bs S →
      kind batch → S.applyBatch X batch = .ok S' →
      History kind (if S.Committed batch then bs
        else Function.update bs batch.range.chainId (bs batch.range.chainId ++ [batch])) S'
  | rollback {bs : Nat → List CanonicalBatch} {S S' : EventStore Q} {c : Nat} {ancestor : Option Nat} :
      History kind bs S →
      S.rollbackAfter X c ancestor = .ok S' → History kind (Function.update bs c (survivors ancestor (bs c))) S'

/-- The projections of every chain are those of its events, each applied once. -/
structure Once (S : EventStore Q) : Prop where
  keyed : X.Keyed S.projections
  chain : ∀ c, ∀ e ∈ (S.chains c).events, e.chainId = c
  apart : ∀ c, (S.chains c).events.Pairwise fun a b => ChainData.sameKey a b = false
  applied : ∀ c, ∃ l, l.Perm (S.chains c).events ∧ X.projectAll l X.empty = .ok (X.ofChain c S.projections)

end

section

variable {Q : Type} {X : Projector Q} {kind : CanonicalBatch → Prop} {c : Nat} {bs : Nat → List CanonicalBatch}
  {S S' : EventStore Q} {batch : CanonicalBatch} {ancestor : Option Nat}

/-! ## What one step does to the projections -/

/-- The events that are left are projected from the beginning. -/
theorem Once.replay (h : Once X S) (hr : RolledBack X c S ancestor S') :
    X.projectAll (retained (S.chains c) ancestor) X.empty = .ok (X.ofChain c S'.projections) ∧
      ∀ d, d ≠ c → X.ofChain d S'.projections = X.ofChain d S.projections := by
  have he : ∀ e ∈ retained (S.chains c) ancestor, e.chainId = c := fun e hm => h.chain c e (mem_retained hm)
  have hself := Projector.projectAll_ofChain (Projector.keyed_clear h.keyed) he hr.projections
  rw [Projector.ofChain_clear_self] at hself
  exact ⟨hself, fun d hd =>
    (Projector.projectAll_ofChain_other hd he hr.projections).trans (Projector.ofChain_clear hd _)⟩

theorem Once.apply (h : Once X S) (ht : Taken X S batch S') : Once X S' := by
  have hself := ht.chain_self
  have he : ∀ e ∈ firsts (S.chains batch.range.chainId).events batch.events, e.chainId = batch.range.chainId :=
    fun e hm => (ht.valid.events e (firsts_subset hm)).chain
  refine ⟨Projector.projectAll_keyed h.keyed ht.projections, fun c e hm => ?_, fun c => ?_, fun c => ?_⟩
  · by_cases hc : c = batch.range.chainId
    · subst hc
      rw [hself] at hm
      rcases List.mem_append.mp hm with hm | hm
      · exact h.chain _ e hm
      · exact he e hm
    · rw [ht.chain_other hc] at hm
      exact h.chain c e hm
  · by_cases hc : c = batch.range.chainId
    · subst hc
      rw [hself]
      exact firsts_apart _ _ (h.apart _)
    · rw [ht.chain_other hc]
      exact h.apart c
  · by_cases hc : c = batch.range.chainId
    · subst hc
      obtain ⟨l, hl, hP⟩ := h.applied batch.range.chainId
      refine ⟨l ++ firsts (S.chains batch.range.chainId).events batch.events, ?_, ?_⟩
      · rw [hself]
        exact hl.append_right _
      · unfold Projector.projectAll
        rw [List.foldlM_append]
        exact bind_eq_ok.mpr ⟨_, hP, Projector.projectAll_ofChain h.keyed he ht.projections⟩
    · rw [ht.chain_other hc, Projector.projectAll_ofChain_other hc he ht.projections]
      exact h.applied c

theorem Once.rollback (h : Once X S) (hr : RolledBack X c S ancestor S') : Once X S' := by
  obtain ⟨hreplay, hother⟩ := h.replay hr
  refine ⟨Projector.projectAll_keyed (Projector.keyed_clear h.keyed) hr.projections, fun d e hm => ?_, fun d => ?_,
    fun d => ?_⟩
  · by_cases hd : d = c
    · subst hd
      rw [hr.events] at hm
      exact h.chain d e (List.mem_filter.mp hm).1
    · rw [hr.chain_other hd] at hm
      exact h.chain d e hm
  · by_cases hd : d = c
    · subst hd
      rw [hr.events]
      exact (h.apart d).filter _
    · rw [hr.chain_other hd]
      exact h.apart d
  · by_cases hd : d = c
    · subst hd
      rw [hr.events]
      exact ⟨_, List.perm_insertionSort _ _, hreplay⟩
    · rw [hr.chain_other hd, hother d hd]
      exact h.applied d

theorem History.once (h : History X kind bs S) : Once X S := by
  induction h with
  | fresh =>
    exact ⟨X.keyed_empty, fun c e he => absurd he List.not_mem_nil, fun c => List.Pairwise.nil,
      fun c => ⟨[], List.Perm.refl _, congrArg Except.ok (Projector.ofChain_empty X c).symm⟩⟩
  | @apply bs S S' batch _ _ ha ih =>
    by_cases hc : S.Committed batch
    · rw [applyBatch_committed hc ha]
      exact ih
    · exact ih.apply ((applyBatch_iff hc).mp ha)
  | rollback _ hr ih => exact ih.rollback (rollbackAfter_iff.mp hr)

/-! ## The straight line -/

/-- A store has for a chain what another one has that has taken batches of this chain only. -/
structure Follows (X : Projector Q) (c : Nat) (S T : EventStore Q) : Prop where
  checkpoint : (S.chains c).checkpoint = (T.chains c).checkpoint
  ranges : ∀ r ∈ (S.chains c).ranges, r.toBlock < (T.chains c).next
  blocks : (S.chains c).blocks = (T.chains c).blocks
  events : (S.chains c).events = (T.chains c).events
  projections : X.ofChain c S.projections = T.projections

theorem Follows.next_eq {T : EventStore Q} (h : Follows X c S T) : (S.chains c).next = (T.chains c).next := by
  unfold ChainData.next
  rw [h.checkpoint]

/-- A batch that the store takes is taken in the straight line. -/
theorem Follows.apply {T : EventStore Q} {l : List CanonicalBatch} (h : Follows X batch.range.chainId S T)
    (hl : Line X batch.range.chainId l T) (hk : X.Keyed S.projections)
    (ht : Taken X S batch S') : ∃ T', Taken X T batch T' ∧ Follows X batch.range.chainId S' T' := by
  have he : ∀ e ∈ firsts (S.chains batch.range.chainId).events batch.events, e.chainId = batch.range.chainId :=
    fun e hm => (ht.valid.events e (firsts_subset hm)).chain
  have hP := Projector.projectAll_ofChain hk he ht.projections
  rw [h.projections, h.events] at hP
  have hle := Continues.next_le ht.continues
  have hne := ht.valid.nonempty
  rw [h.next_eq] at hle
  have hapart : ∀ item ∈ (T.chains batch.range.chainId).ranges,
      ¬(item.fromBlock ≤ batch.range.toBlock ∧ batch.range.fromBlock ≤ item.toBlock) := by
    rintro item hi ⟨-, hlap⟩
    have hold := hl.ranges item hi
    omega
  have htaken : Taken X T batch
      ⟨Function.update T.chains batch.range.chainId (taken X.overwrites batch (T.chains batch.range.chainId)),
        X.ofChain batch.range.chainId S'.projections⟩ :=
    ⟨ht.valid, h.checkpoint ▸ ht.continues, hapart, h.blocks ▸ ht.blocks, rfl, hP⟩
  refine ⟨_, htaken, ?_, fun r hr => ?_, ?_, ?_, rfl⟩
  · rw [ht.chain_self, htaken.chain_self]
    rfl
  · rw [htaken.chain_self, next_taken ht.valid]
    rw [ht.chain_self] at hr
    rcases List.mem_append.mp hr with hr | hr
    · have hold := h.ranges r hr
      omega
    · rw [List.mem_singleton.mp hr]
      omega
  · rw [ht.chain_self, htaken.chain_self]
    exact congrArg (putAll X.overwrites · batch.anchors) h.blocks
  · rw [ht.chain_self, htaken.chain_self]
    simp only [taken, h.events]

theorem Follows.apply_other {T : EventStore Q} (h : Follows X c S T) (ht : Taken X S batch S')
    (hc : c ≠ batch.range.chainId) : Follows X c S' T := by
  have he : ∀ e ∈ firsts (S.chains batch.range.chainId).events batch.events, e.chainId = batch.range.chainId :=
    fun e hm => (ht.valid.events e (firsts_subset hm)).chain
  have hself := ht.chain_other hc
  exact ⟨hself ▸ h.checkpoint, hself ▸ h.ranges, hself ▸ h.blocks, hself ▸ h.events,
    (Projector.projectAll_ofChain_other hc he ht.projections).trans h.projections⟩

theorem retained_none (C : ChainData) : retained C none = [] := by
  have hfilter : (C.removeAfter none).events = [] :=
    List.filter_eq_nil_iff.mpr fun e _ hk => absurd hk Bool.false_ne_true
  rw [retained, hfilter, List.insertionSort_nil]

/-- A rollback that leaves nothing. -/
theorem Follows.rollback_none (h : Once X S) (hr : RolledBack X c S none S') : Follows X c S' (fresh X) := by
  obtain ⟨hreplay, -⟩ := h.replay hr
  have hself := hr.chain_empty
  rw [retained_none] at hreplay
  refine ⟨?_, ?_, ?_, ?_, (Except.ok.inj hreplay).symm⟩
  · rw [hself]
    rfl
  · rw [hself]
    exact fun r hr => absurd hr List.not_mem_nil
  · rw [hself]
    rfl
  · rw [hself]
    rfl

section

variable {n : Nat} {l l₀ : List CanonicalBatch} {T T₀ : EventStore Q}

/-- Events in the order of the chain are replayed in the order in which they are. -/
theorem Follows.retained_eq (h : Follows X c S T) (hl : Line X c l T) (hcut : Cut c n (T.chains c) (T₀.chains c)) :
    retained (S.chains c) (some n) = (T₀.chains c).events := by
  rw [retained, ChainData.removeAfter, hcut.events, h.events]
  exact List.Pairwise.insertionSort_eq (hl.sorted.filter _)

/-- A rollback to a stored block. -/
theorem Follows.rollback_some (h : Follows X c S T) (ho : Once X S) (hl : Line X c l T) (hl₀ : Line X c l₀ T₀)
    (hcut : Cut c n (T.chains c) (T₀.chains c)) (hr : RolledBack X c S (some n) S') : Follows X c S' T₀ := by
  obtain ⟨hreplay, -⟩ := ho.replay hr
  obtain ⟨b, hb, hcp⟩ := hr.block
  have hcheck := hcut.checkpoint
  rw [← h.blocks, hb] at hcheck
  have hnext : (T₀.chains c).next = n + 1 := by
    unfold ChainData.next
    rw [hcheck]
    rfl
  refine ⟨hcp.trans hcheck.symm, fun r hm => ?_, ?_, ?_, ?_⟩
  · rw [hr.ranges] at hm
    have hrn := (keeps_some n _).mp (List.mem_filter.mp hm).2
    omega
  · rw [hr.blocks, h.blocks]
    funext m
    rw [hcut.blocks m]
    by_cases hm : m ≤ n
    · rw [if_pos hm, if_pos ((keeps_some n m).mpr hm)]
    · rw [if_neg hm, if_neg fun hk => hm ((keeps_some n m).mp hk)]
  · rw [hr.events, h.events, hcut.events]
  · rw [h.retained_eq hl hcut, hl₀.replay] at hreplay
    exact (Except.ok.inj hreplay).symm

/-- A rollback to a stored block succeeds. -/
theorem Follows.can_rollback (h : Follows X c S T) (ho : Once X S) (hl : Line X c l T) (hl₀ : Line X c l₀ T₀)
    (hcut : Cut c n (T.chains c) (T₀.chains c)) {b : CanonicalBlock} (hb : (S.chains c).blocks n = some b) :
    ∃ S', S.rollbackAfter X c (some n) = .ok S' := by
  have hr : X.projectAll (retained (S.chains c) (some n)) (X.ofChain c (X.clearProjections c S.projections)) =
      (X.projectAll (retained (S.chains c) (some n)) (X.clearProjections c S.projections)).map (X.ofChain c) :=
    Projector.projectAll_restrict (Projector.keyed_clear ho.keyed) fun e he =>
      decide_eq_true (ho.chain c e (mem_retained he))
  rw [Projector.ofChain_clear_self, h.retained_eq hl hcut, hl₀.replay, ← h.retained_eq hl hcut] at hr
  have hC : ((S.chains c).removeAfter (some n)).ancestorCheckpoint c (some n) = .ok (some ⟨c, n, b.blockHash⟩) := by
    simp only [ChainData.ancestorCheckpoint, ChainData.removeAfter, (keeps_some n n).mpr (Nat.le_refl n), if_true, hb]
  cases hP : X.projectAll (retained (S.chains c) (some n)) (X.clearProjections c S.projections) with
  | error e =>
    rw [hP] at hr
    cases hr
  | ok P =>
    refine ⟨_, bind_eq_ok.mpr ⟨P, ofProjection_eq_ok.mpr hP, bind_eq_ok.mpr ⟨_, hC, rfl⟩⟩⟩

end

/-- **Only the surviving batches count**: a store that has taken nothing but them has the same. -/
theorem History.follows (h : History X kind bs S) {c : Nat}
    (hk : ∀ batch, kind batch → batch.range.chainId = c → Ordered batch) :
    ∃ T, Straight X c (bs c) T ∧ Follows X c S T := by
  induction h with
  | fresh =>
    exact ⟨EventStore.fresh X, .nil, rfl, fun r hr => absurd hr List.not_mem_nil, rfl, rfl, Projector.ofChain_empty X c⟩
  | @apply bs S S' batch hS hkind ha ih =>
    obtain ⟨T, hT, hf⟩ := ih
    by_cases hcom : S.Committed batch
    · rw [applyBatch_committed hcom ha, if_pos hcom]
      exact ⟨T, hT, hf⟩
    · have ht := (applyBatch_iff hcom).mp ha
      rw [if_neg hcom]
      by_cases hc : c = batch.range.chainId
      · subst hc
        obtain ⟨T', hT', hf'⟩ := hf.apply hT.line hS.once.keyed ht
        rw [Function.update_self]
        exact ⟨T', hT.snoc rfl (hk _ hkind rfl) hT', hf'⟩
      · rw [Function.update_of_ne hc]
        exact ⟨T, hT, hf.apply_other ht hc⟩
  | @rollback bs S S' d ancestor hS hr ih =>
    obtain ⟨T, hT, hf⟩ := ih
    have hr := rollbackAfter_iff.mp hr
    by_cases hc : c = d
    · subst hc
      rw [Function.update_self]
      cases ancestor with
      | none => exact ⟨EventStore.fresh X, .nil, Follows.rollback_none hS.once hr⟩
      | some n =>
        obtain ⟨b, hb, -⟩ := hr.block
        obtain ⟨T₀, hT₀, hcut⟩ := hT.cut (hf.blocks ▸ hb)
        exact ⟨T₀, hT₀, hf.rollback_some hS.once hT.line hT₀.line hcut hr⟩
    · rw [Function.update_of_ne hc]
      have hself := hr.chain_other hc
      obtain ⟨-, hother⟩ := hS.once.replay hr
      exact ⟨T, hT, hself ▸ hf.checkpoint, hself ▸ hf.ranges, hself ▸ hf.blocks, hself ▸ hf.events,
        (hother c hc).trans hf.projections⟩

/-- A rollback that leaves nothing of a chain succeeds. -/
theorem can_clear (X : Projector Q) (S : EventStore Q) (c : Nat) : ∃ S', S.rollbackAfter X c none = .ok S' := by
  refine ⟨_, bind_eq_ok.mpr ⟨X.clearProjections c S.projections, ofProjection_eq_ok.mpr ?_,
    bind_eq_ok.mpr ⟨_, rfl, rfl⟩⟩⟩
  rw [retained_none]
  rfl

/-- Any stored block can be rolled back to. -/
theorem History.can_rollback (h : History X kind bs S) {c n : Nat} {b : CanonicalBlock}
    (hk : ∀ batch, kind batch → batch.range.chainId = c → Ordered batch) (hb : (S.chains c).blocks n = some b) :
    ∃ S', S.rollbackAfter X c (some n) = .ok S' := by
  obtain ⟨T, hT, hf⟩ := h.follows hk
  obtain ⟨T₀, hT₀, hcut⟩ := hT.cut (hf.blocks ▸ hb)
  exact hf.can_rollback h.once hT.line hT₀.line hcut hb

/-- **A rollback is as if the blocks that it removes had never been seen**, in either store. In every history the
projections of a chain are those of its stored events, each applied once, and a rollback makes them those of the
events that are left, in the order of the chain. If the batches of a chain list their events in this order, then any
stored block can be rolled back to, and the projections are at all times those of a new store that has taken the
surviving batches and nothing else. -/
theorem rollback_never_seen (h : History X kind bs S) :
    (∀ c ancestor S', S.rollbackAfter X c ancestor = .ok S' →
      X.projectAll (retained (S.chains c) ancestor) X.empty = .ok (X.ofChain c S'.projections) ∧
        ∀ d, d ≠ c → X.ofChain d S'.projections = X.ofChain d S.projections) ∧
    (∀ c, ((S.chains c).events.Pairwise fun a b => ChainData.sameKey a b = false) ∧
      ∃ l, l.Perm (S.chains c).events ∧ X.projectAll l X.empty = .ok (X.ofChain c S.projections)) ∧
    ∀ c, (∀ batch, kind batch → batch.range.chainId = c → Ordered batch) →
      (∃ T, applyAll X (bs c) (fresh X) = .ok T ∧ T.projections = X.ofChain c S.projections ∧
        (T.chains c).events = (S.chains c).events) ∧
      ∀ n b, (S.chains c).blocks n = some b → ∃ S', S.rollbackAfter X c (some n) = .ok S' := by
  refine ⟨fun c ancestor S' hr => h.once.replay (rollbackAfter_iff.mp hr), fun c => ⟨h.once.apart c, h.once.applied c⟩,
    fun c hk => ⟨?_, fun n b hb => h.can_rollback hk hb⟩⟩
  obtain ⟨T, hT, hf⟩ := h.follows hk
  exact ⟨T, hT.line.applied, hf.projections.symm, hf.events.symm⟩

end

/-! ## A market that is voided -/

namespace Sample

open Memory

/-- The creation of a market, a position in it, and the end of the market, by the index of the log. -/
def decodeEventLog (event : IndexedEvent) : Except ProjectionErr DecodedLog :=
  if event.logIndex = 0 then .ok (.MarketCreated (addr 5) (addr 7) 0 100)
  else if event.logIndex = 1 then .ok (.TransferSingle 0 (addr 9) 1 1000)
  else .ok (.MarketVoided 1 (addr 7) 0)

def memory : Projector Projections := Memory.projector decodeEventLog

def postgres : Projector Postgres.ProjectionTables := Postgres.projector decodeEventLog

/-- A batch of one block, with its events in a given order. -/
def batch (predecessor : Option ChainCheckpoint) (number : Nat) (hash parent : Bytes32) (logIndices : List Nat) :
    CanonicalBatch where
  range := ⟨1, number, number, predecessor, hash, .confirmed, .dense⟩
  anchors := [⟨1, number, hash, parent, 12, .confirmed⟩]
  events := logIndices.map fun logIndex => ⟨1, number, hash, 900, 0, logIndex, addr 5, [], [], .confirmed⟩
  checkpoint := ⟨1, number, hash⟩

def first : CanonicalBatch := batch none 1 101 100 [0, 1]

/-- The block after the first one, on one of two forks. -/
def second (hash : Bytes32) : CanonicalBatch := batch (some ⟨1, 1, 101⟩) 2 hash 101 [2]

/-- The participants of the last log. -/
def participantsOf (S : MemoryStore) : Option (List Address) :=
  S.projections.activityParticipants.get (1, 900, 2)

/-- Two batches, of which the second one is rolled back and comes again on the other fork. -/
def Forked {Q : Type} (X : Projector Q) (S : EventStore Q) : Prop :=
  ∃ S₁ S₂ S₃, (fresh X).applyBatch X first = .ok S₁ ∧ S₁.applyBatch X (second 102) = .ok S₂ ∧
    S₂.rollbackAfter X 1 (some 1) = .ok S₃ ∧ S₃.applyBatch X (second 202) = .ok S ∧
    ¬(fresh X).Committed first ∧ ¬S₁.Committed (second 102) ∧ ¬S₃.Committed (second 202)

theorem first_ordered : Ordered first := by
  unfold Ordered
  decide

theorem second_ordered (hash : Bytes32) : Ordered (second hash) := List.pairwise_singleton _ _

/-- The batch of the first fork does not survive. -/
theorem Forked.history {Q : Type} {X : Projector Q} {S : EventStore Q} (h : Forked X S) :
    ∃ bs, History X Ordered bs S ∧ bs 1 = [first, second 202] := by
  obtain ⟨S₁, S₂, S₃, h₁, h₂, h₃, h₄, hc₁, hc₂, hc₃⟩ := h
  have hist₁ := History.apply .fresh first_ordered h₁
  rw [if_neg hc₁] at hist₁
  have hist₂ := hist₁.apply (second_ordered 102) h₂
  rw [if_neg hc₂] at hist₂
  have hist₄ := (hist₂.rollback h₃).apply (second_ordered 202) h₄
  rw [if_neg hc₃] at hist₄
  exact ⟨_, hist₄, rfl⟩

end Sample

/-- In both stores, the market is as if only its second end had ever been seen. -/
theorem rollback_never_seen_sample :
    (∃ S, Sample.Forked Sample.memory S ∧
      ∃ T, applyAll Sample.memory [Sample.first, Sample.second 202] (fresh Sample.memory) = .ok T ∧
        T.projections = Sample.memory.ofChain 1 S.projections) ∧
    ∃ S, Sample.Forked Sample.postgres S ∧
      ∃ T, applyAll Sample.postgres [Sample.first, Sample.second 202] (fresh Sample.postgres) = .ok T ∧
        T.projections = Sample.postgres.ofChain 1 S.projections := by
  constructor
  · have hforked : ∃ S, Sample.Forked Sample.memory S :=
      ⟨_, _, _, _, rfl, rfl, rfl, rfl, by decide, by decide, by decide⟩
    obtain ⟨S, hS⟩ := hforked
    obtain ⟨bs, hist, hbs⟩ := hS.history
    obtain ⟨T, hT, hP, -⟩ := ((rollback_never_seen hist).2.2 1 fun _ hb _ => hb).1
    exact ⟨S, hS, T, hbs ▸ hT, hP⟩
  · have hforked : ∃ S, Sample.Forked Sample.postgres S :=
      ⟨_, _, _, _, rfl, rfl, rfl, rfl, by decide, by decide, by decide⟩
    obtain ⟨S, hS⟩ := hforked
    obtain ⟨bs, hist, hbs⟩ := hS.history
    obtain ⟨T, hT, hP, -⟩ := ((rollback_never_seen hist).2.2 1 fun _ hb _ => hb).1
    exact ⟨S, hS, T, hbs ▸ hT, hP⟩

/-- A batch may list the end of a market before a position that was opened in the same block: the participants of
the end do not have the owner of the position then, and a rollback to the last block, which removes nothing, adds
the owner. -/
theorem rollback_reorders :
    ∃ S S', (fresh Sample.memory).applyBatch Sample.memory (Sample.batch none 1 101 100 [0, 2, 1]) = .ok S ∧
      S.rollbackAfter Sample.memory 1 (some 1) = .ok S' ∧
      survivors (some 1) [Sample.batch none 1 101 100 [0, 2, 1]] = [Sample.batch none 1 101 100 [0, 2, 1]] ∧
      Sample.participantsOf S = some [addr 7] ∧ Sample.participantsOf S' = some [addr 7, addr 9] := by
  exact ⟨_, _, rfl, rfl, rfl, rfl, rfl⟩

end EventStore

end Cpredict.Indexer
