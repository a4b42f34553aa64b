import Cpredict.Indexer.Recover
import Cpredict.Indexer.Rollback

/-!
# What the store holds of a chain

`Sound` says what a store with a checkpoint holds of a chain, whatever batches and rollbacks have led to it: the
blocks lie on the chain that ends in the checkpoint, the ranges are disjoint, and below the oldest range (where a
rollback may have cut a dense one) every block is there.
-/

namespace Cpredict.Indexer

open Outcome BlockTree EventStore

variable {T : Blocks Bytes32} {deployment : Nat} {C C' : ChainData} {batch : CanonicalBatch}

/-- A batch lies on the chain that ends in its checkpoint, its predecessor included, and a dense batch holds all its
blocks. -/
structure OnOneChain (T : Blocks Bytes32) (batch : CanonicalBatch) : Prop where
  predecessor : ∀ p ∈ batch.range.predecessor, On T p.blockHash batch.checkpoint.blockHash
  anchors : ∀ a ∈ batch.anchors, T.number a.blockHash = a.blockNumber ∧ On T a.blockHash batch.checkpoint.blockHash
  dense : batch.range.mode = .dense → ∀ n, batch.range.fromBlock ≤ n → n ≤ batch.range.toBlock →
    ∃ a ∈ batch.anchors, a.blockNumber = n

/-- A rollback does not cut a sparse range. -/
def RollbackPoint (C : ChainData) (ancestor : Option Nat) : Prop :=
  ∀ n ∈ ancestor, ∀ r ∈ C.ranges, r.fromBlock ≤ n → n < r.toBlock → r.mode = .dense

/-- The stores that batches and rollbacks lead to. The batches of the chain `c` lie each on one chain of blocks,
list their events in its order, and the first one starts at the deployment. -/
inductive ChainHistory {Q : Type} (X : Projector Q) (T : Blocks Bytes32) (deployment c : Nat) : EventStore Q → Prop
  | fresh : ChainHistory X T deployment c (fresh X)
  | apply {S S' : EventStore Q} {batch : CanonicalBatch} (hs : ChainHistory X T deployment c S)
      (hc : batch.range.chainId = c → OnOneChain T batch ∧ Ordered batch)
      (h₀ : batch.range.chainId = c → (S.chains c).checkpoint = none → batch.range.fromBlock = deployment)
      (h : S.applyBatch X batch = .ok S') : ChainHistory X T deployment c S'
  | rollback {S S' : EventStore Q} {chainId : Nat} {ancestor : Option Nat} (hs : ChainHistory X T deployment c S)
      (hp : chainId = c → RollbackPoint (S.chains c) ancestor) (h : S.rollbackAfter X chainId ancestor = .ok S') :
      ChainHistory X T deployment c S'

/-! ## Stored blocks -/

theorem hasBlock_iff {n : Nat} {hash : Bytes32} :
    C.hasBlock n hash = true ↔ ∃ b, C.blocks n = some b ∧ b.blockHash = hash := by
  unfold ChainData.hasBlock
  cases C.blocks n <;> simp

/-- What a range has to satisfy in a store with the checkpoint `tip`. -/
structure RangeSound (deployment : Nat) (C : ChainData) (tip : Nat) (r : CanonicalScanRange) : Prop where
  start : deployment ≤ r.fromBlock
  nonempty : r.fromBlock ≤ r.toBlock
  below : r.toBlock ≤ tip
  endpoint : C.hasBlock r.toBlock r.endBlockHash = true
  dense : r.mode = .dense → ∀ n, r.fromBlock ≤ n → n ≤ r.toBlock → ∃ b, C.blocks n = some b
  first : r.predecessor = none → r.fromBlock = deployment
  next : ∀ p ∈ r.predecessor, p.blockNumber + 1 = r.fromBlock

/-- A store with a checkpoint. -/
structure Sound (T : Blocks Bytes32) (deployment : Nat) (C : ChainData) (checkpoint : ChainCheckpoint) : Prop where
  tip : C.hasBlock checkpoint.blockNumber checkpoint.blockHash = true
  blocks : ∀ n b, C.blocks n = some b →
    deployment ≤ n ∧ T.number b.blockHash = n ∧ On T b.blockHash checkpoint.blockHash
  events : ∀ e ∈ C.events, C.hasBlock e.blockNumber e.blockHash = true
  ranges : ∀ r ∈ C.ranges, RangeSound deployment C checkpoint.blockNumber r
  ordered : C.ranges.Pairwise fun a b => a.toBlock < b.fromBlock
  base : ∀ n, deployment ≤ n → n ≤ checkpoint.blockNumber → (∀ r ∈ C.ranges, n < r.fromBlock) → ∃ b, C.blocks n = some b

/-- A store: one with a checkpoint, or an empty one. -/
def Kept (T : Blocks Bytes32) (deployment : Nat) (C : ChainData) : Prop :=
  match C.checkpoint with
  | none => C = .empty
  | some checkpoint => Sound T deployment C checkpoint

section

variable {checkpoint : ChainCheckpoint}

theorem Sound.number_tip (h : Sound T deployment C checkpoint) :
    T.number checkpoint.blockHash = checkpoint.blockNumber := by
  obtain ⟨b, hb, hh⟩ := hasBlock_iff.mp h.tip
  rw [← hh]
  exact (h.blocks _ b hb).2.1

theorem Sound.le_tip (h : Sound T deployment C checkpoint) {n : Nat} {b : CanonicalBlock} (hb : C.blocks n = some b) :
    n ≤ checkpoint.blockNumber := by
  obtain ⟨-, hn, ho⟩ := h.blocks n b hb
  have := ho.number_le
  rwa [hn, h.number_tip] at this

/-- Two ranges of a store are one or lie apart. -/
theorem Sound.apart (h : Sound T deployment C checkpoint) {a b : CanonicalScanRange} (ha : a ∈ C.ranges)
    (hb : b ∈ C.ranges) : a = b ∨ a.toBlock < b.fromBlock ∨ b.toBlock < a.fromBlock := by
  by_cases he : a = b
  · exact .inl he
  · have hall : C.ranges.Pairwise fun a b => a.toBlock < b.fromBlock ∨ b.toBlock < a.fromBlock :=
      h.ordered.imp fun h => .inl h
    have : Std.Symm fun a b : CanonicalScanRange => a.toBlock < b.fromBlock ∨ b.toBlock < a.fromBlock :=
      ⟨fun _ _ => Or.symm⟩
    exact .inr (hall.forall ha hb he)

end

/-! ## A batch -/

/-- What a batch that is not a repetition has done. -/
structure Applied (C : ChainData) (batch : CanonicalBatch) (C' : ChainData) : Prop where
  valid : Valid batch
  continues : Continues C.checkpoint batch.range
  checkpoint : C'.checkpoint = some batch.checkpoint
  ranges : C'.ranges = C.ranges ++ [batch.range]
  keeps : ∀ n hash, C.hasBlock n hash = true → C'.hasBlock n hash = true
  stored : ∀ a ∈ batch.anchors, C'.hasBlock a.blockNumber a.blockHash = true
  only : ∀ n b, C'.blocks n = some b → C.blocks n = some b ∨ b ∈ batch.anchors ∧ b.blockNumber = n
  events : ∀ e ∈ C'.events, e ∈ C.events ∨ C'.hasBlock e.blockNumber e.blockHash = true

theorem EventStore.Taken.applied {Q : Type} {X : Projector Q} {S S' : EventStore Q} (h : Taken X S batch S') :
    Applied (S.chains batch.range.chainId) batch (S'.chains batch.range.chainId) := by
  have hstored : ∀ a ∈ batch.anchors,
      (taken X.overwrites batch (S.chains batch.range.chainId)).hasBlock a.blockNumber a.blockHash = true :=
    fun a ha => hasBlock_putAll h.valid.consistent h.blocks ha
  rw [h.chain_self]
  refine ⟨h.valid, h.continues, rfl, rfl, fun n hash hb => ?_, hstored, fun n b hb => putAll_some hb, fun e he => ?_⟩
  · exact decide_eq_true (putAll_keeps h.valid.consistent h.blocks (of_decide_eq_true hb))
  · rcases List.mem_append.mp he with he | he
    · exact .inl he
    · obtain ⟨a, ha, hn, hh⟩ := (h.valid.events e (firsts_subset he)).anchored
      rw [← hn, ← hh]
      exact .inr (hstored a ha)

theorem Applied.number (h : Applied C batch C') : batch.checkpoint.blockNumber = batch.range.toBlock := by
  rw [h.valid.checkpoint]

theorem Applied.hash (h : Applied C batch C') : batch.checkpoint.blockHash = batch.range.endBlockHash := by
  rw [h.valid.checkpoint]

/-- A range stays sound when blocks are added. -/
theorem RangeSound.keep {tip tip' : Nat} {r : CanonicalScanRange} (h : RangeSound deployment C tip r) (hle : tip ≤ tip')
    (hk : ∀ n hash, C.hasBlock n hash = true → C'.hasBlock n hash = true) : RangeSound deployment C' tip' r where
  start := h.start
  nonempty := h.nonempty
  below := h.below.trans hle
  endpoint := hk _ _ h.endpoint
  dense hd n hn hn' := by
    obtain ⟨b, hb⟩ := h.dense hd n hn hn'
    obtain ⟨b', hb', -⟩ := hasBlock_iff.mp (hk n b.blockHash (hasBlock_iff.mpr ⟨b, hb, rfl⟩))
    exact ⟨b', hb'⟩
  first := h.first
  next := h.next

/-- The range of a batch. -/
theorem Applied.range_sound (h : Applied C batch C') (hc : OnOneChain T batch) (hd : deployment ≤ batch.range.fromBlock)
    (h₀ : batch.range.predecessor = none → batch.range.fromBlock = deployment) :
    RangeSound deployment C' batch.checkpoint.blockNumber batch.range where
  start := hd
  nonempty := h.valid.nonempty
  below := h.number.ge
  endpoint := by
    obtain ⟨a, ha, hn, hh⟩ := h.valid.endpoint
    rw [← hn, ← hh]
    exact h.stored a ha
  dense hm n hn hn' := by
    obtain ⟨a, ha, rfl⟩ := hc.dense hm n hn hn'
    obtain ⟨b, hb, -⟩ := hasBlock_iff.mp (h.stored a ha)
    exact ⟨b, hb⟩
  first := h₀
  next p hp := (h.valid.next p hp).2

theorem Applied.tip (h : Applied C batch C') :
    C'.hasBlock batch.checkpoint.blockNumber batch.checkpoint.blockHash = true := by
  obtain ⟨a, ha, hn, hh⟩ := h.valid.endpoint
  rw [h.number, h.hash, ← hn, ← hh]
  exact h.stored a ha

/-- The first batch. -/
theorem Applied.sound_first (h : Applied C batch C') (hc : OnOneChain T batch) (hs : C = .empty)
    (h₀ : batch.range.fromBlock = deployment) : Sound T deployment C' batch.checkpoint := by
  subst hs
  refine ⟨h.tip, ?_, ?_, ?_, ?_, ?_⟩
  · intro n b hb
    rcases h.only n b hb with hb | ⟨ha, rfl⟩
    · cases hb
    · obtain ⟨hn, ho⟩ := hc.anchors b ha
      exact ⟨h₀ ▸ (h.valid.anchors b ha).above, hn, ho⟩
  · intro e he
    rcases h.events e he with he | he
    · cases he
    · exact he
  · intro r hr
    rw [h.ranges] at hr
    obtain rfl := List.mem_singleton.mp hr
    exact h.range_sound hc h₀.ge fun _ => h₀
  · rw [h.ranges]
    exact List.pairwise_singleton _ _
  · intro n hn _ hb
    have := hb batch.range (by rw [h.ranges]; exact List.mem_append_right _ (List.mem_singleton.mpr rfl))
    omega

/-- A batch that continues the checkpoint. -/
theorem Applied.sound_next {checkpoint : ChainCheckpoint} (h : Applied C batch C') (hc : OnOneChain T batch)
    (hs : Sound T deployment C checkpoint) (hp : C.checkpoint = some checkpoint) :
    Sound T deployment C' batch.checkpoint := by
  obtain ⟨hfrom, p, hpm, hpn, hph⟩ := h.continues.next checkpoint hp
  have htip : On T checkpoint.blockHash batch.checkpoint.blockHash := hph ▸ hc.predecessor p hpm
  have hlast : checkpoint.blockNumber < batch.range.fromBlock := by omega
  have hle : checkpoint.blockNumber ≤ batch.checkpoint.blockNumber := by
    rw [h.number]
    exact (hlast.trans_le h.valid.nonempty).le
  have hdep : deployment ≤ checkpoint.blockNumber := by
    obtain ⟨b, hb, -⟩ := hasBlock_iff.mp hs.tip
    exact (hs.blocks _ b hb).1
  refine ⟨h.tip, ?_, ?_, ?_, ?_, ?_⟩
  · intro n b hb
    rcases h.only n b hb with hb | ⟨ha, rfl⟩
    · obtain ⟨hd, hn, ho⟩ := hs.blocks n b hb
      exact ⟨hd, hn, ho.trans htip⟩
    · obtain ⟨hn, ho⟩ := hc.anchors b ha
      have := (h.valid.anchors b ha).above
      exact ⟨by omega, hn, ho⟩
  · intro e he
    rcases h.events e he with he | he
    · exact h.keeps _ _ (hs.events e he)
    · exact he
  · intro r hr
    rw [h.ranges] at hr
    rcases List.mem_append.mp hr with hr | hr
    · exact (hs.ranges r hr).keep hle h.keeps
    · obtain rfl := List.mem_singleton.mp hr
      exact h.range_sound hc (by omega) fun hn => by rw [hn] at hpm; cases hpm
  · rw [h.ranges]
    refine List.pairwise_append.mpr ⟨hs.ordered, List.pairwise_singleton _ _, ?_⟩
    intro a ha b hb
    obtain rfl := List.mem_singleton.mp hb
    exact (hs.ranges a ha).below.trans_lt hlast
  · intro n hn _ hb
    have hnew := hb batch.range (by rw [h.ranges]; exact List.mem_append_right _ (List.mem_singleton.mpr rfl))
    obtain ⟨b, hb'⟩ := hs.base n hn (by omega) fun r hr => hb r (by rw [h.ranges]; exact List.mem_append_left _ hr)
    obtain ⟨b', hb'', -⟩ := hasBlock_iff.mp (h.keeps n b.blockHash (hasBlock_iff.mpr ⟨b, hb', rfl⟩))
    exact ⟨b', hb''⟩

/-! ## A rollback -/

/-- A rollback to a block that is there. -/
structure CutAfter (C : ChainData) (n : Nat) (b : CanonicalBlock) (C' : ChainData) : Prop where
  block : C.blocks n = some b
  checkpoint : ∃ chainId, C'.checkpoint = some ⟨chainId, n, b.blockHash⟩
  ranges : C'.ranges = C.ranges.filter fun r => r.toBlock ≤ n
  blocks : C'.blocks = fun m => if m ≤ n then C.blocks m else none
  events : C'.events = C.events.filter fun e => e.blockNumber ≤ n

theorem EventStore.RolledBack.cutAfter {Q : Type} {X : Projector Q} {S S' : EventStore Q} {c n : Nat}
    (h : RolledBack X c S (some n) S') : ∃ b, CutAfter (S.chains c) n b (S'.chains c) := by
  obtain ⟨b, hb, hc⟩ := h.block
  refine ⟨b, hb, ⟨c, hc⟩, h.ranges, ?_, h.events⟩
  rw [h.blocks]
  funext m
  simp only [keeps_some]

theorem CutAfter.hasBlock {n : Nat} {b : CanonicalBlock} (h : CutAfter C n b C') {m : Nat} {hash : Bytes32}
    (hm : m ≤ n) : C'.hasBlock m hash = C.hasBlock m hash := by
  simp only [ChainData.hasBlock, h.blocks, if_pos hm]

theorem CutAfter.blocks_eq {n : Nat} {b : CanonicalBlock} (h : CutAfter C n b C') {m : Nat} (hm : m ≤ n) :
    C'.blocks m = C.blocks m := by
  rw [h.blocks]
  exact if_pos hm

/-- Below the oldest range that is left every block is there: the ranges that are gone lay above it, but for one that
the rollback has cut. -/
theorem CutAfter.base {n : Nat} {b : CanonicalBlock} {checkpoint : ChainCheckpoint} (h : CutAfter C n b C')
    (hs : Sound T deployment C checkpoint) (hp : RollbackPoint C (some n)) {m : Nat} (hd : deployment ≤ m) (hm : m ≤ n)
    (hb : ∀ r ∈ C'.ranges, m < r.fromBlock) : ∃ c, C.blocks m = some c := by
  by_cases hall : ∀ r ∈ C.ranges, m < r.fromBlock
  · exact hs.base m hd (hm.trans (hs.le_tip h.block)) hall
  · simp only [not_forall, Nat.not_lt] at hall
    obtain ⟨r, hr, hle⟩ := hall
    have hlt : n < r.toBlock := by
      by_contra hn
      have hkept : r ∈ C'.ranges := by
        rw [h.ranges]
        exact List.mem_filter.mpr ⟨hr, decide_eq_true (Nat.not_lt.mp hn)⟩
      exact absurd (hb r hkept) (Nat.not_lt.mpr hle)
    exact (hs.ranges r hr).dense (hp n rfl r hr (hle.trans hm) hlt) m hle (hm.trans hlt.le)

theorem CutAfter.sound {n : Nat} {b : CanonicalBlock} {checkpoint : ChainCheckpoint} (h : CutAfter C n b C')
    (hs : Sound T deployment C checkpoint) (hp : RollbackPoint C (some n)) :
    ∃ c, C'.checkpoint = some c ∧ c.blockNumber = n ∧ c.blockHash = b.blockHash ∧ Sound T deployment C' c := by
  obtain ⟨chainId, hc⟩ := h.checkpoint
  obtain ⟨-, hnum, hon⟩ := hs.blocks n b h.block
  refine ⟨_, hc, rfl, rfl, ?_, ?_, ?_, ?_, ?_, ?_⟩
  · rw [h.hasBlock le_rfl]
    exact hasBlock_iff.mpr ⟨b, h.block, rfl⟩
  · intro m c hm
    have hle : m ≤ n := by
      rw [h.blocks] at hm
      by_contra hn
      simp [hn] at hm
    rw [h.blocks_eq hle] at hm
    obtain ⟨hd, hm', ho⟩ := hs.blocks m c hm
    exact ⟨hd, hm', ho.of_le hon (by rw [hm', hnum]; exact hle)⟩
  · intro e he
    rw [h.events] at he
    obtain ⟨he, hle⟩ := List.mem_filter.mp he
    rw [h.hasBlock (of_decide_eq_true hle)]
    exact hs.events e he
  · intro r hr
    rw [h.ranges] at hr
    obtain ⟨hr, hle⟩ := List.mem_filter.mp hr
    have hle := of_decide_eq_true hle
    have hrs := hs.ranges r hr
    refine ⟨hrs.start, hrs.nonempty, hle, ?_, ?_, hrs.first, hrs.next⟩
    · rw [h.hasBlock hle]
      exact hrs.endpoint
    · intro hm m hm₁ hm₂
      rw [h.blocks_eq (hm₂.trans hle)]
      exact hrs.dense hm m hm₁ hm₂
  · rw [h.ranges]
    exact hs.ordered.filter _
  · intro m hd hm hb
    rw [h.blocks_eq hm]
    exact h.base hs hp hd hm hb

/-! ## Every history -/

theorem Kept.sound {c : ChainCheckpoint} (h : Kept T deployment C) (hc : C.checkpoint = some c) :
    Sound T deployment C c := by
  unfold Kept at h
  rw [hc] at h
  exact h

theorem Kept.of_sound {c : ChainCheckpoint} (h : Sound T deployment C c) (hc : C.checkpoint = some c) :
    Kept T deployment C := by
  unfold Kept
  rw [hc]
  exact h

theorem Kept.eq_empty (h : Kept T deployment C) (hc : C.checkpoint = none) : C = .empty := by
  unfold Kept at h
  rw [hc] at h
  exact h

variable {Q : Type} {X : Projector Q} {S : EventStore Q} {c : Nat}

theorem ChainHistory.kept (h : ChainHistory X T deployment c S) : Kept T deployment (S.chains c) := by
  induction h with
  | fresh => exact (rfl : ChainData.empty = .empty)
  | @apply S S' batch hs hc h₀ h ih =>
    by_cases hcom : S.Committed batch
    · rw [applyBatch_committed hcom h]
      exact ih
    · have ht := (applyBatch_iff hcom).mp h
      by_cases he : batch.range.chainId = c
      · subst he
        have ha := ht.applied
        refine Kept.of_sound ?_ ha.checkpoint
        cases hck : (S.chains batch.range.chainId).checkpoint with
        | none => exact ha.sound_first (hc rfl).1 (ih.eq_empty hck) (h₀ rfl hck)
        | some p => exact ha.sound_next (hc rfl).1 (ih.sound hck) hck
      · rw [ht.chain_other (Ne.symm he)]
        exact ih
  | @rollback S S' chainId ancestor hs hp h ih =>
    have hr := rollbackAfter_iff.mp h
    by_cases he : chainId = c
    · subst he
      cases ancestor with
      | none =>
        rw [hr.chain_empty]
        exact (rfl : ChainData.empty = .empty)
      | some n =>
        obtain ⟨b, hb⟩ := hr.cutAfter
        cases hck : (S.chains chainId).checkpoint with
        | none =>
          have hblock := hb.block
          rw [ih.eq_empty hck] at hblock
          cases hblock
        | some p =>
          obtain ⟨p', hp', -, -, hs'⟩ := hb.sound (ih.sound hck) (hp rfl)
          exact Kept.of_sound hs' hp'
    · rw [hr.chain_other (Ne.symm he)]
      exact ih

/-- Such a history is one of batches that list the events of the chain in order. -/
theorem ChainHistory.history (h : ChainHistory X T deployment c S) :
    ∃ bs, History X (fun batch => batch.range.chainId = c → Ordered batch) bs S := by
  induction h with
  | fresh => exact ⟨_, .fresh⟩
  | apply hs hc h₀ h ih =>
    obtain ⟨bs, ih⟩ := ih
    exact ⟨_, .apply ih (fun he => (hc he).2) h⟩
  | rollback hs hp h ih =>
    obtain ⟨bs, ih⟩ := ih
    exact ⟨_, .rollback ih h⟩

/-- Any stored block of the chain can be rolled back to. -/
theorem ChainHistory.can_rollback (h : ChainHistory X T deployment c S) {n : Nat} {b : CanonicalBlock}
    (hb : (S.chains c).blocks n = some b) : ∃ S', S.rollbackAfter X c (some n) = .ok S' := by
  obtain ⟨bs, hist⟩ := h.history
  exact hist.can_rollback (fun _ hk he => hk he) hb

end Cpredict.Indexer
