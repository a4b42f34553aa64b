import Cpredict.Indexer.Store

/-!
# The batches that are accepted

The checks on a batch, each as a condition that is necessary and sufficient: those of `validateCanonicalBatch`
(`Valid`), the anchors that may be stored (`putBlocks_iff`), and the checkpoint that is continued
(`checkContinues_iff`).
-/

namespace Cpredict.Indexer

open Outcome

/-- Anchors with one number have one hash. -/
def Consistent (anchors : List CanonicalBlock) : Prop :=
  ∀ a ∈ anchors, ∀ a' ∈ anchors, a'.blockNumber = a.blockNumber → a'.blockHash = a.blockHash

/-- An anchor of a range. -/
structure Fits (range : CanonicalScanRange) (a : CanonicalBlock) : Prop where
  chain : a.chainId = range.chainId
  above : range.fromBlock ≤ a.blockNumber
  below : a.blockNumber ≤ range.toBlock
  status : a.confirmationStatus = range.confirmationStatus

/-- The hashes of the anchors by number. -/
def seenAll (seen : Nat → Option Bytes32) (anchors : List CanonicalBlock) : Nat → Option Bytes32 :=
  anchors.foldl (fun seen a => Function.update seen a.blockNumber (some a.blockHash)) seen

/-- The blocks by number, once the anchors have been stored. -/
def putAll (overwrites : Bool) (blocks : Nat → Option CanonicalBlock) (anchors : List CanonicalBlock) :
    Nat → Option CanonicalBlock :=
  anchors.foldl (ChainData.putBlock overwrites) blocks

/-- No anchor has another hash than the stored block of its number. -/
def Matching (blocks : Nat → Option CanonicalBlock) (anchors : List CanonicalBlock) : Prop :=
  ∀ a ∈ anchors, ∀ b, blocks a.blockNumber = some b → b.blockHash = a.blockHash

section

variable {range : CanonicalScanRange} {anchors : List CanonicalBlock} {seen seen' : Nat → Option Bytes32}
  {blocks : Nat → Option CanonicalBlock} {a : CanonicalBlock} {n : Nat} {C C' : ChainData} {overwrites : Bool}

theorem Consistent.rest (h : Consistent (a :: anchors)) : Consistent anchors :=
  fun x hx y hy => h x (List.mem_cons_of_mem _ hx) y (List.mem_cons_of_mem _ hy)

theorem Consistent.filter (h : Consistent anchors) (p : CanonicalBlock → Bool) : Consistent (anchors.filter p) :=
  fun x hx y hy => h x (List.mem_filter.mp hx).1 y (List.mem_filter.mp hy).1

/-- An anchor before others that agree with it. -/
theorem consistent_cons : Consistent (a :: anchors) ↔
    (∀ x ∈ anchors, x.blockNumber = a.blockNumber → x.blockHash = a.blockHash) ∧ Consistent anchors := by
  constructor
  · exact fun h => ⟨fun x hx => h a List.mem_cons_self x (List.mem_cons_of_mem _ hx), h.rest⟩
  · rintro ⟨ha, h⟩ x hx y hy hn
    rcases List.mem_cons.mp hx with hxa | hx
    · rcases List.mem_cons.mp hy with hya | hy
      · rw [hxa, hya]
      · rw [hxa] at hn ⊢
        exact ha y hy hn
    · rcases List.mem_cons.mp hy with hya | hy
      · rw [hya] at hn ⊢
        exact (ha x hx hn.symm).symm
      · exact h x hx y hy hn

theorem putBlock_other (h : a.blockNumber ≠ n) : ChainData.putBlock overwrites blocks a n = blocks n := by
  unfold ChainData.putBlock
  split
  · exact Function.update_of_ne h.symm _ _
  · rfl

/-- The block that is stored under the number of an anchor is the anchor, or the block from before. -/
theorem putBlock_self : ChainData.putBlock overwrites blocks a a.blockNumber = some a ∨
    ChainData.putBlock overwrites blocks a a.blockNumber = blocks a.blockNumber ∧ blocks a.blockNumber ≠ none := by
  unfold ChainData.putBlock
  split
  · exact .inl (Function.update_self _ _ _)
  · rename_i h
    exact .inr ⟨rfl, fun hn => h (.inr hn)⟩

/-- Storing an anchor does not depend on the blocks with other numbers. -/
theorem putBlock_congr {blocks' : Nat → Option CanonicalBlock} (h : blocks n = blocks' n) :
    ChainData.putBlock overwrites blocks a n = ChainData.putBlock overwrites blocks' a n := by
  by_cases hn : a.blockNumber = n
  · subst hn
    unfold ChainData.putBlock
    rw [h]
    split
    · rw [Function.update_self, Function.update_self]
    · exact h
  · rw [putBlock_other hn, putBlock_other hn, h]

theorem putAll_other (h : ∀ a ∈ anchors, a.blockNumber ≠ n) : putAll overwrites blocks anchors n = blocks n := by
  induction anchors generalizing blocks with
  | nil => rfl
  | cons x rest ih =>
    exact (ih fun a ha => h a (List.mem_cons_of_mem _ ha)).trans (putBlock_other (h x List.mem_cons_self))

/-- The block that is stored under a number is from before, or it is an anchor. -/
theorem putAll_some {b : CanonicalBlock} (h : putAll overwrites blocks anchors n = some b) :
    blocks n = some b ∨ b ∈ anchors ∧ b.blockNumber = n := by
  induction anchors generalizing blocks with
  | nil => exact .inl h
  | cons x rest ih =>
    rcases ih h with h | ⟨hb, hn⟩
    · by_cases hn : x.blockNumber = n
      · subst hn
        have hself : ChainData.putBlock overwrites blocks x x.blockNumber = some x ∨
            ChainData.putBlock overwrites blocks x x.blockNumber = blocks x.blockNumber ∧
              blocks x.blockNumber ≠ none := putBlock_self
        rcases hself with hs | ⟨hs, -⟩
        · rw [hs] at h
          obtain rfl := Option.some.inj h
          exact .inr ⟨List.mem_cons_self, rfl⟩
        · exact .inl (hs ▸ h)
      · exact .inl ((putBlock_other hn).symm.trans h)
    · exact .inr ⟨List.mem_cons_of_mem _ hb, hn⟩

/-- The hash that is stored under the number of an anchor. -/
theorem putBlock_hash (h : ∀ b, blocks a.blockNumber = some b → b.blockHash = a.blockHash) :
    (ChainData.putBlock overwrites blocks a a.blockNumber).map CanonicalBlock.blockHash = some a.blockHash := by
  have hself : ChainData.putBlock overwrites blocks a a.blockNumber = some a ∨
      ChainData.putBlock overwrites blocks a a.blockNumber = blocks a.blockNumber ∧ blocks a.blockNumber ≠ none :=
    putBlock_self
  rcases hself with hs | ⟨hs, hn⟩
  · rw [hs, Option.map_some]
  · obtain ⟨b, hb⟩ := Option.ne_none_iff_exists'.mp hn
    rw [hs, hb, Option.map_some, h b hb]

/-- An anchor keeps the hashes of the blocks. -/
theorem putBlock_keeps {hash : Bytes32} (h : ∀ b, blocks a.blockNumber = some b → b.blockHash = a.blockHash)
    (hb : (blocks n).map CanonicalBlock.blockHash = some hash) :
    (ChainData.putBlock overwrites blocks a n).map CanonicalBlock.blockHash = some hash := by
  by_cases hn : a.blockNumber = n
  · subst hn
    obtain ⟨b, hstored, rfl⟩ := Option.map_eq_some_iff.mp hb
    rw [putBlock_hash h, h b hstored]
  · rw [putBlock_other hn, hb]

/-- What is left of the anchors after the first one. -/
theorem Matching.rest (hc : Consistent (a :: anchors)) (h : Matching blocks (a :: anchors)) :
    Matching (ChainData.putBlock overwrites blocks a) anchors := by
  intro x hx b hb
  by_cases hn : a.blockNumber = x.blockNumber
  · have hhash : (ChainData.putBlock overwrites blocks a a.blockNumber).map CanonicalBlock.blockHash =
        some a.blockHash := putBlock_hash (h a List.mem_cons_self)
    rw [hn, hb, Option.map_some] at hhash
    rw [Option.some.inj hhash]
    exact (hc a List.mem_cons_self x (List.mem_cons_of_mem _ hx) hn.symm).symm
  · exact h x (List.mem_cons_of_mem _ hx) b ((putBlock_other hn).symm.trans hb)

/-- The anchors keep the hashes of the blocks. -/
theorem putAll_keeps {hash : Bytes32} (hc : Consistent anchors) (h : Matching blocks anchors)
    (hb : (blocks n).map CanonicalBlock.blockHash = some hash) :
    (putAll overwrites blocks anchors n).map CanonicalBlock.blockHash = some hash := by
  induction anchors generalizing blocks with
  | nil => exact hb
  | cons x rest ih => exact ih hc.rest (h.rest hc) (putBlock_keeps (h x List.mem_cons_self) hb)

/-- The hash that is stored is that of every anchor with the number. -/
theorem putAll_hash (hc : Consistent anchors) (h : Matching blocks anchors) (ha : a ∈ anchors) :
    (putAll overwrites blocks anchors a.blockNumber).map CanonicalBlock.blockHash = some a.blockHash := by
  induction anchors generalizing blocks with
  | nil => cases ha
  | cons x rest ih =>
    have hstep : putAll overwrites blocks (x :: rest) =
        putAll overwrites (ChainData.putBlock overwrites blocks x) rest := rfl
    rw [hstep]
    rcases List.mem_cons.mp ha with rfl | ha
    · exact putAll_keeps hc.rest (h.rest hc) (putBlock_hash (h a List.mem_cons_self))
    · exact ih hc.rest (h.rest hc) ha

/-! ## The checks -/

theorem checkAnchors_iff : checkAnchors range anchors seen = .ok seen' ↔
    (∀ a ∈ anchors, Fits range a) ∧ (∀ a ∈ anchors, ∀ hash, seen a.blockNumber = some hash → hash = a.blockHash) ∧
      Consistent anchors ∧ seenAll seen anchors = seen' := by
  induction anchors generalizing seen with
  | nil =>
    simp only [checkAnchors, seenAll, List.foldl_nil, Except.ok.injEq]
    exact ⟨fun h => ⟨fun a ha => absurd ha List.not_mem_nil, fun a ha => absurd ha List.not_mem_nil,
      fun a ha => absurd ha List.not_mem_nil, h⟩, fun h => h.2.2.2⟩
  | cons x rest ih =>
    have hfits : ¬(x.chainId ≠ range.chainId ∨ x.blockNumber < range.fromBlock ∨ range.toBlock < x.blockNumber ∨
        x.confirmationStatus ≠ range.confirmationStatus) ↔ Fits range x := by
      simp only [not_or, not_not, Nat.not_lt, ne_eq]
      exact ⟨fun h => ⟨h.1, h.2.1, h.2.2.1, h.2.2.2⟩, fun h => ⟨h.chain, h.above, h.below, h.status⟩⟩
    have hseen : (¬∃ previous ∈ seen x.blockNumber, previous ≠ x.blockHash) ↔
        ∀ hash, seen x.blockNumber = some hash → hash = x.blockHash := by
      simp only [not_exists, not_and, not_not, ne_eq]
      exact Iff.rfl
    -- what the rest asks of the anchor before it, and of what was seen
    have hrest : (∀ a ∈ rest, ∀ hash, Function.update seen x.blockNumber (some x.blockHash) a.blockNumber = some hash →
          hash = a.blockHash) ∧ Consistent rest ∧ (∀ hash, seen x.blockNumber = some hash → hash = x.blockHash) ↔
        (∀ a ∈ rest, ∀ hash, seen a.blockNumber = some hash → hash = a.blockHash) ∧
          (∀ a ∈ rest, a.blockNumber = x.blockNumber → a.blockHash = x.blockHash) ∧ Consistent rest ∧
          ∀ hash, seen x.blockNumber = some hash → hash = x.blockHash := by
      constructor
      · rintro ⟨h, hc, hx⟩
        have hsame : ∀ a ∈ rest, a.blockNumber = x.blockNumber → a.blockHash = x.blockHash := by
          intro a ha hn
          refine (h a ha x.blockHash ?_).symm
          rw [hn, Function.update_self]
        refine ⟨fun a ha hash hs => ?_, hsame, hc, hx⟩
        by_cases hn : a.blockNumber = x.blockNumber
        · rw [hsame a ha hn]
          rw [hn] at hs
          exact hx hash hs
        · exact h a ha hash (by rw [Function.update_of_ne hn, hs])
      · rintro ⟨h, hsame, hc, hx⟩
        refine ⟨fun a ha hash hs => ?_, hc, hx⟩
        by_cases hn : a.blockNumber = x.blockNumber
        · rw [hn, Function.update_self] at hs
          rw [hsame a ha hn]
          exact (Option.some.inj hs).symm
        · rw [Function.update_of_ne hn] at hs
          exact h a ha hash hs
    simp only [checkAnchors, bind_eq_ok, revertIf_eq_ok, ih, hfits, hseen, List.forall_mem_cons, consistent_cons]
    constructor
    · rintro ⟨-, hx, -, hs, hr, hu, hc, hall⟩
      obtain ⟨h₁, h₂, h₃, h₄⟩ := hrest.mp ⟨hu, hc, hs⟩
      exact ⟨⟨hx, hr⟩, ⟨h₄, h₁⟩, ⟨h₂, h₃⟩, hall⟩
    · rintro ⟨⟨hx, hr⟩, ⟨h₄, h₁⟩, ⟨h₂, h₃⟩, hall⟩
      obtain ⟨hu, hc, hs⟩ := hrest.mpr ⟨h₁, h₂, h₃, h₄⟩
      exact ⟨(), hx, (), hs, hr, hu, hc, hall⟩

end

/-- An event of a range, with an anchor for its block. -/
structure FitsEvent (range : CanonicalScanRange) (anchors : List CanonicalBlock) (e : IndexedEvent) : Prop where
  chain : e.chainId = range.chainId
  above : range.fromBlock ≤ e.blockNumber
  below : e.blockNumber ≤ range.toBlock
  status : e.confirmationStatus = range.confirmationStatus
  anchored : ∃ a ∈ anchors, a.blockNumber = e.blockNumber ∧ a.blockHash = e.blockHash

/-- A batch that passes `validateCanonicalBatch`. -/
structure Valid (batch : CanonicalBatch) : Prop where
  nonempty : batch.range.fromBlock ≤ batch.range.toBlock
  checkpoint : batch.checkpoint = ⟨batch.range.chainId, batch.range.toBlock, batch.range.endBlockHash⟩
  next : ∀ p ∈ batch.range.predecessor, p.chainId = batch.range.chainId ∧ p.blockNumber + 1 = batch.range.fromBlock
  anchors : ∀ a ∈ batch.anchors, Fits batch.range a
  consistent : Consistent batch.anchors
  endpoint : ∃ a ∈ batch.anchors, a.blockNumber = batch.range.toBlock ∧ a.blockHash = batch.range.endBlockHash
  events : ∀ e ∈ batch.events, FitsEvent batch.range batch.anchors e

section

variable {batch : CanonicalBatch} {anchors : List CanonicalBlock} {C C' : ChainData}

/-- The hash of a number is that of an anchor. -/
theorem seenAll_some (hc : Consistent anchors) {seen : Nat → Option Bytes32} (n : Nat) (hash : Bytes32) :
    seenAll seen anchors n = some hash ↔ (∃ a ∈ anchors, a.blockNumber = n ∧ a.blockHash = hash) ∨
      (∀ a ∈ anchors, a.blockNumber ≠ n) ∧ seen n = some hash := by
  induction anchors generalizing seen with
  | nil =>
    refine ⟨fun h => .inr ⟨fun a ha => absurd ha List.not_mem_nil, h⟩, ?_⟩
    rintro (⟨a, ha, -⟩ | ⟨-, h⟩)
    · cases ha
    · exact h
  | cons x rest ih =>
    obtain ⟨hsame, hrest⟩ := consistent_cons.mp hc
    have hstep : seenAll seen (x :: rest) = seenAll (Function.update seen x.blockNumber (some x.blockHash)) rest := rfl
    rw [hstep, ih hrest]
    by_cases hx : x.blockNumber = n
    · subst hx
      simp only [Function.update_self, Option.some.injEq]
      constructor
      · rintro (⟨a, ha, hn, hh⟩ | ⟨-, hh⟩)
        · exact .inl ⟨a, List.mem_cons_of_mem _ ha, hn, hh⟩
        · exact .inl ⟨x, List.mem_cons_self, rfl, hh⟩
      · rintro (⟨a, ha, hn, hh⟩ | ⟨hno, -⟩)
        · rcases List.mem_cons.mp ha with rfl | ha
          · by_cases hr : ∃ b ∈ rest, b.blockNumber = a.blockNumber
            · obtain ⟨b, hb, hbn⟩ := hr
              exact .inl ⟨b, hb, hbn, (hsame b hb hbn).trans hh⟩
            · exact .inr ⟨fun b hb hbn => hr ⟨b, hb, hbn⟩, hh⟩
          · exact .inl ⟨a, ha, hn, hh⟩
        · exact absurd rfl (hno x List.mem_cons_self)
    · simp only [Function.update_of_ne (Ne.symm hx), List.mem_cons, exists_eq_or_imp, forall_eq_or_imp, hx, false_and,
        false_or, ne_eq, not_false_eq_true, true_and]

/-- The hash of a number, of anchors that come first. -/
theorem seenAll_none (hc : Consistent anchors) (n : Nat) (hash : Bytes32) :
    seenAll (fun _ => none) anchors n = some hash ↔ ∃ a ∈ anchors, a.blockNumber = n ∧ a.blockHash = hash := by
  rw [seenAll_some hc]
  exact or_iff_left fun h => Option.some_ne_none hash h.2.symm

theorem validateCanonicalBatch_iff : validateCanonicalBatch batch = .ok () ↔ Valid batch := by
  simp only [validateCanonicalBatch, bind_eq_ok, revertIf_eq_ok, checkAnchors_iff]
  constructor
  · rintro ⟨-, hne, -, hcp, -, hp, seen, ⟨hfit, -, hc, rfl⟩, -, he, hev⟩
    simp only [not_or, not_not, Nat.not_lt, ne_eq, not_exists, not_and] at hne hcp hp he hev
    refine ⟨hne, ?_, fun p hpm => ?_, hfit, hc, (seenAll_none hc _ _).mp he, fun e hem => ?_⟩
    · obtain ⟨h₁, h₂, h₃⟩ := hcp
      rw [← h₁, ← h₂, ← h₃]
    · exact hp p hpm
    · obtain ⟨h₁, h₂, h₃, h₄, h₅⟩ := hev e hem
      exact ⟨h₁, h₂, h₃, h₄, (seenAll_none hc _ _).mp h₅⟩
  · intro h
    refine ⟨(), Nat.not_lt.mpr h.nonempty, (), ?_, (), ?_, _,
      ⟨h.anchors, fun _ _ _ hs => absurd hs (Option.some_ne_none _).symm, h.consistent, rfl⟩, (), ?_, ?_⟩
    · rw [h.checkpoint]
      simp
    · rintro ⟨p, hp, hn⟩
      obtain ⟨h₁, h₂⟩ := h.next p hp
      rcases hn with hn | hn
      · exact hn h₁
      · exact hn h₂
    · exact not_not.mpr ((seenAll_none h.consistent _ _).mpr h.endpoint)
    · rintro ⟨e, he, hn⟩
      have hf := h.events e he
      rcases hn with hn | hn | hn | hn | hn
      · exact hn hf.chain
      · exact absurd hf.above (Nat.not_le.mpr hn)
      · exact absurd hf.below (Nat.not_le.mpr hn)
      · exact hn hf.status
      · exact hn ((seenAll_none h.consistent _ _).mpr hf.anchored)

/-- The anchors are stored if no stored block has another hash. -/
theorem putBlocks_iff {overwrites : Bool} (hc : Consistent anchors) :
    ChainData.putBlocks overwrites anchors C = .ok C' ↔
      Matching C.blocks anchors ∧ C' = { C with blocks := putAll overwrites C.blocks anchors } := by
  induction anchors generalizing C with
  | nil =>
    simp only [ChainData.putBlocks, putAll, List.foldl_nil, Except.ok.injEq]
    exact ⟨fun h => ⟨fun a ha => absurd ha List.not_mem_nil, h.symm⟩, fun h => h.2.symm⟩
  | cons x rest ih =>
    simp only [ChainData.putBlocks, bind_eq_ok, revertIf_eq_ok, ih hc.rest]
    constructor
    · rintro ⟨-, hx, hr, hC⟩
      have hx : ∀ b, C.blocks x.blockNumber = some b → b.blockHash = x.blockHash := by
        intro b hb
        by_contra hne
        exact hx ⟨b, hb, hne⟩
      refine ⟨fun a ha b hb => ?_, hC⟩
      rcases List.mem_cons.mp ha with rfl | ha
      · exact hx b hb
      · by_cases hn : a.blockNumber = x.blockNumber
        · rw [hc x List.mem_cons_self a (List.mem_cons_of_mem _ ha) hn]
          exact hx b (hn ▸ hb)
        · exact hr a ha b ((putBlock_other (Ne.symm hn)).trans hb)
    · rintro ⟨hm, hC⟩
      refine ⟨(), ?_, hm.rest hc, hC⟩
      rintro ⟨b, hb, hne⟩
      exact hne (hm x List.mem_cons_self b hb)

/-- A range goes on where the checkpoint is. -/
structure Continues (current : Option ChainCheckpoint) (range : CanonicalScanRange) : Prop where
  first : current = none → range.predecessor = none
  next : ∀ c, current = some c → range.fromBlock = c.blockNumber + 1 ∧
    ∃ p, range.predecessor = some p ∧ p.blockNumber = c.blockNumber ∧ p.blockHash = c.blockHash

theorem checkContinues_iff {current : Option ChainCheckpoint} {range : CanonicalScanRange} :
    ChainData.checkContinues current range = .ok () ↔ Continues current range := by
  unfold ChainData.checkContinues
  cases current with
  | none =>
    simp only [revertIf_eq_ok, not_not]
    exact ⟨fun h => ⟨fun _ => h, fun c hc => absurd hc.symm (Option.some_ne_none c)⟩, fun h => h.first rfl⟩
  | some c =>
    simp only [revertIf_eq_ok, not_or, not_not]
    constructor
    · rintro ⟨hn, hh, hf⟩
      refine ⟨fun hnone => absurd hnone (Option.some_ne_none c), fun c' hc => ?_⟩
      obtain rfl := Option.some.inj hc
      obtain ⟨p, hp, hpn⟩ := Option.map_eq_some_iff.mp hn
      rw [hp] at hh
      exact ⟨hf, p, hp, hpn, Option.some.inj hh⟩
    · intro h
      obtain ⟨hf, p, hp, hpn, hph⟩ := h.next c rfl
      rw [hp]
      exact ⟨congrArg some hpn, congrArg some hph, hf⟩

end

end Cpredict.Indexer
