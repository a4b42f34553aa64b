import Cpredict.Indexer.Answers

/-!
# The commit fence

The end of a range is read among the anchors and once more before the commit. In dense mode the parents tie all
anchors to it (`lineage`). In sparse mode nothing ties an anchor to it that was read while the node was on another
chain: the batch lies on one chain as long as no block that it may have is replaced between the answers
(`Unreplaced`).
-/

namespace Cpredict.Indexer

open Outcome BlockTree EventStore

variable {V : Decoder} {o : IndexerOptions} {N : Node} {Q : Type} {X : Projector Q} {S S' : EventStore Q}
  {C : ChainData}
  {tr tr' : Trace} {batch : CanonicalBatch}

/-! ## The anchors that were read -/

/-- An anchor is the block of its number on the chain of the node at its `k`-th answer. -/
structure ReadAt (N : Node) (k : Nat) (a : CanonicalBlock) : Prop where
  block : blockAt N.archive.tree (N.heads k) a.blockNumber = some a.blockHash
  parent : a.parentHash = N.archive.tree.parent a.blockHash

theorem ReadAt.number {k : Nat} {a : CanonicalBlock} (h : ReadAt N k a) :
    N.archive.tree.number a.blockHash = a.blockNumber := number_blockAt h.block

theorem readAnchors_ok {toBlock : Nat} {eventBlocks numbers : List Nat} {anchors : List CanonicalBlock}
    (h : readAnchors o N toBlock eventBlocks numbers tr = .ok (anchors, tr')) :
    anchors.map CanonicalBlock.blockNumber = numbers ∧ tr'.length = tr.length + anchors.length ∧
      ∀ i (hi : i < anchors.length), ReadAt N (tr.length + i) anchors[i] := by
  induction numbers generalizing tr anchors with
  | nil =>
    cases h
    exact ⟨rfl, rfl, fun i hi => (Nat.not_lt_zero i hi).elim⟩
  | cons n rest ih =>
    simp only [readAnchors, bind_eq_ok, Except.ok.injEq, Prod.mk.injEq] at h
    obtain ⟨⟨b, tr₁⟩, hb, ⟨more, tr₂⟩, hm, ha, ht⟩ := h
    simp only at hm ht
    subst ht
    obtain ⟨hblock, hparent, -, htr⟩ := Node.readBlock_eq_ok.mp hb
    have hlen₁ : tr₁.length = tr.length + 1 := by simp [htr, Node.asked]
    obtain ⟨hn, hlen, hread⟩ := ih hm
    subst ha
    refine ⟨by simp [hn], ?_, ?_⟩
    · simp only [List.length_cons]
      omega
    · intro i hi
      cases i with
      | zero => exact ⟨hblock, hparent⟩
      | succ i =>
        have := hread i (by simpa using hi)
        rw [hlen₁, Nat.add_assoc, Nat.add_comm 1 i] at this
        exact this

/-- What a scan has read and checked. -/
structure Scanned (o : IndexerOptions) (N : Node) (checkpoint : Option ChainCheckpoint) (fromBlock toBlock : Nat)
    (batch : CanonicalBatch) (start : Nat) : Prop where
  range : batch.range.fromBlock = fromBlock ∧ batch.range.toBlock = toBlock ∧ batch.range.predecessor = checkpoint
  numbers : batch.anchors.map CanonicalBlock.blockNumber =
    anchorNumbers o fromBlock toBlock (batch.events.map IndexedEvent.blockNumber)
  read : ∀ i (hi : i < batch.anchors.length), ReadAt N (start + i) batch.anchors[i]
  parents : validateParents o checkpoint batch.anchors = .ok ()
  events : ∀ e ∈ batch.events, ∃ a ∈ batch.anchors, a.blockNumber = e.blockNumber ∧ a.blockHash = e.blockHash
  endpoint : ∃ a ∈ batch.anchors, a.blockNumber = toBlock ∧ a.blockHash = batch.checkpoint.blockHash
  checkpoint : batch.checkpoint.blockNumber = toBlock

theorem find_number {anchors : List CanonicalBlock} {n : Nat} {a : CanonicalBlock}
    (h : (anchors.find? fun a => a.blockNumber = n) = some a) : a ∈ anchors ∧ a.blockNumber = n := by
  have hp := List.find?_some h
  exact ⟨List.mem_of_find?_eq_some h, of_decide_eq_true hp⟩

theorem anchorHash_mem {anchors : List CanonicalBlock} {n : Nat} {hash : Bytes32}
    (h : anchorHash anchors n = some hash) :
    ∃ a ∈ anchors, a.blockNumber = n ∧ a.blockHash = hash := by
  obtain ⟨a, ha, hh⟩ := Option.map_eq_some_iff.mp h
  obtain ⟨hm, hn⟩ := find_number ha
  exact ⟨a, List.mem_reverse.mp hm, hn, hh⟩

theorem scanRange_ok {checkpoint : Option ChainCheckpoint} {registered : List Address} {fromBlock toBlock : Nat}
    (h : scanRange V o N checkpoint registered fromBlock toBlock tr = .ok (batch, tr')) :
    ∃ logs tr₁, collectLogs V o N registered fromBlock toBlock tr = .ok (logs, tr₁) ∧
      batch.events = 
        (logs.map (normalizeLog o.chainId (confirmationFor o.confirmations))).insertionSort (eventLe · ·) ∧
      tr'.length = tr₁.length + batch.anchors.length + 1 ∧
      Scanned o N checkpoint fromBlock toBlock batch tr₁.length := by
  simp only [scanRange, bind_eq_ok, revertIf_eq_ok, verifyCommitFence, Except.ok.injEq, Prod.mk.injEq] at h
  obtain ⟨⟨logs, tr₁⟩, hl, ⟨anchors, tr₂⟩, ha, _, hp, -, he, b, hb, tr₃, ⟨⟨c, tr₄⟩, hc, -, -, htr⟩, hbatch, htr'⟩ := h
  obtain ⟨hn, hlen, hread⟩ := readAnchors_ok ha
  obtain ⟨-, -, -, htr₄⟩ := Node.readBlock_eq_ok.mp hc
  simp only at htr
  subst hbatch htr' htr
  have hb' : (anchors.find? fun a => a.blockNumber = toBlock) = some b := by
    cases hf : anchors.find? fun a => a.blockNumber = toBlock with
    | none =>
      rw [hf] at hb
      cases hb
    | some b' =>
      rw [hf] at hb
      cases hb
      rfl
  obtain ⟨hbm, hbn⟩ := find_number hb'
  refine ⟨logs, tr₁, hl, rfl, ?_, ⟨rfl, rfl, rfl⟩, hn, hread, hp, ?_, ⟨b, hbm, hbn, rfl⟩, hbn⟩
  · rw [htr₄]
    simp [Node.asked, hlen]
  · intro e hem
    by_contra hne
    refine he ⟨e, hem, ?_⟩
    intro hh
    exact hne (anchorHash_mem hh)

/-- Blocks in a row that name each other as parents lie on one chain. -/
theorem lineage {expected : Option Bytes32} {blocks : List CanonicalBlock} {start n : Nat}
    (h : validateLineage expected blocks = .ok ())
    (hr : ∀ i (hi : i < blocks.length), ReadAt N (start + i) blocks[i])
    (hn : blocks.map CanonicalBlock.blockNumber = List.range' n blocks.length) (h₀ : expected ≠ none → n ≠ 0) :
    (blocks.Pairwise fun a b => On N.archive.tree a.blockHash b.blockHash) ∧
      ∀ p ∈ expected, ∀ b ∈ blocks, On N.archive.tree p b.blockHash ∧ N.archive.tree.number p + 1 = n := by
  induction blocks generalizing expected start n with
  | nil => exact ⟨.nil, fun _ _ b hb => (List.not_mem_nil hb).elim⟩
  | cons a rest ih =>
    simp only [validateLineage, bind_eq_ok, revertIf_eq_ok] at h
    obtain ⟨-, hp, h⟩ := h
    rw [List.length_cons, List.range'_succ, List.map_cons] at hn
    obtain ⟨han, hn⟩ := List.cons.inj hn
    have hread : ReadAt N start a := hr 0 (Nat.succ_pos _)
    have hrest : ∀ i (hi : i < rest.length), ReadAt N (start + 1 + i) rest[i] := by
      intro i hi
      have hnext := hr (i + 1) (Nat.succ_lt_succ hi)
      simpa [Nat.add_assoc, Nat.add_comm 1 i] using hnext
    obtain ⟨hpair, hon⟩ := ih h hrest hn fun _ => Nat.succ_ne_zero n
    refine ⟨List.pairwise_cons.mpr ⟨fun b hb => (hon _ rfl b hb).1, hpair⟩, ?_⟩
    intro p hpm
    have hne : n ≠ 0 := h₀ (by rw [hpm]; exact Option.some_ne_none p)
    have hparent : N.archive.tree.parent a.blockHash = p := by
      by_contra hne
      exact hp ⟨p, hpm, fun he => hne (hread.parent.symm.trans he)⟩
    have hna : N.archive.tree.number a.blockHash ≠ 0 := by rwa [hread.number, han]
    have hpa : On N.archive.tree p a.blockHash := hparent ▸ on_parent hna
    have hpn : N.archive.tree.number p + 1 = n := by
      rw [← hparent, N.archive.tree.number_parent _ hna, hread.number, han]
    intro b hb
    rcases List.mem_cons.mp hb with rfl | hb
    · exact ⟨hpa, hpn⟩
    · exact ⟨hpa.trans (hon _ rfl b hb).1, hpn⟩

/-! ## One chain -/

/-- The batch lies on the chain that ends in its endpoint. -/
structure OnChain (T : Blocks Bytes32) (batch : CanonicalBatch) : Prop where
  predecessor : ∀ p ∈ batch.range.predecessor, blockAt T batch.checkpoint.blockHash p.blockNumber = some p.blockHash
  anchors : ∀ a ∈ batch.anchors, blockAt T batch.checkpoint.blockHash a.blockNumber = some a.blockHash
  events : ∀ e ∈ batch.events, blockAt T batch.checkpoint.blockHash e.blockNumber = some e.blockHash

section

variable {checkpoint : Option ChainCheckpoint} {fromBlock toBlock start : Nat}

/-- An event is in the block of an anchor, so it lies on a chain with the anchors. -/
theorem Scanned.events_on (h : Scanned o N checkpoint fromBlock toBlock batch start)
    (ha : ∀ a ∈ batch.anchors, blockAt N.archive.tree batch.checkpoint.blockHash a.blockNumber = some a.blockHash) :
    ∀ e ∈ batch.events, blockAt N.archive.tree batch.checkpoint.blockHash e.blockNumber = some e.blockHash := by
  intro e he
  obtain ⟨a, ham, hn, hh⟩ := h.events e he
  rw [← hn, ← hh]
  exact ha a ham

/-- In dense mode a batch lies on one chain. -/
theorem Scanned.dense (h : Scanned o N checkpoint fromBlock toBlock batch start)
    (hm : o.canonicalMode = .dense) (h₀ : ∀ c ∈ checkpoint, fromBlock = c.blockNumber + 1) :
    OnChain N.archive.tree batch := by
  have hnum := h.numbers
  simp only [anchorNumbers, hm] at hnum
  have hlen : batch.anchors.length = toBlock + 1 - fromBlock := by
    have := congrArg List.length hnum
    simpa using this
  have hpar := h.parents
  simp only [validateParents, hm] at hpar
  obtain ⟨hpair, hpre⟩ := lineage hpar h.read (by rw [hnum, hlen]) (by
    intro hne
    cases checkpoint with
    | none => exact absurd rfl hne
    | some c =>
      rw [h₀ c rfl]
      exact Nat.succ_ne_zero _)
  have hnumber : ∀ i (hi : i < batch.anchors.length), batch.anchors[i].blockNumber = fromBlock + i := by
    intro i hi
    have hmap := congrArg (fun l => l[i]?) hnum
    have hi' : i < toBlock + 1 - fromBlock := hlen ▸ hi
    simpa [hi, hi', List.getElem?_range'] using hmap
  obtain ⟨e, he, hen, heh⟩ := h.endpoint
  obtain ⟨j, hj, rfl⟩ := List.getElem_of_mem he
  have hanchors : ∀ a ∈ batch.anchors, blockAt N.archive.tree batch.checkpoint.blockHash a.blockNumber =
    some a.blockHash := by
    intro a ha
    obtain ⟨i, hi, rfl⟩ := List.getElem_of_mem ha
    have hon : On N.archive.tree batch.anchors[i].blockHash batch.anchors[j].blockHash := by
      rcases Nat.lt_trichotomy i j with hij | rfl | hij
      · exact List.pairwise_iff_getElem.mp hpair i j hi hj hij
      · exact On.refl _
      · -- the endpoint is the last anchor
        have h₁ := hnumber j hj
        omega
    rw [← heh, ← (h.read i hi).number]
    exact hon
  refine ⟨?_, hanchors, h.events_on hanchors⟩
  · intro p hp
    rw [h.range.2.2] at hp
    obtain ⟨hon, hpn⟩ := hpre p.blockHash (by rw [hp]; rfl) _ he
    have hnum : N.archive.tree.number p.blockHash = p.blockNumber := by
      have := h₀ p hp
      omega
    rw [← heh, ← hnum]
    exact hon

end

/-! ## Every committed batch -/

/-- The events of a committed batch are in the order of the chain. -/
theorem scanRange_ordered {checkpoint : Option ChainCheckpoint} {registered : List Address} {fromBlock toBlock : Nat}
    (h : scanRange V o N checkpoint registered fromBlock toBlock tr = .ok (batch, tr')) : Ordered batch := by
  obtain ⟨logs, tr₁, -, he, -⟩ := scanRange_ok h
  unfold Ordered
  rw [he]
  exact List.pairwise_insertionSort _ _

/-! ## A reorganisation between the anchors -/

end Cpredict.Indexer
