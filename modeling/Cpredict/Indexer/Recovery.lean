import Cpredict.Indexer.History

/-!
# Recovery

Against a chain that stays as it is and reaches the checkpoint's number, `reconcileCheckpoint` finds a stored block of
that chain wherever it looks, and what it leaves lies on that chain.
-/

namespace Cpredict.Indexer

open Outcome BlockTree EventStore

variable {N : Node} {C : ChainData} {checkpoint : ChainCheckpoint} {deployment : Nat} {head : Bytes32} {tr tr' : Trace}

/-- The stored block of a number is on the chain that ends in `head`. -/
def Matches (T : Blocks Bytes32) (C : ChainData) (head : Bytes32) (n : Nat) : Prop :=
  ∃ b, C.blocks n = some b ∧ blockAt T head n = some b.blockHash

/-- A header that the node has. -/
theorem readBlock_of_le (hh : ∀ k, N.heads k = head) {n : Nat} (hn : n ≤ N.archive.tree.number head) (tr : Trace)
    (purpose : BlockHeaderReadPurpose) :
    ∃ b tr', N.readBlock tr n purpose = .ok (b, tr') ∧ blockAt N.archive.tree head n = some b.hash := by
  obtain ⟨g, hg⟩ := exists_blockAt hn
  refine ⟨⟨g, N.archive.tree.parent g, N.archive.timestamp g⟩, _, Node.readBlock_eq_ok.mpr ⟨?_, rfl, rfl, rfl⟩, hg⟩
  rw [Node.headAt, hh]
  exact hg

/-- The walk down over stored blocks ends, at a block of the chain or below its base. -/
theorem descend_ok (checkpoint : ChainCheckpoint) (hh : ∀ k, N.heads k = head) {base n : Nat}
    (hb : ∀ m, base ≤ m → m < base + n → ∃ b, C.blocks m = some b)
    (hn : base + n ≤ N.archive.tree.number head + 1) (tr : Trace) :
    ∃ found tr', descend N C checkpoint base n tr = .ok (found, tr') ∧
      ∀ m ∈ found, base ≤ m ∧ m < base + n ∧ Matches N.archive.tree C head m := by
  induction n generalizing tr with
  | zero => exact ⟨none, tr, rfl, fun m hm => (Option.not_mem_none m hm).elim⟩
  | succ n ih =>
    obtain ⟨b, hs⟩ := hb (base + n) (by omega) (by omega)
    obtain ⟨c, tr₁, hr, hc⟩ := readBlock_of_le hh (n := base + n) (by omega) tr
      (if base + n = checkpoint.blockNumber then .fence else .recovery)
    have hstep : descend N C checkpoint base (n + 1) tr =
        if c.hash = b.blockHash then .ok (some (base + n), tr₁) else descend N C checkpoint base n tr₁ := by
      simp only [descend, ChainData.canonicalBlock, hs, Option.elim_some, ok_bind, hr]
    by_cases he : c.hash = b.blockHash
    · refine ⟨some (base + n), tr₁, by rw [hstep, if_pos he], ?_⟩
      intro m hm
      obtain rfl := Option.some.inj hm
      exact ⟨by omega, by omega, b, hs, he ▸ hc⟩
    · obtain ⟨found, tr₂, hf, hm⟩ := ih (fun m h₁ h₂ => hb m h₁ (by omega)) (by omega) tr₁
      refine ⟨found, tr₂, by rw [hstep, if_neg he, hf], ?_⟩
      intro m hmem
      obtain ⟨h₁, h₂, h₃⟩ := hm m hmem
      exact ⟨h₁, by omega, h₃⟩

/-- A number that is the end of a range, or lies in a dense one. -/
def InRange (C : ChainData) (m : Nat) : Prop :=
  ∃ r ∈ C.ranges, m = r.toBlock ∨ r.mode = .dense ∧ r.fromBlock ≤ m ∧ m ≤ r.toBlock

/-- The loop over the ranges ends, with a block of the chain that ends a range or lies in a dense one. -/
theorem searchRanges_ok (hs : Sound N.archive.tree deployment C checkpoint) (hh : ∀ k, N.heads k = head)
    (hle : checkpoint.blockNumber ≤ N.archive.tree.number head) {ranges : List CanonicalScanRange}
    (hr : ∀ r ∈ ranges, r ∈ C.ranges) (tr : Trace) :
    ∃ found tr', searchRanges N C checkpoint ranges tr = .ok (found, tr') ∧
      ∀ m ∈ found, Matches N.archive.tree C head m ∧ InRange C m := by
  induction ranges generalizing tr with
  | nil => exact ⟨none, tr, rfl, fun m hm => (Option.not_mem_none m hm).elim⟩
  | cons r rest ih =>
    have ih := ih fun r hr' => hr r (List.mem_cons_of_mem _ hr')
    have hrm := hr r List.mem_cons_self
    have hrs := hs.ranges r hrm
    have hbelow := hrs.below
    obtain ⟨b, hb, hbe⟩ := hasBlock_iff.mp hrs.endpoint
    obtain ⟨c, tr₁, hread, hc⟩ := readBlock_of_le hh (hbelow.trans hle) tr
      (if r.toBlock = checkpoint.blockNumber then .fence else .recovery)
    have hstep : searchRanges N C checkpoint (r :: rest) tr =
        if c.hash = r.endBlockHash then .ok (some r.toBlock, tr₁)
        else if r.mode = .dense then
          descend N C checkpoint r.fromBlock (r.toBlock - r.fromBlock) tr₁ >>= fun x =>
            if x.1 = none then searchRanges N C checkpoint rest x.2 else .ok x
        else searchRanges N C checkpoint rest tr₁ := by
      simp only [searchRanges, if_neg (Nat.not_lt.mpr hbelow), hrs.endpoint, Bool.true_eq_false, not_false_eq_true,
        revertIf_neg, ok_bind, hread]
    rw [hstep]
    by_cases he : c.hash = r.endBlockHash
    · refine ⟨some r.toBlock, tr₁, if_pos he, ?_⟩
      intro m hm
      obtain rfl := Option.some.inj hm
      exact ⟨⟨b, hb, by rw [hbe, ← he]; exact hc⟩, r, hrm, .inl rfl⟩
    · rw [if_neg he]
      by_cases hd : r.mode = .dense
      · rw [if_pos hd]
        have hnonempty := hrs.nonempty
        obtain ⟨found, tr₂, hf, hm⟩ := descend_ok checkpoint hh
          (n := r.toBlock - r.fromBlock) (fun m h₁ h₂ => hrs.dense hd m h₁ (by omega)) (by omega) tr₁
        rw [hf, ok_bind]
        cases found with
        | none => exact ih tr₂
        | some m =>
          refine ⟨some m, tr₂, rfl, ?_⟩
          intro m' hm'
          obtain rfl := Option.some.inj hm'
          obtain ⟨h₁, h₂, h₃⟩ := hm m rfl
          exact ⟨h₃, r, hrm, .inr ⟨hd, h₁, by omega⟩⟩
      · rw [if_neg hd]
        exact ih tr₁

/-- A number that ends a range or lies in a dense one is not inside a sparse one. -/
theorem InRange.rollbackPoint {m : Nat} (h : InRange C m) (hs : Sound N.archive.tree deployment C checkpoint) :
    RollbackPoint C (some m) := by
  intro n hn q hq h₁ h₂
  obtain rfl := Option.some.inj hn
  obtain ⟨r, hr, h⟩ := h
  have hrs := (hs.ranges r hr).nonempty
  rcases hs.apart hr hq with rfl | ha | ha
  · rcases h with h | h
    · omega
    · exact h.1
  · rcases h with h | h <;> omega
  · rcases h with h | h <;> omega

/-! ## The order of the ranges -/

theorem mem_scanRanges {r : CanonicalScanRange} : r ∈ C.scanRanges ↔ r ∈ C.ranges := List.mem_insertionSort _

/-- The newest range comes first. -/
theorem scanRanges_pairwise (C : ChainData) : C.scanRanges.Pairwise fun a b => b.toBlock ≤ a.toBlock := by
  have : Std.Total fun a b : CanonicalScanRange => b.toBlock ≤ a.toBlock :=
    ⟨fun a b => Nat.le_total b.toBlock a.toBlock⟩
  have : IsTrans CanonicalScanRange fun a b => b.toBlock ≤ a.toBlock := ⟨fun _ _ _ hab hbc => hbc.trans hab⟩
  exact List.pairwise_insertionSort _ _

/-- The last one is the oldest: every other range starts behind it. -/
theorem fromBlock_last_le (hs : Sound N.archive.tree deployment C checkpoint) {oldest r : CanonicalScanRange}
    (ho : C.scanRanges.getLast? = some oldest) (hr : r ∈ C.ranges) : oldest.fromBlock ≤ r.fromBlock := by
  have hmem : oldest ∈ C.ranges := mem_scanRanges.mp (List.mem_of_getLast? ho)
  have hle : oldest.toBlock ≤ r.toBlock := by
    obtain ⟨init, hi⟩ := List.getLast?_eq_some_iff.mp ho
    have hp := scanRanges_pairwise C
    have hr' := mem_scanRanges.mpr hr
    rw [hi] at hp hr'
    rcases List.mem_append.mp hr' with h | h
    · exact (List.pairwise_append.mp hp).2.2 r h oldest (List.mem_singleton.mpr rfl)
    · rw [List.mem_singleton.mp h]
  have hos := (hs.ranges oldest hmem).nonempty
  have hrs := (hs.ranges r hr).nonempty
  rcases hs.apart hmem hr with rfl | h | h <;> omega

/-- Below where the search below the oldest range starts, every block is there. -/
theorem fallbackStart_base (hs : Sound N.archive.tree deployment C checkpoint) {cursor : Nat}
    (hc : fallbackStart checkpoint C.scanRanges = some cursor) :
    cursor ≤ checkpoint.blockNumber ∧ ∀ r ∈ C.ranges, cursor < r.fromBlock := by
  unfold fallbackStart at hc
  cases ho : C.scanRanges.getLast? with
  | none =>
    rw [ho] at hc
    obtain rfl := Option.some.inj hc
    refine ⟨le_rfl, ?_⟩
    intro r hr
    rw [List.getLast?_eq_none_iff] at ho
    have := mem_scanRanges.mpr hr
    rw [ho] at this
    cases this
  | some oldest =>
    rw [ho] at hc
    obtain ⟨p, hp, rfl⟩ := Option.map_eq_some_iff.mp hc
    have hmem : oldest ∈ C.ranges := mem_scanRanges.mp (List.mem_of_getLast? ho)
    have hos := hs.ranges oldest hmem
    have hn := hos.next p hp
    have hne := hos.nonempty
    have hb := hos.below
    refine ⟨by omega, ?_⟩
    intro r hr
    have := fromBlock_last_le hs ho hr
    omega

/-- The search ends, at a block of the chain to which the store can be rolled back. -/
theorem commonAncestor_ok (hs : Sound N.archive.tree deployment C checkpoint) (hh : ∀ k, N.heads k = head)
    (hle : checkpoint.blockNumber ≤ N.archive.tree.number head) (tr : Trace) :
    ∃ found tr', commonAncestor N C checkpoint deployment tr = .ok (found, tr') ∧
      ∀ m ∈ found, Matches N.archive.tree C head m ∧ RollbackPoint C (some m) := by
  obtain ⟨found, tr₁, hf, hm⟩ := searchRanges_ok hs hh hle (fun r hr => mem_scanRanges.mp hr) tr
  unfold commonAncestor
  rw [hf, ok_bind]
  cases found with
  | some n =>
    refine ⟨some n, tr₁, rfl, ?_⟩
    intro m hmem
    obtain ⟨hmatch, hin⟩ := hm m hmem
    exact ⟨hmatch, hin.rollbackPoint hs⟩
  | none =>
    cases hc : fallbackStart checkpoint C.scanRanges with
    | none => exact ⟨none, tr₁, rfl, fun m hm => (Option.not_mem_none m hm).elim⟩
    | some cursor =>
      obtain ⟨hcur, hbase⟩ := fallbackStart_base hs hc
      obtain ⟨found, tr₂, hd, hm⟩ := descend_ok checkpoint hh
        (n := cursor + 1 - deployment)
        (fun m h₁ h₂ => hs.base m h₁ (by omega) fun r hr => (by omega : m < cursor + 1).trans_le (hbase r hr))
        (by have := hs.tip; obtain ⟨b, hb, -⟩ := hasBlock_iff.mp this; have := (hs.blocks _ b hb).1; omega) tr₁
      refine ⟨found, tr₂, hd, ?_⟩
      intro m hmem
      obtain ⟨h₁, h₂, hmatch⟩ := hm m hmem
      refine ⟨hmatch, ?_⟩
      intro n hn r hr hle' _
      obtain rfl := Option.some.inj hn
      have := hbase r hr
      omega

/-- The store lies on the chain that ends in `head`, in ranges that are disjoint and end at or below the checkpoint. -/
structure Canonical (T : Blocks Bytes32) (head : Bytes32) (C : ChainData) : Prop where
  checkpoint : ∀ c ∈ C.checkpoint, blockAt T head c.blockNumber = some c.blockHash
  blocks : ∀ n b, C.blocks n = some b → blockAt T head n = some b.blockHash
  endpoints : ∀ r ∈ C.ranges, blockAt T head r.toBlock = some r.endBlockHash
  events : ∀ e ∈ C.events, blockAt T head e.blockNumber = some e.blockHash
  nonempty : ∀ r ∈ C.ranges, r.fromBlock ≤ r.toBlock
  disjoint : C.ranges.Pairwise fun a b => a.toBlock < b.fromBlock
  below : ∀ r ∈ C.ranges, ∃ c, C.checkpoint = some c ∧ r.toBlock ≤ c.blockNumber

theorem Sound.canonical {T : Blocks Bytes32} (hs : Sound T deployment C checkpoint)
    (hc : C.checkpoint = some checkpoint)
    (hb : blockAt T head checkpoint.blockNumber = some checkpoint.blockHash) : Canonical T head C := by
  have hon : On T checkpoint.blockHash head := on_of_blockAt hb
  have hblocks : ∀ n b, C.blocks n = some b → blockAt T head n = some b.blockHash := by
    intro n b h
    obtain ⟨-, hn, ho⟩ := hs.blocks n b h
    have := ho.trans hon
    rwa [On, hn] at this
  have hstored : ∀ n hash, C.hasBlock n hash = true → blockAt T head n = some hash := by
    intro n hash h
    obtain ⟨b, hb', rfl⟩ := hasBlock_iff.mp h
    exact hblocks n b hb'
  refine ⟨?_, hblocks, ?_, ?_, ?_, hs.ordered, ?_⟩
  · intro c h
    rw [hc] at h
    obtain rfl := Option.some.inj h
    exact hb
  · intro r hr
    exact hstored _ _ (hs.ranges r hr).endpoint
  · intro e he
    exact hstored _ _ (hs.events e he)
  · intro r hr
    exact (hs.ranges r hr).nonempty
  · intro r hr
    exact ⟨checkpoint, hc, (hs.ranges r hr).below⟩

theorem canonical_empty (T : Blocks Bytes32) (head : Bytes32) : Canonical T head .empty where
  checkpoint c hc := (Option.not_mem_none c hc).elim
  blocks _ b hb := (Option.not_mem_none b hb).elim
  endpoints _ hr := (List.not_mem_nil hr).elim
  events _ he := (List.not_mem_nil he).elim
  nonempty _ hr := (List.not_mem_nil hr).elim
  disjoint := List.Pairwise.nil
  below _ hr := (List.not_mem_nil hr).elim

/-- A checkpoint on the chain that ends a range is the first block to be compared. -/
theorem commonAncestor_of_tip (hs : Sound N.archive.tree deployment C checkpoint) (hh : ∀ k, N.heads k = head)
    (hb : blockAt N.archive.tree head checkpoint.blockNumber = some checkpoint.blockHash)
    (hr : ∃ r ∈ C.ranges, r.toBlock = checkpoint.blockNumber) (tr : Trace) :
    ∃ tr', commonAncestor N C checkpoint deployment tr = .ok (some checkpoint.blockNumber, tr') := by
  obtain ⟨r, hr, hrt⟩ := hr
  have hp := scanRanges_pairwise C
  cases hl : C.scanRanges with
  | nil =>
    have := mem_scanRanges.mpr hr
    rw [hl] at this
    cases this
  | cons q rest =>
    have hq : q ∈ C.ranges := mem_scanRanges.mp (hl ▸ List.mem_cons_self)
    have hqs := hs.ranges q hq
    have hqt : q.toBlock = checkpoint.blockNumber := by
      have hr' := mem_scanRanges.mpr hr
      rw [hl] at hr' hp
      have hbelow := hqs.below
      rcases List.mem_cons.mp hr' with rfl | hr'
      · exact hrt
      · have := (List.pairwise_cons.mp hp).1 r hr'
        omega
    have hend : q.endBlockHash = checkpoint.blockHash := by
      obtain ⟨b, hb₁, hb₂⟩ := hasBlock_iff.mp hqs.endpoint
      obtain ⟨c, hc₁, hc₂⟩ := hasBlock_iff.mp hs.tip
      rw [hqt, hc₁] at hb₁
      rw [← hb₂, ← hc₂, Option.some.inj hb₁]
    obtain ⟨c, tr₁, hread, hc⟩ := readBlock_of_le hh (le_of_blockAt hb) tr .fence
    rw [hb] at hc
    have hsearch : searchRanges N C checkpoint (q :: rest) tr = .ok (some checkpoint.blockNumber, tr₁) := by
      rw [searchRanges, hqt, hend, if_neg (lt_irrefl _), if_pos rfl, hread]
      simp only [hs.tip, Bool.true_eq_false, not_false_eq_true, revertIf_neg, ok_bind, ← Option.some.inj hc, if_true]
    refine ⟨tr₁, ?_⟩
    unfold commonAncestor
    rw [hl, hsearch]
    rfl

variable {Q : Type} {X : Projector Q} {S : EventStore Q}

/-- A rollback to a block of the chain of the node leaves what lies on it. -/
theorem EventStore.RolledBack.canonical {S' : EventStore Q} {c n : Nat} (hr : RolledBack X c S (some n) S')
    (hs : Sound N.archive.tree deployment (S.chains c) checkpoint) (hp : RollbackPoint (S.chains c) (some n))
    (hm : Matches N.archive.tree (S.chains c) head n) : Canonical N.archive.tree head (S'.chains c) := by
  obtain ⟨b, hb, hbh⟩ := hm
  obtain ⟨b', hb'⟩ := hr.cutAfter
  obtain ⟨p, hc', hcn, hch, hs'⟩ := hb'.sound hs hp
  refine hs'.canonical hc' ?_
  have hsame := hb'.block
  rw [hb] at hsame
  rw [hcn, hch, hbh, Option.some.inj hsame]

/-- **Recovery against a chain that stays as it is and reaches the checkpoint.** It ends, and what it leaves lies on
that chain; the store is left as it is if its checkpoint is on the chain and ends a range. -/
theorem recovery (X : Projector Q) (o : IndexerOptions)
    (h : ChainHistory X N.archive.tree o.deploymentBlock o.chainId S)
    (hh : ∀ k, N.heads k = head)
    (hle : ∀ c ∈ (S.chains o.chainId).checkpoint, c.blockNumber ≤ N.archive.tree.number head) (tr : Trace) :
    ∃ c S' tr', reconcileCheckpoint X o N S tr = .ok (c, S', tr') ∧ c = (S'.chains o.chainId).checkpoint ∧
      Canonical N.archive.tree head (S'.chains o.chainId) ∧
      ChainHistory X N.archive.tree o.deploymentBlock o.chainId S' ∧
      ∀ checkpoint ∈ (S.chains o.chainId).checkpoint,
        blockAt N.archive.tree head checkpoint.blockNumber = some checkpoint.blockHash →
        (∃ r ∈ (S.chains o.chainId).ranges, r.toBlock = checkpoint.blockNumber) → S' = S := by
  unfold reconcileCheckpoint
  cases hc : (S.chains o.chainId).checkpoint with
  | none =>
    refine ⟨none, S, tr, rfl, hc.symm, ?_, h, fun p hm => (Option.not_mem_none p hm).elim⟩
    rw [h.kept.eq_empty hc]
    exact canonical_empty _ _
  | some checkpoint =>
    have hs := h.kept.sound hc
    obtain ⟨found, tr₁, hf, hm⟩ := commonAncestor_ok hs hh (hle checkpoint hc) tr
    have htip : ∀ c ∈ some checkpoint, blockAt N.archive.tree head c.blockNumber = some c.blockHash →
        (∃ r ∈ (S.chains o.chainId).ranges, r.toBlock = c.blockNumber) → found = some checkpoint.blockNumber := by
      intro c hcm hb hr
      obtain rfl := Option.some.inj hcm
      obtain ⟨tr₂, hf'⟩ := commonAncestor_of_tip hs hh hb hr tr
      rw [hf] at hf'
      cases hf'
      rfl
    simp only [hf, ok_bind]
    by_cases he : found = some checkpoint.blockNumber
    · refine ⟨some checkpoint, S, tr₁, if_pos he, hc.symm, ?_, h, fun _ _ _ _ => rfl⟩
      obtain ⟨⟨b, hb, hbh⟩, -⟩ := hm _ he
      refine hs.canonical hc ?_
      obtain ⟨c, hc₁, hc₂⟩ := hasBlock_iff.mp hs.tip
      rw [hb] at hc₁
      rw [hbh, Option.some.inj hc₁, hc₂]
    · rw [if_neg he]
      -- the rollback succeeds, to nothing or to a stored block
      have hroll : ∃ S', S.rollbackAfter X o.chainId found = .ok S' := by
        cases found with
        | none => exact can_clear X S o.chainId
        | some n =>
          obtain ⟨⟨b, hb, -⟩, -⟩ := hm n rfl
          exact h.can_rollback hb
      obtain ⟨S', hS'⟩ := hroll
      have hr := rollbackAfter_iff.mp hS'
      have hp : RollbackPoint (S.chains o.chainId) found := by
        cases found with
        | none => exact fun n hn => (Option.not_mem_none n hn).elim
        | some n => exact (hm n rfl).2
      refine ⟨(S'.chains o.chainId).checkpoint, S', tr₁, ?_, rfl, ?_, .rollback h (fun _ => hp) hS',
        fun c hcm hb hr => absurd (htip c hcm hb hr) he⟩
      · rw [hS']
        rfl
      · cases found with
        | none =>
          rw [hr.chain_empty]
          exact canonical_empty _ _
        | some n => exact hr.canonical hs hp (hm n rfl).1

/-! ## Where recovery gets stuck -/

/-- Blocks without logs: `1000 * f + n` has the number `n` on the fork `f`, and the forks part after the number `2`. -/
def sampleArchive : Archive where
  tree :=
    { number := fun h => h % 1000
      parent := fun h => if h % 1000 ≤ 3 then h % 1000 - 1 else h - 1
      number_parent := by
        intro h hn
        split <;> omega }
  timestamp := fun h => h
  receipts := fun _ => []
  receipt_block := fun _ _ hr => (List.not_mem_nil hr).elim
  log_block := fun _ _ hr => (List.not_mem_nil hr).elim
  key_inj := fun _ _ _ _ _ _ hr => (List.not_mem_nil hr).elim

/-- A node whose chain ends in `head` all the time. -/
def sampleNode (head : Bytes32) : Node := ⟨sampleArchive, fun _ => head⟩

def sampleOptions : IndexerOptions := ⟨1, 1, 0, 5, .sparse, [addr 1], none, .timeV2, []⟩

/-- A transfer to the account `9`, and one from it in the log before. -/
def decodeTransfer (event : IndexedEvent) : Except ProjectionErr Memory.DecodedLog :=
  if event.logIndex = 0 then .ok (.TransferSingle (addr 9) (addr 8) 1 500) else .ok (.TransferSingle 0 (addr 9) 1 1000)

def sampleProjector : Projector Memory.Projections := Memory.projector decodeTransfer

def sampleAnchor (n : Nat) : CanonicalBlock := ⟨1, n, n, n - 1, n, .confirmed⟩

/-- A batch of blocks of the fork `0`, with the given anchors, and events in the last block. -/
def sampleBatch (mode : CanonicalMode) (predecessor : Option ChainCheckpoint) (fromBlock toBlock : Nat)
    (anchors logIndices : List Nat) : CanonicalBatch where
  range := ⟨1, fromBlock, toBlock, predecessor, toBlock, .confirmed, mode⟩
  anchors := anchors.map sampleAnchor
  events := logIndices.map fun logIndex => ⟨1, toBlock, toBlock, 77, 0, logIndex, addr 1, [], [], .confirmed⟩
  checkpoint := ⟨1, toBlock, toBlock⟩

/-- A batch of the blocks `1` to `5`. -/
def sampleRange (mode : CanonicalMode) (anchors : List Nat) : CanonicalBatch := sampleBatch mode none 1 5 anchors []

/-- A batch of the blocks up to the last one that the forks share. -/
def sharedBatch (logIndices : List Nat) : CanonicalBatch := sampleBatch .sparse none 1 2 [2] logIndices

/-- The batch after it. -/
def forkedBatch : CanonicalBatch := sampleBatch .sparse (some ⟨1, 2, 2⟩) 3 5 [5] []

theorem sharedBatch_onOneChain (logIndices : List Nat) : OnOneChain sampleArchive.tree (sharedBatch logIndices) where
  predecessor p hp := (Option.not_mem_none p hp).elim
  anchors a ha := by
    obtain rfl := List.mem_singleton.mp ha
    exact ⟨rfl, On.refl _⟩
  dense hd := by cases hd

theorem forkedBatch_onOneChain : OnOneChain sampleArchive.tree forkedBatch where
  predecessor p hp := by
    obtain rfl := Option.some.inj hp
    decide
  anchors := by decide
  dense hd := by cases hd

theorem sharedBatch_ordered : Ordered (sharedBatch [1]) := List.pairwise_singleton _ _

theorem forkedBatch_ordered : Ordered forkedBatch := List.Pairwise.nil

/-- After the blocks that the forks share and some of the fork `0`, recovery against the fork `1`. -/
theorem recovery_sample :
    ∃ S₁ S₂, (fresh sampleProjector).applyBatch sampleProjector (sharedBatch [1]) = .ok S₁ ∧
      S₁.applyBatch sampleProjector forkedBatch = .ok S₂ ∧
      ∃ c S' tr', reconcileCheckpoint sampleProjector sampleOptions (sampleNode 1006) S₂ [] = .ok (c, S', tr') ∧
        Canonical sampleArchive.tree 1006 (S'.chains 1) := by
  have hrun : ∃ S₁ S₂, (fresh sampleProjector).applyBatch sampleProjector (sharedBatch [1]) = .ok S₁ ∧
      S₁.applyBatch sampleProjector forkedBatch = .ok S₂ ∧ (S₁.chains 1).checkpoint = some ⟨1, 2, 2⟩ ∧
      (S₂.chains 1).checkpoint = some ⟨1, 5, 5⟩ := ⟨_, _, rfl, rfl, rfl, rfl⟩
  obtain ⟨S₁, S₂, h₁, h₂, hc₁, hc₂⟩ := hrun
  have hist₁ : ChainHistory sampleProjector sampleArchive.tree 1 1 S₁ :=
    .apply .fresh (fun _ => ⟨sharedBatch_onOneChain [1], sharedBatch_ordered⟩) (fun _ _ => rfl) h₁
  have hist₂ : ChainHistory sampleProjector sampleArchive.tree 1 1 S₂ := by
    refine .apply hist₁ (fun _ => ⟨forkedBatch_onOneChain, forkedBatch_ordered⟩) (fun _ hn => ?_) h₂
    rw [hc₁] at hn
    cases hn
  have hle : ∀ c ∈ (S₂.chains 1).checkpoint, c.blockNumber ≤ sampleArchive.tree.number 1006 := by
    rw [hc₂]
    decide
  obtain ⟨c, S', tr', hr, -, hc, -⟩ :=
    recovery (N := sampleNode 1006) sampleProjector sampleOptions hist₂ (fun _ => rfl) hle []
  exact ⟨S₁, S₂, h₁, h₂, c, S', tr', hr, hc⟩

theorem reconcileCheckpoint_error {o : IndexerOptions} {e : IndexerErr}
    (hc : (S.chains o.chainId).checkpoint = some checkpoint)
    (h : commonAncestor N (S.chains o.chainId) checkpoint o.deploymentBlock tr = .error e) :
    reconcileCheckpoint X o N S tr = .error e := by
  simp only [reconcileCheckpoint, hc, h, error_bind]

/-- A rollback that fails after an ancestor has been found. -/
theorem reconcileCheckpoint_rollback (found : Option Nat) {o : IndexerOptions} {e : IndexerErr}
    (hc : (S.chains o.chainId).checkpoint = some checkpoint)
    (h : ∃ tr', commonAncestor N (S.chains o.chainId) checkpoint o.deploymentBlock tr = .ok (found, tr'))
    (hne : found ≠ some checkpoint.blockNumber) (hr : S.rollbackAfter X o.chainId found = .error e) :
    reconcileCheckpoint X o N S tr = .error e := by
  obtain ⟨tr', h⟩ := h
  simp only [reconcileCheckpoint, hc, h, ok_bind, if_neg hne, hr, error_bind]

/-- Recovery is stuck on a chain that does not reach the checkpoint; in a dense range that lacks a block, which
`applyBatch` accepts; after a rollback into a sparse range; and when the events of a batch, which `applyBatch`
accepts in any order, cannot be projected in the order of the chain. -/
theorem recovery_stuck :
    (∃ S, (fresh sampleProjector).applyBatch sampleProjector (sampleRange .sparse [5]) = .ok S ∧
      reconcileCheckpoint sampleProjector sampleOptions (sampleNode 2) S [] = .error (.blockNotFound 5)) ∧
    (∃ S, (fresh sampleProjector).applyBatch sampleProjector (sampleRange .dense [5]) = .ok S ∧
      reconcileCheckpoint sampleProjector sampleOptions (sampleNode 1006) S [] = .error (.missingCanonicalBlock 4)) ∧
    (∃ S S', (fresh sampleProjector).applyBatch sampleProjector (sampleRange .sparse [4, 5]) = .ok S ∧
      S.rollbackAfter sampleProjector 1 (some 4) = .ok S' ∧
      reconcileCheckpoint sampleProjector sampleOptions (sampleNode 1006) S' [] = .error (.missingCanonicalBlock 3)) ∧
    ∃ S S', (fresh sampleProjector).applyBatch sampleProjector (sharedBatch [1, 0]) = .ok S ∧
      S.applyBatch sampleProjector forkedBatch = .ok S' ∧
      reconcileCheckpoint sampleProjector sampleOptions (sampleNode 1006) S' [] =
        .error (.projection .negativePosition) := by
  exact ⟨⟨_, rfl, reconcileCheckpoint_error rfl rfl⟩, ⟨_, rfl, reconcileCheckpoint_error rfl rfl⟩,
    ⟨_, _, rfl, rfl, reconcileCheckpoint_error rfl rfl⟩, _, _, rfl, rfl,
    reconcileCheckpoint_rollback (some 2) rfl ⟨_, rfl⟩ (by decide) rfl⟩

end Cpredict.Indexer
