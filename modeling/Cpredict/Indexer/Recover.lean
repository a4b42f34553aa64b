import Cpredict.Indexer.EventStore
import Cpredict.Indexer.Node

/-!
# reconcileCheckpoint

Before a batch the indexer looks for the newest stored block that is still on the chain of the node: among the ends of
the ranges, newest first, inside the dense ones, and below the oldest range. Everything above it is rolled back.
-/

namespace Cpredict.Indexer

open Outcome

inductive ProtocolVersion
  | legacyV1
  | timeV2
deriving DecidableEq

structure IndexerOptions where
  chainId : Nat
  deploymentBlock : Nat
  confirmations : Nat
  batchSize : Nat
  canonicalMode : CanonicalMode
  addresses : List Address
  factoryAddress : Option Address
  protocol : ProtocolVersion
  /-- The filters of the queries that `financial` adds, one for each query. -/
  accountFilters : List (Log → Bool)

section

variable (N : Node) (C : ChainData) (checkpoint : ChainCheckpoint)

/-- The blocks from `base + n - 1` down to `base`: the first one that is still on the chain of the node. -/
def descend (base : Nat) : Nat → Trace → Except IndexerErr (Option Nat × Trace)
  | 0, tr => .ok (none, tr)
  | n + 1, tr => do
    let stored ← (C.canonicalBlock (base + n)).elim (.error (.missingCanonicalBlock (base + n))) .ok
    let (canonical, tr) ← N.readBlock tr (base + n) (if base + n = checkpoint.blockNumber then .fence else .recovery)
    if canonical.hash = stored.blockHash then .ok (some (base + n), tr) else descend base n tr

/-- The loop over the ranges. -/
def searchRanges : List CanonicalScanRange → Trace → Except IndexerErr (Option Nat × Trace)
  | [], tr => .ok (none, tr)
  | range :: rest, tr =>
    if checkpoint.blockNumber < range.toBlock then searchRanges rest tr
    else do
      revertIf (C.hasBlock range.toBlock range.endBlockHash = false) (.missingRangeEndpoint range.toBlock)
      let (canonical, tr) ← N.readBlock tr range.toBlock
        (if range.toBlock = checkpoint.blockNumber then .fence else .recovery)
      if canonical.hash = range.endBlockHash then .ok (some range.toBlock, tr)
      else if range.mode = .dense then do
        let (found, tr) ← descend N C checkpoint range.fromBlock (range.toBlock - range.fromBlock) tr
        if found = none then searchRanges rest tr else .ok (found, tr)
      else searchRanges rest tr

/-- Where the search below the oldest range starts. -/
def fallbackStart (ranges : List CanonicalScanRange) : Option Nat :=
  match ranges.getLast? with
  | none => some checkpoint.blockNumber
  | some oldest => oldest.predecessor.map ChainCheckpoint.blockNumber

/-- The newest stored block that is found on the chain of the node. -/
def commonAncestor (deploymentBlock : Nat) (tr : Trace) : Except IndexerErr (Option Nat × Trace) := do
  let (found, tr) ← searchRanges N C checkpoint C.scanRanges tr
  if found = none then
    match fallbackStart checkpoint C.scanRanges with
    | none => .ok (none, tr)
    | some cursor => descend N C checkpoint deploymentBlock (cursor + 1 - deploymentBlock) tr
  else .ok (found, tr)

end

/-- `reconcileCheckpoint`: the checkpoint, and the store that is left. -/
def reconcileCheckpoint {Q : Type} (X : Projector Q) (o : IndexerOptions) (N : Node) (S : EventStore Q) (tr : Trace) :
    Except IndexerErr (Option ChainCheckpoint × EventStore Q × Trace) :=
  match (S.chains o.chainId).checkpoint with
  | none => .ok (none, S, tr)
  | some checkpoint => do
    let (ancestor, tr) ← commonAncestor N (S.chains o.chainId) checkpoint o.deploymentBlock tr
    if ancestor = some checkpoint.blockNumber then .ok (some checkpoint, S, tr)
    else do
      let S ← S.rollbackAfter X o.chainId ancestor
      .ok ((S.chains o.chainId).checkpoint, S, tr)

end Cpredict.Indexer
