import Cpredict.Lib.Outcome
import Cpredict.Types
import Mathlib.Data.List.Sort

/-!
# The canonical data of a chain

What the stores of the indexer keep of one chain besides the projections of its events: the checkpoint, the scan
ranges, the blocks and the events, with the checks on a batch that is added.
-/

namespace Cpredict.Indexer

open Outcome

inductive ConfirmationStatus
  | provisional
  | confirmed
deriving DecidableEq

inductive CanonicalMode
  | dense
  | sparse
deriving DecidableEq

structure IndexedEvent where
  chainId : Nat
  blockNumber : Nat
  blockHash : Bytes32
  transactionHash : Bytes32
  transactionIndex : Nat
  logIndex : Nat
  address : Address
  topics : List Bytes32
  data : Bytes
  confirmationStatus : ConfirmationStatus
deriving DecidableEq

structure CanonicalBlock where
  chainId : Nat
  blockNumber : Nat
  blockHash : Bytes32
  parentHash : Bytes32
  timestamp : Nat
  confirmationStatus : ConfirmationStatus
deriving DecidableEq

structure ChainCheckpoint where
  chainId : Nat
  blockNumber : Nat
  blockHash : Bytes32
deriving DecidableEq

structure CanonicalScanRange where
  chainId : Nat
  fromBlock : Nat
  toBlock : Nat
  predecessor : Option ChainCheckpoint
  endBlockHash : Bytes32
  confirmationStatus : ConfirmationStatus
  mode : CanonicalMode
deriving DecidableEq

structure CanonicalBatch where
  range : CanonicalScanRange
  anchors : List CanonicalBlock
  events : List IndexedEvent
  checkpoint : ChainCheckpoint
deriving DecidableEq

/-- What the projections throw. -/
inductive ProjectionErr
  | undecodableLog
  | batchLengthMismatch
  | invalidVoidReason (reason : Nat)
  | metadataOfUnknownMarket (market : Address)
  | purchaseOfUnknownMarket (market : Address)
  | terminalOfUnknownMarket (market : Address)
  | fillOfUnknownListing (listingId : Bytes32)
  | closeOfUnknownListing (listingId : Bytes32)
  | negativePosition
  | positionDebit
deriving DecidableEq

/-- What the stores and the indexer throw, by its message, and what the RPC client throws for a block it has not got. -/
inductive IndexerErr
  | emptyRange
  | checkpointMismatch
  | predecessorNotContiguous
  | anchorOutsideRange
  | conflictingAnchors
  | missingEndpointAnchor
  | eventHashMismatch
  | unexpectedPredecessor
  | notContinuing
  | overlappingRange
  | hashConflict (block : Nat)
  | eventOffCanonical (block : Nat)
  | checkpointNotPersisted
  | missingAncestor
  | missingRangeEndpoint (block : Nat)
  | missingCanonicalBlock (block : Nat)
  | blockNotFound (block : Nat)
  | lineageChanged (block : Nat)
  | eventsOffBatch
  | fenceChanged
  | undecodableLog
  | receiptNotFound
  | receiptMismatch
  | receiptInconsistent
  | creationIncomplete
  | projection (e : ProjectionErr)
deriving DecidableEq

/-! ## validateCanonicalBatch -/

/-- The loop over the anchors, with those already seen. -/
def checkAnchors (range : CanonicalScanRange) : List CanonicalBlock → (Nat → Option Bytes32) →
    Except IndexerErr (Nat → Option Bytes32)
  | [], seen => .ok seen
  | anchor :: rest, seen => do
    revertIf (anchor.chainId ≠ range.chainId ∨ anchor.blockNumber < range.fromBlock ∨
      range.toBlock < anchor.blockNumber ∨
      anchor.confirmationStatus ≠ range.confirmationStatus) .anchorOutsideRange
    revertIf (∃ previous ∈ seen anchor.blockNumber, previous ≠ anchor.blockHash) .conflictingAnchors
    checkAnchors range rest (Function.update seen anchor.blockNumber (some anchor.blockHash))

def validateCanonicalBatch (batch : CanonicalBatch) : Except IndexerErr Unit := do
  let range := batch.range
  revertIf (range.toBlock < range.fromBlock) .emptyRange
  revertIf (batch.checkpoint.chainId ≠ range.chainId ∨ batch.checkpoint.blockNumber ≠ range.toBlock ∨
    batch.checkpoint.blockHash ≠ range.endBlockHash) .checkpointMismatch
  revertIf (∃ p ∈ range.predecessor, p.chainId ≠ range.chainId ∨ p.blockNumber + 1 ≠ range.fromBlock)
    .predecessorNotContiguous
  let anchors ← checkAnchors range batch.anchors fun _ => none
  revertIf (anchors range.toBlock ≠ some range.endBlockHash) .missingEndpointAnchor
  revertIf (∃ e ∈ batch.events, e.chainId ≠ range.chainId ∨ e.blockNumber < range.fromBlock ∨
    range.toBlock < e.blockNumber ∨ e.confirmationStatus ≠ range.confirmationStatus ∨
    anchors e.blockNumber ≠ some e.blockHash) .eventHashMismatch

/-! ## The data -/

/-- `compareEvents` -/
def eventLe (a b : IndexedEvent) : Bool :=
  if a.blockNumber ≠ b.blockNumber then a.blockNumber < b.blockNumber
  else if a.transactionIndex ≠ b.transactionIndex then a.transactionIndex < b.transactionIndex
  else a.logIndex ≤ b.logIndex

structure ChainData where
  checkpoint : Option ChainCheckpoint
  /-- In the order of insertion. -/
  ranges : List CanonicalScanRange
  blocks : Nat → Option CanonicalBlock
  events : List IndexedEvent

namespace ChainData

def empty : ChainData := ⟨none, [], fun _ => none, []⟩

/-- `scanRanges`: the newest range first. -/
def scanRanges (C : ChainData) : List CanonicalScanRange :=
  C.ranges.insertionSort fun a b => b.toBlock ≤ a.toBlock

def canonicalBlock (C : ChainData) (n : Nat) : Option CanonicalBlock := C.blocks n

/-- `eventKey` -/
def sameKey (a b : IndexedEvent) : Bool := a.transactionHash = b.transactionHash && a.logIndex = b.logIndex

/-- Whether the stored block of a number has a hash. -/
def hasBlock (C : ChainData) (n : Nat) (hash : Bytes32) : Bool := (C.blocks n).map CanonicalBlock.blockHash = some hash

/-- An anchor whose number has a block with its hash replaces the block, or leaves it as it is. -/
def putBlock (overwrites : Bool) (blocks : Nat → Option CanonicalBlock) (anchor : CanonicalBlock) :
    Nat → Option CanonicalBlock :=
  if overwrites = true ∨ blocks anchor.blockNumber = none then
    Function.update blocks anchor.blockNumber (some anchor)
  else blocks

/-- The loop over the anchors. -/
def putBlocks (overwrites : Bool) : List CanonicalBlock → ChainData → Except IndexerErr ChainData
  | [], C => .ok C
  | anchor :: rest, C => do
    revertIf (∃ current ∈ C.blocks anchor.blockNumber, current.blockHash ≠ anchor.blockHash)
      (.hashConflict anchor.blockNumber)
    putBlocks overwrites rest { C with blocks := putBlock overwrites C.blocks anchor }

/-- A batch continues the checkpoint. -/
def checkContinues (current : Option ChainCheckpoint) (range : CanonicalScanRange) : Except IndexerErr Unit :=
  match current with
  | none => revertIf (range.predecessor ≠ none) .unexpectedPredecessor
  | some current =>
    revertIf (range.predecessor.map ChainCheckpoint.blockNumber ≠ some current.blockNumber ∨
      range.predecessor.map ChainCheckpoint.blockHash ≠ some current.blockHash ∨
      range.fromBlock ≠ current.blockNumber + 1) .notContinuing

/-- Whether data at a block survives a rollback. -/
def keeps (ancestor : Option Nat) (n : Nat) : Bool := ancestor.any fun a => n ≤ a

/-- What a rollback leaves, before it sets the checkpoint. -/
def removeAfter (ancestor : Option Nat) (C : ChainData) : ChainData where
  checkpoint := none
  ranges := C.ranges.filter fun r => keeps ancestor r.toBlock
  blocks := fun n => if keeps ancestor n = true then C.blocks n else none
  events := C.events.filter fun e => keeps ancestor e.blockNumber

/-- The checkpoint at the block of a rollback. -/
def ancestorCheckpoint (chainId : Nat) (C : ChainData) : Option Nat → Except IndexerErr (Option ChainCheckpoint)
  | none => .ok none
  | some n =>
    match C.blocks n with
    | none => .error .missingAncestor
    | some block => .ok (some ⟨chainId, n, block.blockHash⟩)

/-- The first block that has not been scanned. -/
def next (C : ChainData) : Nat := C.checkpoint.elim 0 fun c => c.blockNumber + 1

end ChainData

end Cpredict.Indexer
