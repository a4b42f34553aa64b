import Cpredict.Indexer.Recover

/-!
# runBatch

One batch: the logs of a range are fetched in several queries, then the headers of its anchors, then the end of the
range once more, and the batch is committed. What the decoder of event logs accepts is a parameter.
-/

namespace Cpredict.Indexer

open Outcome

/-! ## Markets in the logs -/

/-- `MarketCreated(address,address,uint8,address,bytes32,bytes32,uint256,uint256,uint256)` -/
def MARKET_CREATED : Bytes32 := 0xf5c66a4b8da9f7f616b22463ad33e896c239b0b2d988a6b1869f6a46cabc32d2

/-- `MarketInitialized(address,address,uint8,uint8,uint64,uint64,uint64,uint64,uint64,uint128,uint128)` -/
def MARKET_INITIALIZED : Bytes32 := 0x631d1e425c542a0ab6438449debbcf8c548fd7253d3c940784b39a55151d9529

/-- `MarketMetadataUpdated(bytes32,string,bytes32,string,uint64,uint64,uint64,address,uint256)` -/
def MARKET_METADATA_UPDATED : Bytes32 := 0x26a635029b7797d7440e850d66b8c3bf4a6ed3527bc9493d18e3474dea9df401

/-- The same events of the legacy protocol. -/
def LEGACY_MARKET_INITIALIZED : Bytes32 := 0xceb266feee4d19aa4d598018167bc98ee9cbec37dcfbab456631dc871443ba79

def LEGACY_MARKET_METADATA_UPDATED : Bytes32 := 0x1a58fa99974faff6ed577dae420cfac247f741b6a2b5133dae15936c88634810

/-- The changes that concern the creation of a market. -/
inductive DerivedMutation
  | marketCreated (market : Address)
  | marketInitialized (market : Address)
  | marketMetadata (market : Address)
deriving DecidableEq

/-- Whether the decoder accepts a log, by the events of a protocol. It accepts the logs whose topic it does not know. -/
abbrev Decoder := ProtocolVersion → Log → Bool

/-- The indexed address at a place of the topics. -/
def Log.indexed (l : Log) (i : Nat) : Address := addr (l.topics.getD i 0)

/-- `deriveMutations`, but for the changes that have nothing to do with the creation of a market. -/
def deriveMutations (V : Decoder) (protocol : ProtocolVersion) (l : Log) : Except IndexerErr (List DerivedMutation) :=
  match l.topics with
  | [] => .ok []
  | topic :: _ => do
    revertIf (V protocol l = false) .undecodableLog
    if topic = MARKET_CREATED then .ok [.marketCreated (l.indexed 1)]
    else if topic = MARKET_INITIALIZED ∨ protocol = .legacyV1 ∧ topic = LEGACY_MARKET_INITIALIZED then
      .ok [.marketInitialized (l.indexed 1)]
    else if topic = MARKET_METADATA_UPDATED ∨ protocol = .legacyV1 ∧ topic = LEGACY_MARKET_METADATA_UPDATED then
      .ok [.marketMetadata l.address]
    else .ok []

/-- The market that a log creates. -/
def Log.created (l : Log) : Option Address := if l.topics.head? = some MARKET_CREATED then some (l.indexed 1) else none

/-- The market of a list of mutations that creates one. -/
def createdIn (ms : List DerivedMutation) : List Address :=
  ms.filterMap fun
    | .marketCreated market => some market
    | _ => none

def discoverMarketAddresses (V : Decoder) : List Log → Except IndexerErr (List Address)
  | [] => .ok []
  | l :: rest => do
    let ms ← deriveMutations V .timeV2 l
    let markets ← discoverMarketAddresses V rest
    .ok (createdIn ms ++ markets)

/-! ## deduplicateLogs -/

/-- `result.set(key, log)` -/
def setLog (l : Log) : List Log → List Log
  | [] => [l]
  | m :: rest => if m.key = l.key then l :: rest else m :: setLog l rest

def deduplicateLogs (logs : List Log) : List Log := logs.foldl (fun result l => setLog l result) []

/-! ## completeMarketCreationLogs -/

/-- The logs that belong to a creation of a market. -/
def ofCreation (creation : Log) (market : Address) (l : Log) : Bool :=
  l.address = market && l.transactionHash = creation.transactionHash && l.blockHash = creation.blockHash
    && l.blockNumber = creation.blockNumber

/-- All mutations of some logs. -/
def mutationsOf (V : Decoder) (protocol : ProtocolVersion) : List Log → Except IndexerErr (List DerivedMutation)
  | [] => .ok []
  | l :: rest => do
    let ms ← deriveMutations V protocol l
    let more ← mutationsOf V protocol rest
    .ok (ms ++ more)

/-- `complete` -/
def isComplete (V : Decoder) (protocol : ProtocolVersion) (result : List Log) (creation : Log) (market : Address) :
    Except IndexerErr Bool := do
  let ms ← mutationsOf V protocol (result.filter (ofCreation creation market))
  .ok (ms.contains (.marketInitialized market) && ms.contains (.marketMetadata market))

/-- The receipt is that of the creation. -/
def ofReceipt (factory : Address) (creation : Log) (r : Receipt) : Bool :=
  r.success && r.transactionHash = creation.transactionHash && r.blockHash = creation.blockHash
    && r.blockNumber = creation.blockNumber
    && r.logs.any fun l => l.address = factory && l.logIndex = creation.logIndex && l.data = creation.data
      && l.topics = creation.topics

section

variable (V : Decoder) (o : IndexerOptions) (N : Node)

/-- The loop over the creations. -/
def completeCreations (factory : Address) : List (Log × Address) → List Log → Trace →
    Except IndexerErr (List Log × Trace)
  | [], result, tr => .ok (result, tr)
  | (creation, market) :: rest, result, tr => do
    let complete ← isComplete V o.protocol result creation market
    if complete = true then completeCreations factory rest result tr
    else do
      let (r, tr) ← N.getTransactionReceipt tr creation.transactionHash market
      revertIf (ofReceipt factory creation r = false) .receiptMismatch
      let more := r.logs.filter fun l => l.address = market
      revertIf (∃ l ∈ more, l.blockHash ≠ r.blockHash ∨ l.blockNumber ≠ r.blockNumber ∨
        l.transactionHash ≠ r.transactionHash) .receiptInconsistent
      let complete ← isComplete V o.protocol (result ++ more) creation market
      revertIf (complete = false) .creationIncomplete
      completeCreations factory rest (result ++ more) tr

/-- The logs of the factory that create a market, with the market. -/
def creationsOf (factory : Address) : List Log → Except IndexerErr (List (Log × Address))
  | [] => .ok []
  | l :: rest =>
    if l.address = factory then do
      let ms ← deriveMutations V o.protocol l
      let more ← creationsOf factory rest
      .ok ((createdIn ms).map (fun market => (l, market)) ++ more)
    else creationsOf factory rest

def completeMarketCreationLogs (logs : List Log) (factory : Address) (tr : Trace) :
    Except IndexerErr (List Log × Trace) := do
  let creations ← creationsOf V o factory logs
  completeCreations V o N factory creations logs tr

/-! ## The logs of a range -/

/-- Whether a log is from one of some addresses. -/
def fromAddresses (addresses : List Address) (l : Log) : Bool := l.address ∈ addresses

/-- `discoveryLogs` -/
def discoveryLogs (fromBlock toBlock : Nat) (tr : Trace) : List Log × Trace :=
  match o.factoryAddress with
  | none => ([], tr)
  | some factory => N.getLogs tr (fromAddresses [factory]) fromBlock toBlock

/-- `scopedAccountLogs` -/
def scopedLogs (fromBlock toBlock : Nat) : List (Log → Bool) → Trace → List Log × Trace
  | [], tr => ([], tr)
  | select :: rest, tr =>
    let (logs, tr) := N.getLogs tr select fromBlock toBlock
    let (more, tr) := scopedLogs fromBlock toBlock rest tr
    (logs ++ more, tr)

/-- The markets that the second query has discovered. -/
def lateMarkets (addresses : List Address) (logs : List Log) : Except IndexerErr (List Address) :=
  match o.factoryAddress with
  | none => .ok []
  | some factory => do
    let markets ← discoverMarketAddresses V (logs.filter (fromAddresses [factory]))
    .ok (markets.filter (· ∉ addresses))

/-- The addresses of the second query. -/
def scanAddresses (registered discovered : List Address) : List Address :=
  (o.addresses ++ o.factoryAddress.toList ++ registered ++ discovered).dedup

/-- The logs that are discovered by the factory's, with those that creations lack. -/
def creationLogs (logs : List Log) (tr : Trace) : Except IndexerErr (List Log × Trace) :=
  match o.factoryAddress with
  | none => .ok (logs, tr)
  | some factory => completeMarketCreationLogs V o N (deduplicateLogs logs) factory tr

/-- The logs of a range, in the order of the queries. -/
def collectLogs (registered : List Address) (fromBlock toBlock : Nat) (tr : Trace) :
    Except IndexerErr (List Log × Trace) := do
  let (discovery, tr) := discoveryLogs o N fromBlock toBlock tr
  let discovered ← discoverMarketAddresses V discovery
  let addresses := scanAddresses o registered discovered
  let (logs, tr) := N.getLogs tr (fromAddresses addresses) fromBlock toBlock
  let late ← lateMarkets V o addresses logs
  let (lateLogs, tr) := if late = [] then ([], tr) else N.getLogs tr (fromAddresses late) fromBlock toBlock
  let (created, tr) ← creationLogs V o N (discovery ++ (logs ++ lateLogs)) tr
  let (account, tr) := scopedLogs N fromBlock toBlock o.accountFilters tr
  .ok (deduplicateLogs (created ++ account), tr)

/-! ## The anchors -/

def confirmationFor (confirmations : Nat) : ConfirmationStatus := if confirmations = 0 then .provisional else .confirmed

def normalizeLog (chainId : Nat) (status : ConfirmationStatus) (l : Log) : IndexedEvent where
  chainId := chainId
  blockNumber := l.blockNumber
  blockHash := l.blockHash
  transactionHash := l.transactionHash
  transactionIndex := l.transactionIndex
  logIndex := l.logIndex
  address := l.address
  topics := l.topics
  data := l.data
  confirmationStatus := status

/-- The numbers of the blocks whose headers are read. -/
def anchorNumbers (fromBlock toBlock : Nat) (eventBlocks : List Nat) : List Nat :=
  match o.canonicalMode with
  | .dense => List.range' fromBlock (toBlock + 1 - fromBlock)
  | .sparse => ((eventBlocks ++ [toBlock]).insertionSort (· ≤ ·)).dedup

/-- The headers of some blocks, each read by itself; `mapConcurrent` has several queries wait together. -/
def readAnchors (toBlock : Nat) (eventBlocks : List Nat) : List Nat → Trace →
    Except IndexerErr (List CanonicalBlock × Trace)
  | [], tr => .ok ([], tr)
  | n :: rest, tr => do
    let (b, tr) ← N.readBlock tr n (if n ∈ eventBlocks then .event else if n = toBlock then .fence else .head)
    let (more, tr) ← readAnchors toBlock eventBlocks rest tr
    .ok (⟨o.chainId, n, b.hash, b.parentHash, b.timestamp, confirmationFor o.confirmations⟩ :: more, tr)

def loadCanonicalAnchors (fromBlock toBlock : Nat) (eventBlocks : List Nat) (tr : Trace) :
    Except IndexerErr (List CanonicalBlock × Trace) :=
  readAnchors o N toBlock eventBlocks (anchorNumbers o fromBlock toBlock eventBlocks) tr

/-- `validateLineage`, with the hash that the first block has to have as its parent. -/
def validateLineage : Option Bytes32 → List CanonicalBlock → Except IndexerErr Unit
  | _, [] => .ok ()
  | expectedParent, block :: rest => do
    revertIf (∃ p ∈ expectedParent, block.parentHash ≠ p) (.lineageChanged block.blockNumber)
    validateLineage (some block.blockHash) rest

/-- `validateAdjacentAnchors`, with the block before the first one. -/
def validateAdjacent : Option (Nat × Bytes32) → List CanonicalBlock → Except IndexerErr Unit
  | _, [] => .ok ()
  | previous, block :: rest => do
    revertIf (∃ p ∈ previous, p.1 + 1 = block.blockNumber ∧ block.parentHash ≠ p.2) (.lineageChanged block.blockNumber)
    validateAdjacent (some (block.blockNumber, block.blockHash)) rest

/-- The check of the parents, by the mode. -/
def validateParents (checkpoint : Option ChainCheckpoint) (anchors : List CanonicalBlock) : Except IndexerErr Unit :=
  match o.canonicalMode with
  | .dense => validateLineage (checkpoint.map ChainCheckpoint.blockHash) anchors
  | .sparse => validateAdjacent (checkpoint.map fun c => (c.blockNumber, c.blockHash))
      (anchors.insertionSort fun a b => a.blockNumber ≤ b.blockNumber)

/-- The map from numbers to hashes of the anchors: the last one of a number counts. -/
def anchorHash (anchors : List CanonicalBlock) (n : Nat) : Option Bytes32 :=
  (anchors.reverse.find? fun a => a.blockNumber = n).map CanonicalBlock.blockHash

/-- `verifyCommitFence` -/
def verifyCommitFence (endpoint : ChainCheckpoint) (tr : Trace) : Except IndexerErr Trace := do
  let (b, tr) ← N.readBlock tr endpoint.blockNumber .fence
  revertIf (b.hash ≠ endpoint.blockHash) .fenceChanged
  .ok tr

/-! ## The batch -/

/-- The batch of a range: its logs, its anchors, and the checks. -/
def scanRange (checkpoint : Option ChainCheckpoint) (registered : List Address) (fromBlock toBlock : Nat) (tr : Trace) :
    Except IndexerErr (CanonicalBatch × Trace) := do
  let status := confirmationFor o.confirmations
  let (logs, tr) ← collectLogs V o N registered fromBlock toBlock tr
  let events := (logs.map (normalizeLog o.chainId status)).insertionSort (eventLe · ·)
  let (anchors, tr) ← loadCanonicalAnchors o N fromBlock toBlock (events.map IndexedEvent.blockNumber) tr
  validateParents o checkpoint anchors
  revertIf (∃ e ∈ events, anchorHash anchors e.blockNumber ≠ some e.blockHash) .eventsOffBatch
  let endBlock ← (anchors.find? fun a => a.blockNumber = toBlock).elim (.error .missingEndpointAnchor) .ok
  let next : ChainCheckpoint := ⟨o.chainId, endBlock.blockNumber, endBlock.blockHash⟩
  let tr ← verifyCommitFence N next tr
  .ok (⟨⟨o.chainId, fromBlock, toBlock, checkpoint, endBlock.blockHash, status, o.canonicalMode⟩, anchors,
    events, next⟩, tr)

end

end Cpredict.Indexer
