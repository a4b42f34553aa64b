import Cpredict.Indexer.Store
import Cpredict.Lib.BlockTree

/-!
# The RPC node

The chain of the node may be another one at every answer: `heads k` is the last block of its chain when it answers the
`k`-th query, and every answer is correct for that chain. Nothing relates the heads to each other, so the answers to
queries that wait together may come in any order. The queries are kept with the heads that answered them (`Trace`).
-/

namespace Cpredict.Indexer

open Outcome BlockTree

structure Log where
  address : Address
  blockNumber : Nat
  blockHash : Bytes32
  transactionHash : Bytes32
  transactionIndex : Nat
  logIndex : Nat
  topics : List Bytes32
  data : Bytes
deriving DecidableEq

structure Receipt where
  success : Bool
  transactionHash : Bytes32
  blockHash : Bytes32
  blockNumber : Nat
  logs : List Log

/-- `transactionHash` and `logIndex` of a log, which identify it on its chain. -/
def Log.key (l : Log) : Bytes32 × Nat := (l.transactionHash, l.logIndex)

/-- Every block that there is, with the receipts of its transactions. -/
structure Archive where
  tree : Blocks Bytes32
  timestamp : Bytes32 → Nat
  receipts : Bytes32 → List Receipt
  receipt_block : ∀ g, ∀ r ∈ receipts g, r.blockHash = g ∧ r.blockNumber = tree.number g
  log_block : ∀ g, ∀ r ∈ receipts g, ∀ l ∈ r.logs,
    l.blockHash = g ∧ l.blockNumber = tree.number g ∧ l.transactionHash = r.transactionHash
  key_inj : ∀ h f g, On tree f h → On tree g h → ∀ q ∈ receipts f, ∀ r ∈ receipts g, ∀ l ∈ q.logs, ∀ m ∈ r.logs,
    l.key = m.key → l = m

/-- The logs of a block. -/
def Archive.logs (L : Archive) (g : Bytes32) : List Log := (L.receipts g).flatMap Receipt.logs

/-- The logs of the chain that ends in `h`, in a range of blocks. -/
def Archive.logsBetween (L : Archive) (h : Bytes32) (fromBlock toBlock : Nat) : List Log :=
  (List.range' fromBlock (toBlock + 1 - fromBlock)).flatMap fun n => (blockAt L.tree h n).elim [] L.logs

structure Node where
  archive : Archive
  heads : Nat → Bytes32

inductive BlockHeaderReadPurpose
  | head
  | fence
  | event
  | recovery
deriving DecidableEq

/-- What is asked of the node. `logs` asks for the logs in a range of blocks that a filter selects, `receipt` for those
of a market in the receipt of a transaction. -/
inductive Query
  | blockNumber
  | block (number : Nat) (purpose : BlockHeaderReadPurpose)
  | logs (select : Log → Bool) (fromBlock toBlock : Nat)
  | receipt (hash : Bytes32) (market : Address)

/-- The queries so far, each with the head of the node at its answer. -/
abbrev Trace := List (Query × Bytes32)

/-- What `getBlock` returns. -/
structure Header where
  hash : Bytes32
  parentHash : Bytes32
  timestamp : Nat

variable (N : Node) (tr : Trace)

/-- The head of the node at the next answer. -/
def Node.headAt : Bytes32 := N.heads tr.length

def Node.asked (q : Query) : Trace := tr ++ [(q, N.headAt tr)]

def Node.getBlockNumber : Nat × Trace := (N.archive.tree.number (N.headAt tr), N.asked tr .blockNumber)

/-- `readBlock` -/
def Node.readBlock (number : Nat) (purpose : BlockHeaderReadPurpose) : Except IndexerErr (Header × Trace) :=
  match blockAt N.archive.tree (N.headAt tr) number with
  | none => .error (.blockNotFound number)
  | some g => .ok (⟨g, N.archive.tree.parent g, N.archive.timestamp g⟩, N.asked tr (.block number purpose))

def Node.getLogs (select : Log → Bool) (fromBlock toBlock : Nat) : List Log × Trace :=
  ((N.archive.logsBetween (N.headAt tr) fromBlock toBlock).filter select, N.asked tr (.logs select fromBlock toBlock))

/-- The receipt of a transaction on the chain that ends in `h`, looked for from its last block. -/
def Archive.findReceipt (L : Archive) (h hash : Bytes32) : Option Receipt :=
  (List.range (L.tree.number h + 1)).reverse.findSome? fun n =>
    (blockAt L.tree h n).bind fun g => (L.receipts g).find? fun r => r.transactionHash = hash

def Node.getTransactionReceipt (hash : Bytes32) (market : Address) : Except IndexerErr (Receipt × Trace) :=
  match N.archive.findReceipt (N.headAt tr) hash with
  | none => .error .receiptNotFound
  | some r => .ok (r, N.asked tr (.receipt hash market))

/-- What a successful header read has returned. -/
theorem Node.readBlock_eq_ok {N : Node} {tr tr' : Trace} {number : Nat} {purpose : BlockHeaderReadPurpose}
    {b : Header} :
    N.readBlock tr number purpose = .ok (b, tr') ↔
      blockAt N.archive.tree (N.headAt tr) number = some b.hash ∧ b.parentHash = N.archive.tree.parent b.hash ∧
        b.timestamp = N.archive.timestamp b.hash ∧ tr' = N.asked tr (.block number purpose) := by
  unfold Node.readBlock
  obtain ⟨hash, parentHash, timestamp⟩ := b
  cases h : blockAt N.archive.tree (N.headAt tr) number with
  | none => simp
  | some g =>
    simp only [Except.ok.injEq, Prod.mk.injEq, Header.mk.injEq, Option.some.injEq]
    constructor
    · rintro ⟨⟨rfl, rfl, rfl⟩, rfl⟩
      exact ⟨rfl, rfl, rfl, rfl⟩
    · rintro ⟨rfl, rfl, rfl, rfl⟩
      exact ⟨⟨rfl, rfl, rfl⟩, rfl⟩

end Cpredict.Indexer
