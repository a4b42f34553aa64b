import Cpredict.Lib.Outcome
import Cpredict.Types

/-!
# PostgresAutomaticStore: the journal of the automation worker

The table `automation_transactions` with its uniqueness constraints, the table `automation_recoveries`, and the
functions of the stores on them, each one database transaction. Times are in milliseconds. The columns for gas and
the queue of claim candidates are left out; whether the queue still has a candidate is an argument of `save`.
-/

namespace Cpredict.Automation

open Outcome

/-! ## Records -/

inductive TxState
  | prepared
  | broadcasting
  | unknown
  | confirmed
  | reverted
  | cancelled
deriving DecidableEq

inductive CanonicalStatus
  | unchecked
  | canonical
  | orphaned
deriving DecidableEq

inductive CleanupPriority
  | terminalBlocking
  | routine
deriving DecidableEq

/-- `AutomaticAction` -/
structure Action where
  key : String
  owner : Address
  kind : String
  target : Address
  data : Bytes
  requiresClaimPreference : Bool
  cleanupMarket : Option Address
  cleanupPriority : Option CleanupPriority
deriving DecidableEq

/-- `PreparedAutomation` -/
structure Prepared where
  raw : Bytes
  hash : Bytes32
  nonce : Nat
  maximumCost : Nat
deriving DecidableEq

/-- `AutomationRecord` -/
structure Record where
  id : Nat
  action : Action
  tx : Prepared
  state : TxState
deriving DecidableEq

/-- `AutomationReceipt` -/
structure TxReceipt where
  success : Bool
  blockNumber : Nat
  blockHash : Bytes32
deriving DecidableEq

/-- A row of `automation_transactions`. -/
structure Row where
  id : Nat
  chainId : Nat
  deploymentId : String
  action : Action
  signer : Address
  nonce : Option Nat
  txHash : Bytes32
  rawTransaction : Option Bytes
  state : TxState
  reservedWei : Nat
  receipt : Option (Nat × Bytes32)
  canonicalStatus : CanonicalStatus
  canonicalCheckedAt : Option Nat
  createdAt : Nat
  broadcastAt : Option Nat
  firstBroadcastAt : Option Nat
  recoveryManualRequired : Bool
deriving DecidableEq

inductive RecoveryState
  | prepared
  | broadcasting
  | unknown
  | confirmed
deriving DecidableEq

/-- A row of `automation_recoveries`. -/
structure Recovery where
  id : Nat
  transactionId : Nat
  originalHash : Bytes32
  replacement : Prepared
  state : RecoveryState
deriving DecidableEq

structure Journal where
  rows : List Row
  recoveries : List Recovery
deriving DecidableEq

/-- `PostgresAutomaticStore`: whose rows it handles. -/
structure Store where
  chainId : Nat
  deploymentId : String
  signer : Address

inductive QuotaReason
  | account
  | market
deriving DecidableEq

/-- What a unique index of `automation_transactions` is about. -/
inductive Constraint
  | id
  | nonce
  | activeJob
deriving DecidableEq

inductive RecoveryStop
  | rpcUnavailable
  | evidenceConflict
  | transactionPresent
  | nonceChanged
  | ownerOptedOut
  | noEntitlement
  | budgetExceeded
  | approvalMismatch
  | alreadyAttempted
deriving DecidableEq

/-- The errors that the worker tells apart. -/
inductive WorkerErr
  | candidateChanged
  | cleanupScopeMissing
  | quotaExceeded (reason : QuotaReason)
  | uniqueViolation (c : Constraint)
  | transactionMissing
  | receiptHashUnregistered
  | receiptMissing
  | recoveryStopped (reason : RecoveryStop)
  | finalValidation
  | gasCapExceeded
  | hashMismatch
  | other
deriving DecidableEq

/-! ## Rows -/

/-- The states of the partial index `automation_active_job`. -/
def TxState.active (s : TxState) : Bool := s = .prepared || s = .broadcasting || s = .unknown

def Row.active (x : Row) : Bool := x.state.active

/-- Sent, and not known to be final. -/
def TxState.sent (s : TxState) : Bool := s = .broadcasting || s = .unknown

namespace Store

variable (st : Store)

def owns (x : Row) : Bool := x.chainId = st.chainId && x.signer = st.signer

/-- The rows of a signer. -/
def lane (j : Journal) : List Row := j.rows.filter st.owns

end Store

namespace Journal

/-- `UPDATE automation_transactions SET … WHERE id = …` -/
def update (j : Journal) (id : Nat) (f : Row → Row) : Journal :=
  { j with rows := j.rows.map fun x => if x.id = id then f x else x }

def find (j : Journal) (id : Nat) : Option Row := j.rows.find? fun x => x.id = id

/-- `INSERT INTO automation_transactions` -/
def insert (j : Journal) (r : Row) : Except WorkerErr Journal := do
  revertIf (∃ x ∈ j.rows, x.id = r.id) (.uniqueViolation .id)
  revertIf (∃ x ∈ j.rows, x.chainId = r.chainId ∧ x.signer = r.signer ∧ x.nonce = r.nonce ∧ r.nonce ≠ none)
    (.uniqueViolation .nonce)
  revertIf (r.active = true ∧ ∃ x ∈ j.rows, x.active = true ∧ x.chainId = r.chainId ∧ x.deploymentId = r.deploymentId ∧
    x.action.key = r.action.key) (.uniqueViolation .activeJob)
  .ok { j with rows := j.rows ++ [r] }

end Journal

/-! ## The quotas of cleanup -/

def isReturnListing (kind : String) : Bool := "return-listing:".toList.isPrefixOf kind.toList

/-- `isCleanup` -/
def Action.isCleanup (a : Action) : Bool := a.kind = "release-order" || isReturnListing a.kind

def accountTotal24h : Nat := 8

def accountRoutine24h : Nat := 4

def marketTotal24h : Nat := 80

def marketRoutine24h : Nat := 40

def day : Nat := 24 * 3600 * 1000

namespace Store

variable (st : Store) (j : Journal) (now : Nat)

/-- The rows that count against the quotas. -/
def cleanups : List Row :=
  j.rows.filter fun x => x.chainId = st.chainId && x.deploymentId = st.deploymentId &&
    (x.action.cleanupMarket.isSome || x.action.isCleanup) && x.state ≠ .cancelled && now ≤ x.createdAt + day

/-- `cleanupQuotaWith` -/
def cleanupQuotaWith (a : Action) : Option QuotaReason :=
  let accounts := (st.cleanups j now).filter fun x => x.action.owner = a.owner
  let markets := (st.cleanups j now).filter fun x => x.action.cleanupMarket = a.cleanupMarket && a.cleanupMarket.isSome
  let routine := a.cleanupPriority = some .routine
  if accountTotal24h ≤ accounts.length ∨ routine ∧
      accountRoutine24h ≤ (accounts.filter fun x => x.action.cleanupPriority ≠ some .terminalBlocking).length then
    some .account
  else if marketTotal24h ≤ markets.length ∨ routine ∧
      marketRoutine24h ≤ (markets.filter fun x => x.action.cleanupPriority = some .routine).length then
    some .market
  else none

/-! ## AutomationStore -/

/-- The row that `save` inserts. -/
def preparedRow (a : Action) (tx : Prepared) (id : Nat) : Row where
  id := id
  chainId := st.chainId
  deploymentId := st.deploymentId
  action := if a.isCleanup = true then a else { a with cleanupMarket := none, cleanupPriority := none }
  signer := st.signer
  nonce := some tx.nonce
  txHash := tx.hash
  rawTransaction := some tx.raw
  state := .prepared
  reservedWei := tx.maximumCost
  receipt := none
  canonicalStatus := .unchecked
  canonicalCheckedAt := none
  createdAt := now
  broadcastAt := none
  firstBroadcastAt := none
  recoveryManualRequired := false

/-- The checks that `save` makes of a cleanup. -/
def admitCleanup (a : Action) : Except WorkerErr Unit :=
  if a.isCleanup = true then do
    revertIf (a.cleanupMarket = none ∨ a.cleanupPriority = none) .cleanupScopeMissing
    match st.cleanupQuotaWith j now a with
    | some reason => .error (.quotaExceeded reason)
    | none => .ok ()
  else .ok ()

/-- `save`, with the id that `randomUUID` gives, and whether the queue still has the candidate. -/
def save (a : Action) (tx : Prepared) (id : Nat) (candidate : Bool) : Except WorkerErr (Journal × Record) := do
  revertIf (candidate = false) .candidateChanged
  st.admitCleanup j now a
  let j ← j.insert (st.preparedRow now a tx id)
  .ok (j, ⟨id, a, tx, .prepared⟩)

/-- `pending` -/
def pending : List Record :=
  (((st.lane j).filter Row.active).insertionSort fun x y => x.nonce.getD 0 ≤ y.nonce.getD 0).map fun x =>
    ⟨x.id, x.action, ⟨x.rawTransaction.getD [], x.txHash, x.nonce.getD 0, x.reservedWei⟩, x.state⟩

end Store

namespace Journal

variable (j : Journal) (now : Nat)

/-- The row that `markBroadcasting` leaves. -/
def marked (x : Row) : Row :=
  if x.state = .prepared then
    { x with
      state := .broadcasting
      broadcastAt := some now
      firstBroadcastAt := some (x.firstBroadcastAt.getD now) }
  else x

/-- `markBroadcasting`: the compare-and-set of `prepared` to `broadcasting`. -/
def markBroadcasting (id : Nat) : Journal × Bool :=
  (j.update id (marked now), (j.find id).any fun x => x.state = .prepared)

def cancelPrepared (id : Nat) : Journal :=
  j.update id fun x =>
    if x.state = .prepared then { x with state := .cancelled, nonce := none, rawTransaction := none, reservedWei :=
      0 } else x

/-- `unknown` -/
def markUnknown (id : Nat) : Journal :=
  j.update id fun x => if x.state = .broadcasting then { x with state := .unknown } else x

/-- `state IN ('broadcasting','unknown')` of a recovery. -/
def RecoveryState.sent (s : RecoveryState) : Bool := s = .broadcasting || s = .unknown

/-- The hashes that have been replaced for a transaction. -/
def replacedHashes (id : Nat) : List Bytes32 :=
  (j.recoveries.filter fun r => r.transactionId = id && RecoveryState.sent r.state).map Recovery.originalHash

/-- `recoveryHashes`, newest first. -/
def recoveryHashes (id : Nat) : List Bytes32 := (j.replacedHashes id).reverse.take 16

/-- The row that `finish` leaves. -/
def finished (r : TxReceipt) (hash : Bytes32) (x : Row) : Row :=
  { x with
    txHash := hash
    state := if r.success = true then .confirmed else .reverted
    receipt := some (r.blockNumber, r.blockHash)
    canonicalStatus := if r.success = true then .canonical else .unchecked
    canonicalCheckedAt := if r.success = true then some now else none
    rawTransaction := none }

def finish (id : Nat) (r : TxReceipt) (hash : Bytes32) : Except WorkerErr Journal := do
  let t ← (j.find id).elim (.error .transactionMissing) .ok
  revertIf (hash ≠ t.txHash ∧ hash ∉ j.replacedHashes id) .receiptHashUnregistered
  .ok { j.update id (finished now r hash) with
        recoveries := j.recoveries.map fun x =>
          if x.transactionId = id ∧ x.state ≠ .confirmed then { x with state := .confirmed } else x }

end Journal

/-! ## auditCanonical -/

/-- What the audit reads of the indexer's tables. -/
structure ChainIndex where
  checkpoint : Option Nat
  canonicalHash : Nat → Option Bytes32
  /-- The last block with an event of a transaction. -/
  moved : Bytes32 → Option (Nat × Bytes32)

section

variable (ix : ChainIndex) (now : Nat)

/-- One row of the audit, and whether it is orphaned. -/
def auditRow (x : Row) : Except WorkerErr (Row × Bool) := do
  let (receiptBlock, receiptHash) ← x.receipt.elim (.error .receiptMissing) .ok
  if ix.canonicalHash receiptBlock = some receiptHash then
    .ok ({ x with canonicalStatus := .canonical, canonicalCheckedAt := some now }, false)
  else
    match ix.moved x.txHash with
    | some block =>
      .ok ({ x with receipt := some block, canonicalStatus := .canonical, canonicalCheckedAt := some now }, false)
    | none =>
      if ix.checkpoint.all (· < receiptBlock) then .ok (x, false)
      else .ok ({ x with canonicalStatus := .orphaned, canonicalCheckedAt := some now }, true)

/-- The loop of the audit. -/
def auditRows : List Nat → Journal → Except WorkerErr (Journal × List Action)
  | [], j => .ok (j, [])
  | id :: rest, j =>
    match j.find id with
    | none => auditRows rest j
    | some x => do
      let (y, orphaned) ← auditRow ix now x
      let (j, actions) ← auditRows rest (j.update id fun _ => y)
      .ok (j, if orphaned = true then { x.action with cleanupMarket := none, cleanupPriority := none } ::
        actions else actions)

/-- The rows that are due for the audit. -/
def auditDue (st : Store) (j : Journal) : List Row :=
  (((st.lane j).filter fun x => x.deploymentId = st.deploymentId && x.state = .confirmed &&
      x.canonicalCheckedAt.all (· + 5 * 60 * 1000 < now)).insertionSort fun x y =>
    x.canonicalCheckedAt.elim 0 (· + 1) < y.canonicalCheckedAt.elim 0 (· + 1) ∨
      x.canonicalCheckedAt.elim 0 (· + 1) = y.canonicalCheckedAt.elim 0 (· + 1) ∧ x.createdAt ≤ y.createdAt).take 20

def auditCanonical (st : Store) (j : Journal) : Except WorkerErr (Journal × List Action) :=
  auditRows ix now ((auditDue now st j).map Row.id) j

end

/-! ## PostgresRecoveryStore -/

namespace Store

variable (st : Store) (j : Journal) (now : Nat)

/-- `saveRecovery` in the mode `automatic`, with the id that `randomUUID` gives and the hash function of
transactions. -/
def saveRecovery (keccak256 : Bytes → Bytes32) (tx : Record) (p : Prepared) (id : Nat) :
    Except WorkerErr (Journal × Recovery) := do
  revertIf (p.nonce ≠ tx.tx.nonce ∨ p.hash = tx.tx.hash ∨ keccak256 p.raw ≠ p.hash ∨ p.maximumCost = 0)
    (.recoveryStopped .approvalMismatch)
  let current ← (j.find tx.id).elim (.error (.recoveryStopped .alreadyAttempted)) .ok
  revertIf (st.owns current = false ∨ current.deploymentId ≠ st.deploymentId ∨ current.txHash ≠ tx.tx.hash ∨
    current.state.sent = false ∨ current.nonce ≠ some tx.tx.nonce ∨ current.rawTransaction ≠ some tx.tx.raw ∨
    current.recoveryManualRequired = true ∨
    now < (current.firstBroadcastAt.getD (current.broadcastAt.getD current.createdAt)) + 120000)
    (.recoveryStopped .alreadyAttempted)
  revertIf (∃ r ∈ j.recoveries, r.transactionId = tx.id) (.recoveryStopped .alreadyAttempted)
  let r : Recovery := ⟨id, tx.id, tx.tx.hash, p, .prepared⟩
  .ok ({ j with recoveries := j.recoveries ++ [r] }, r)

/-- `startRecovery`: the row takes the replacement. -/
def startRecovery (tx : Record) (r : Recovery) : Journal × Bool :=
  match j.find tx.id with
  | none => (j, false)
  | some current =>
    if (st.owns current && current.deploymentId = st.deploymentId && current.txHash = tx.tx.hash &&
        current.nonce = some r.replacement.nonce && current.state.sent) = false then (j, false)
    else if j.recoveries.any (fun x => x.id = r.id && x.transactionId = tx.id && x.originalHash = tx.tx.hash &&
        x.replacement = r.replacement && x.state = .prepared) = false then (j, false)
    else
      ({ (j.update tx.id fun x =>
          { x with
            txHash := r.replacement.hash
            rawTransaction := some r.replacement.raw
            reservedWei := r.replacement.maximumCost
            state := .unknown
            firstBroadcastAt := some (x.firstBroadcastAt.getD (x.broadcastAt.getD x.createdAt))
            broadcastAt := some now }) with
         recoveries := j.recoveries.map fun x => if x.id = r.id then { x with state := .broadcasting } else x }, true)

end Store

/-- `recoverySubmitted` -/
def Journal.recoverySubmitted (j : Journal) (id : Nat) : Journal :=
  { j with recoveries := j.recoveries.map fun x =>
      if x.id = id ∧ x.state = .broadcasting then { x with state := .unknown } else x }

/-- `recoveryCheck`, with whether the failure needs a decision by hand. -/
def Journal.recoveryCheck (j : Journal) (id : Nat) (manual : Bool) : Journal :=
  if manual = true then j.update id fun x => { x with recoveryManualRequired := true } else j

end Cpredict.Automation
