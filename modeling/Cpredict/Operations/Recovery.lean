import Cpredict.Operations.Gateway

/-!
# The recovery of operations

`OperationRecovery`: a refresh reads a record, asks the bundler and the chain about its user operation, and writes
what it has found out. The two reads that the source makes at the same time come in either order. A tick refreshes
what is pending, each operation by itself; a tick that stops early has run a part of it.
-/

namespace Cpredict.Operations

open Program

/-- `transition` with the time of the service: the record afterwards. -/
def write (id : Nat) (c : Change) : Prog Operation := do
  let now ← ask .clock
  let (_, record) ← ask (.transition id c now)
  .ret record.operation

/-- `cancelExpiredUnaccepted` -/
def cancelExpiredUnaccepted (o : Operation) : Prog (Option Operation) := do
  if o.state ≠ .unknown then .ret none
  else do
    let now ← ask .clock
    if now < o.expiresAt then .ret none
    else do
      let onChainNonce ← ask (.getNonce o.account (o.nonce / 2 ^ 64))
      -- a nonce that has changed is evidence of an execution
      if onChainNonce ≠ o.nonce then .ret none
      else do
        let closed ← write o.id .closeUnaccepted
        .ret (some closed)

/-! ## With a receipt -/

/-- `depositVerified` -/
def depositVerified (o : Operation) (hash : Bytes32) (receipt : Receipt) (event : UserOperationEvent) : Bool :=
  match o.intent with
  | .depositUsdc _ authorization => !event.success || depositTransferred receipt hash o.account o.nonce authorization
  | _ => true

/-- What is written of an event in a receipt. -/
def settlement (transactionHash : Bytes32) (receipt : Receipt) (event : UserOperationEvent) (verified enough : Bool)
    (finality : Finality) (gasSettledAt : Option Nat) : Settlement where
  state :=
    if verified = false then .unknown
    else if enough = false then .confirming
    else if event.success = true then .confirmed
    else .reverted
  finality := if verified = true then finality else .pending
  transactionHash := transactionHash
  blockNumber := receipt.blockNumber
  blockHash := receipt.blockHash
  actualGasCost := event.actualGasCost
  gasSettledAt := gasSettledAt
  reason :=
    if verified = false then some "deposit_transfer_unverified"
    else if enough = true ∧ event.success = false then some "user_operation_reverted"
    else none

/-- The finality of a receipt. A node without finalized blocks does not imply finality. -/
def readFinality (receipt : Receipt) (enough : Bool) : Prog Finality := do
  if enough = false then .ret .pending
  else
    match ← (ask .getFinalized).attempt with
    | .ok number => if receipt.blockNumber ≤ number then .ret .finalized else .ret .applicationConfirmed
    | .error _ => .ret .applicationConfirmed

/-- `o.gasSettledAt ?? now` -/
def settledAt (o : Operation) : Prog Nat :=
  match o.gasSettledAt with
  | some t => .ret t
  | none => ask .clock

/-- The head, and the hash of a block. -/
def readBlocks (headFirst : Bool) (number : Nat) : Prog (Nat × Bytes32) :=
  if headFirst = true then do
    let head ← ask .getBlockNumber
    let hash ← ask (.getBlock number)
    .ret (head, hash)
  else do
    let hash ← ask (.getBlock number)
    let head ← ask .getBlockNumber
    .ret (head, hash)

/-- The refresh of an operation whose receipt is canonical. -/
def settle (o : Operation) (transactionHash : Bytes32) (receipt : Receipt) (event : UserOperationEvent)
    (verified enough : Bool) : Prog Operation := do
  let finality ← readFinality receipt enough
  if finality = .finalized ∧ verified = true then do
    let t ← settledAt o
    write o.id (.settle (settlement transactionHash receipt event verified enough finality (some t)))
  else write o.id (.settle (settlement transactionHash receipt event verified enough finality none))

section

variable (cfg : ServiceConfig)

/-- The refresh of an operation with a transaction. -/
def refreshTransaction (headFirst : Bool) (o : Operation) (hash transactionHash : Bytes32) : Prog Operation := do
  match ← (ask (.getTransactionReceipt transactionHash)).attempt with
  | .error _ => .fail .chainQueryUnavailable
  | .ok none => write o.id .reorganized
  | .ok (some receipt) => do
    let event ← ofExcept (operationEvent receipt hash o.account o.nonce)
    let (head, blockHash) ← readBlocks headFirst receipt.blockNumber
    let enough := decide (receipt.blockNumber + cfg.confirmations ≤ head + 1)
    let verified := depositVerified o hash receipt event
    if blockHash ≠ receipt.blockHash then write o.id .reorganized
    else settle o transactionHash receipt event verified enough

/-- The refresh of an operation that has been submitted. -/
def refreshSubmitted (headFirst : Bool) (o : Operation) (hash : Bytes32) : Prog Operation := do
  match o.transactionHash with
  | some transactionHash => refreshTransaction cfg headFirst o hash transactionHash
  | none => do
    match ← ask (.userOperationReceipt hash) with
    | none => do
      match ← cancelExpiredUnaccepted o with
      | some cancelled => .ret cancelled
      | none => write o.id .query
    | some (userOpHash, transactionHash) => do
      ensure (userOpHash = hash) .receiptHashMismatch
      refreshTransaction cfg headFirst o hash transactionHash

/-- `refresh` -/
def refresh (headFirst : Bool) (o : Operation) : Prog Operation := do
  match o.userOperationHash with
  | none =>
    if o.state ∈ [OperationState.preparing, .awaitingSignature] then do
      let now ← ask .clock
      if o.expiresAt ≤ now then write o.id .expire else .ret o
    else .ret o
  | some hash => if o.finality = .finalized then .ret o else refreshSubmitted cfg headFirst o hash

/-- A refresh that the user asks for. -/
def query (headFirst : Bool) (id : Nat) : Prog Unit := do
  let o ← ownedOperation id
  let _ ← refresh cfg headFirst o
  .ret ()

/-- The loop of `tick`. -/
def refreshAll (headFirst : Nat → Bool) : List StoredOperation → Prog Unit
  | [] => .ret ()
  | item :: rest => do
    let _ ← (refresh cfg (headFirst item.operation.id) item.operation).attempt
    refreshAll headFirst rest

/-- `tick` -/
def tick (headFirst : Nat → Bool) : Prog Unit := do
  let items ← ask (.pending 50)
  refreshAll cfg headFirst items

end

end Cpredict.Operations
