import Cpredict.Lib.Threads
import Cpredict.Operations.Builder
import Cpredict.Operations.Chain

/-!
# What the service awaits

The commands that the service gives to its database, to the bundler and the paymaster, and to the chain, with their
answers (`Await`, `Reply`), and what they do to the world (`Effect`). A transaction of the database is atomic; its
answer may get lost. The bundler and the paymaster may answer anything; the node answers for its chain at that time.
-/

namespace Cpredict.Operations

open Outcome

/-- A user operation as it is sent over the wire. -/
structure WireUserOperation where
  sender : Address
  nonce : Nat
  callData : Bytes
  factory : Option Address
  factoryData : Option Bytes
  signature : Option Bytes
  callGasLimit : Option Nat
  verificationGasLimit : Option Nat
  preVerificationGas : Option Nat
  maxFeePerGas : Option Nat
  maxPriorityFeePerGas : Option Nat
  paymaster : Option Address
  paymasterData : Option Bytes
  paymasterVerificationGasLimit : Option Nat
  paymasterPostOpGasLimit : Option Nat
deriving DecidableEq

/-- The properties that the answer of the paymaster has. -/
structure SponsorResult where
  sender : Option Address
  nonce : Option Nat
  callData : Option Bytes
  factory : Option Address
  factoryData : Option Bytes
  signature : Option Bytes
  callGasLimit : Option Nat
  verificationGasLimit : Option Nat
  preVerificationGas : Option Nat
  maxFeePerGas : Option Nat
  maxPriorityFeePerGas : Option Nat
  paymaster : Option Address
  paymasterData : Option Bytes
  paymasterVerificationGasLimit : Option Nat
  paymasterPostOpGasLimit : Option Nat
deriving DecidableEq

/-- `{ ...u, ...result }` -/
def SponsorResult.over (r : SponsorResult) (u : WireUserOperation) : WireUserOperation where
  sender := r.sender.getD u.sender
  nonce := r.nonce.getD u.nonce
  callData := r.callData.getD u.callData
  factory := r.factory <|> u.factory
  factoryData := r.factoryData <|> u.factoryData
  signature := r.signature <|> u.signature
  callGasLimit := r.callGasLimit <|> u.callGasLimit
  verificationGasLimit := r.verificationGasLimit <|> u.verificationGasLimit
  preVerificationGas := r.preVerificationGas <|> u.preVerificationGas
  maxFeePerGas := r.maxFeePerGas <|> u.maxFeePerGas
  maxPriorityFeePerGas := r.maxPriorityFeePerGas <|> u.maxPriorityFeePerGas
  paymaster := r.paymaster <|> u.paymaster
  paymasterData := r.paymasterData <|> u.paymasterData
  paymasterVerificationGasLimit := r.paymasterVerificationGasLimit <|> u.paymasterVerificationGasLimit
  paymasterPostOpGasLimit := r.paymasterPostOpGasLimit <|> u.paymasterPostOpGasLimit

/-! ## Trading sessions -/

inductive TradingSessionState
  | prepared
  | active
  | disabled
deriving DecidableEq

structure TradingSession where
  id : Nat
  accountId : Nat
  account : Address
  permissionId : Bytes32
  perOperation : Nat
  total : Nat
  /-- In seconds. -/
  validUntil : Nat
  state : TradingSessionState
deriving DecidableEq

structure StoredSession where
  session : TradingSession
  subject : Nat
deriving DecidableEq

/-- Whether an operation keeps its reservation of the budget of its session. -/
def reserves (o : Operation) : Bool :=
  !(decide (o.state = .cancelled) && o.userOperationHash.isNone && o.transactionHash.isNone)

/-- What the operations of a session have reserved. -/
def reserved (existing : List Operation) (sessionId : Nat) : Nat :=
  ((existing.filter fun o => decide (o.sessionId = some sessionId) && reserves o).map fun o =>
    sessionSpend o.intent).sum

def assertTradingSessionQuota (existing : List Operation) (session : Option TradingSession) (next : Operation) :
    Except AppErr Unit := do
  let session ← session.elim (.error .tradingSessionUnavailable) .ok
  revertIf (session.state ≠ .active ∨ session.accountId ≠ next.accountId ∨ session.validUntil * 1000 ≤ next.createdAt)
    .tradingSessionUnavailable
  let spent := reserved existing session.id
  let amount := sessionSpend next.intent
  revertIf (session.perOperation < amount ∨ session.total < spent + amount) .tradingSessionBudgetExceeded

/-! ## Admission -/

/-- The budget of the session of an operation that a session signs. -/
def sessionQuota (sessions : List StoredSession) (rows : Rows) (value : StoredOperation) : Except AppErr Unit :=
  let o := value.operation
  if o.signingMode = some .session then
    assertTradingSessionQuota ((rows.map StoredOperation.operation).filter fun x => decide (x.sessionId = o.sessionId))
      ((sessions.find? fun s => some s.session.id = o.sessionId ∧ s.subject = value.subject).map
        StoredSession.session) o
  else .ok ()

/-- `admit`, after the quotas of sponsorship and deposits. -/
def admitOperation (sessions : List StoredSession) (rows : Rows) (value : StoredOperation) :
    Except AppErr (Rows × StoredOperation) :=
  match rows.find? fun r => r.subject = value.subject ∧ r.idempotencyKey = value.idempotencyKey with
  | some prior => if prior.requestHash ≠ value.requestHash then .error .idempotencyConflict else .ok (rows, prior)
  | none => do
    sessionQuota sessions rows value
    -- the primary key
    revertIf (∃ r ∈ rows, r.operation.id = value.operation.id) .unavailable
    .ok (rows ++ [value], value)

/-! ## Awaits -/

/-- Checks whose answers are not used otherwise. -/
inductive Check
  /-- `controlledAccount`, with the check of the controller on the chain or without. -/
  | controlledAccount (accountId : Nat) (checkChain : Bool)
  /-- `tradingSessions.validateOperation` -/
  | tradingSession (id : Nat)
  /-- `tradingSessions.usable` -/
  | usableSession (sessionId : Nat)
  /-- `deposits.validate` -/
  | deposit (id : Nat)
  | registeredMarket (market : Address)
  | verifiedRules (market : Address)
deriving DecidableEq

/-- A call of RPC, as the gateway takes it. -/
inductive Rpc
  | getUserOperationReceipt (hash : Bytes32)
  | getUserOperationGasPrice
  | sponsorUserOperation (u : WireUserOperation) (entryPoint : Address)
  | estimateUserOperationGas (u : WireUserOperation) (entryPoint : Address)
  | sendUserOperation (u : WireUserOperation) (entryPoint : Address)
  | other
deriving DecidableEq

/-- What the gateway answers. -/
inductive Answer
  | userOperationHash (hash : Bytes32)
  | result
deriving DecidableEq

inductive Await
  -- the database
  | operation (id : Nat)
  | byKey (subject key : Nat)
  | pending (limit : Nat)
  | policyCandidate (sender : Address) (nonce : Nat) (callData : Bytes)
  | transition (id : Nat) (c : Change) (at' : Nat)
  | admitOperation (value : StoredOperation)
  | check (c : Check)
  /-- The paymaster of the configuration of a session. -/
  | sessionPaymaster (sessionId : Nat)
  | clock
  -- the bundler and the paymaster
  | userOperationReceipt (hash : Bytes32)
  | sendUserOperation (id : Nat) (u : WireUserOperation)
  /-- Any other request to the bundler. -/
  | bundler
  | sponsorUserOperation (id : Nat) (u : WireUserOperation)
  -- the chain
  | getNonce (account : Address) (key : Nat)
  | getTransactionReceipt (hash : Bytes32)
  | getBlockNumber
  | getBlock (n : Nat)
  | getFinalized
  -- the reader of admissions, and the preparation of an operation
  | order (id : Nat)
  | listing (id : Bytes32)
  | latestTimestamp
  /-- The address of an account. -/
  | account (accountId : Nat)
  /-- `kernel.getNonce`, of the account's kernel or of a session's. -/
  | kernelNonce (account : Address) (sessionId : Option Nat)
  | factoryArgs (account : Address)
  /-- The calls of an intent that no session signs. -/
  | otherCalls (intent : BusinessIntent)
  -- requests to the gateway, and what it answers
  | request (id : Nat) (rpc : Rpc)
  | respond (id : Nat) (answer : Answer)
  /-- The policy lets the provider proceed. -/
  | proceed (id : Nat)
deriving DecidableEq

/-- What an await is answered by. -/
abbrev Reply : Await → Type
  | .operation _ | .byKey _ _ | .policyCandidate _ _ _ => Option StoredOperation
  | .pending _ => List StoredOperation
  | .transition _ _ _ => Bool × StoredOperation
  | .admitOperation _ => StoredOperation
  | .sessionPaymaster _ | .account _ => Address
  | .factoryArgs _ => Option Address × Option Bytes
  | .otherCalls _ => List Session.Call
  | .clock | .getNonce _ _ | .getBlockNumber | .getFinalized | .latestTimestamp | .kernelNonce _ _ => Nat
  | .userOperationReceipt _ => Option (Bytes32 × Bytes32)
  | .sendUserOperation _ _ | .getBlock _ => Bytes32
  | .sponsorUserOperation _ _ => SponsorResult
  | .getTransactionReceipt _ => Option Receipt
  | .order _ => OrderView
  | .listing _ => ListingView
  | _ => Unit

/-- A program of the service. -/
abbrev Prog (α : Type) := Program Reply AppErr α

/-- `await` of the service. -/
def ask (c : Await) : Prog (Reply c) := Program.await c

structure World where
  rows : Rows
  sessions : List StoredSession
  chain : Chain
  now : Nat

/-- What a thread has awaited, and what it was answered. -/
abbrev Event := Program.Event Reply AppErr

abbrev Occurrence := Program.Occurrence Reply AppErr World

abbrev Recorded := Program.Recorded Reply AppErr World

abbrev Threads := Program.Threads Reply AppErr World

/-- `policyCandidate`: the newest of the operations that go with a user operation. -/
def policyCandidate (rows : Rows) (sender : Address) (nonce : Nat) (callData : Bytes) : Option StoredOperation :=
  ((rows.filter fun r => decide (r.operation.account = sender ∧ r.operation.nonce = nonce ∧
      r.operation.callData = callData ∧
      r.operation.state ∈ [OperationState.awaitingSignature, .submitted, .confirming, .unknown])).insertionSort
    fun a b => b.operation.createdAt ≤ a.operation.createdAt).head?

/-- `pending`: the operations that a refresh may change. -/
def pending (rows : Rows) (now limit : Nat) : List StoredOperation :=
  ((rows.filter fun r => isRecoverable r.operation.state ||
      decide (r.operation.state ∈ [OperationState.preparing, .awaitingSignature] ∧ r.operation.expiresAt ≤ now) ||
      decide (r.operation.state ∈ [OperationState.confirmed, .reverted] ∧
        r.operation.finality ≠ .finalized)).insertionSort
    fun a b => a.operation.updatedAt < b.operation.updatedAt ∨
      a.operation.updatedAt = b.operation.updatedAt ∧ a.operation.id ≤ b.operation.id).take limit

/-- A transaction that is committed, perhaps with a lost answer, or not. -/
def Commits {α : Type} (w w' : World) (f : Except AppErr (Rows × α)) (r : Except AppErr α) : Prop :=
  (∃ a, f = .ok (w'.rows, a) ∧ (r = .ok a ∨ ∃ e, r = .error e)) ∨ w'.rows = w.rows ∧ ∃ e, r = .error e

/-- An answer, or an error. -/
def Answers {α : Type} (a : α) (r : Except AppErr α) : Prop := r = .ok a ∨ ∃ e, r = .error e

/-- What an await does to the rows, and how it is answered. -/
def RowsEffect (w w' : World) : (c : Await) → Except AppErr (Reply c) → Prop
  | .transition id c at', r => Commits w w' (transition id c at' w.rows) r
  | .admitOperation value, r => Commits w w' (admitOperation w.sessions w.rows value) r
  | .operation id, r => w'.rows = w.rows ∧ Answers (w.rows.find id) r
  | .byKey subject key, r => w'.rows = w.rows ∧
    Answers (w.rows.find? fun x => x.subject = subject ∧ x.idempotencyKey = key) r
  | .pending limit, r => w'.rows = w.rows ∧ Answers (pending w.rows w.now limit) r
  | .policyCandidate sender nonce callData, r => w'.rows = w.rows ∧
      Answers (policyCandidate w.rows sender nonce callData) r
  | .clock, r => w'.rows = w.rows ∧ r = .ok w.now
  | .getNonce account key, r => w'.rows = w.rows ∧ Answers (w.chain.getNonce account key) r
  | .getTransactionReceipt hash, r => w'.rows = w.rows ∧ Answers (w.chain.getTransactionReceipt hash) r
  | .getBlockNumber, r => w'.rows = w.rows ∧ Answers w.chain.getBlockNumber r
  | .getBlock n, r => w'.rows = w.rows ∧ ∀ hash, r = .ok hash → w.chain.getBlock n = some hash
  | .getFinalized, r => w'.rows = w.rows ∧ Answers w.chain.finalized r
  | _, _ => w'.rows = w.rows

/-- An await. -/
structure Effect (c : Await) (w : World) (r : Except AppErr (Reply c)) (w' : World) : Prop where
  sessions : w'.sessions = w.sessions
  chain : w'.chain = w.chain
  now : w'.now = w.now
  rows : RowsEffect w w' c r

/-- The limits of the sessions stay as they are. -/
def KeepsSessions (s s' : List StoredSession) : Prop :=
  ∀ x ∈ s, ∃ y ∈ s', y.session.id = x.session.id ∧ y.session.perOperation = x.session.perOperation ∧
    y.session.total = x.session.total

/-- What goes on without the service: time passes, the chain goes on or is reorganized above its finalized blocks,
sessions are made and change their states. -/
structure Env (w w' : World) : Prop where
  rows : w'.rows = w.rows
  now : w.now ≤ w'.now
  valid : w'.chain.Valid
  chain : w.chain.Extends w'.chain
  sessions : KeepsSessions w.sessions w'.sessions

end Cpredict.Operations
