import Cpredict.Operations.World

/-!
# The gateway and the policy

`AuthenticatedAAGateway.request` and `policy`, and the cancellation by the user. A request that a schema rejects has
thrown before it comes here. The hash of a user operation, which a library computes, is a parameter.
-/

namespace Cpredict.Operations

open Program

/-- The configuration of the service. -/
structure ServiceConfig where
  deployment : Deployment
  environment : Nat
  deploymentId : Nat
  /-- `runtime.sponsor` is there. -/
  sponsor : Bool
  /-- `environment.features.sponsorship` -/
  sponsorship : Bool
  /-- `environment.features.newExposure` -/
  newExposure : Bool
  maxCostPerOperation : Nat
  validitySeconds : Nat
  confirmations : Nat
  /-- `getUserOperationHash` -/
  getUserOperationHash : WireUserOperation → Bytes32
  /-- `kernel.encodeCalls`, of the account that a session signs for or of its controller. -/
  encodeCalls : Option Nat → List Session.Call → Bytes

/-- A check that does not await. -/
def ensure (c : Prop) [Decidable c] (e : AppErr) : Prog Unit := if c then .ret () else .fail e

/-- The UTC day of a time. -/
def utcDay (at' : Nat) : Nat := at' / 86400000

def assertOperationBinding (o : Operation) (u : WireUserOperation) : Except AppErr Unit :=
  if o.account ≠ u.sender ∨ o.nonce ≠ u.nonce ∨ o.callData ≠ u.callData ∨ o.factory ≠ u.factory ∨
      o.factoryData ≠ u.factoryData then .error .userOperationMismatch
  else .ok ()

/-- `completeSchema` -/
def WireUserOperation.complete (u : WireUserOperation) : Bool :=
  u.callGasLimit.isSome && u.verificationGasLimit.isSome && u.preVerificationGas.isSome && u.maxFeePerGas.isSome &&
    u.maxPriorityFeePerGas.isSome && u.signature.isSome

/-- Whether a user operation has none, or all, of the properties of a paymaster. -/
def WireUserOperation.selfFunded (u : WireUserOperation) : Bool :=
  u.paymaster.isNone && u.paymasterData.isNone && u.paymasterVerificationGasLimit.isNone &&
    u.paymasterPostOpGasLimit.isNone

def WireUserOperation.sponsored (u : WireUserOperation) : Bool :=
  u.paymaster.isSome && u.paymasterData.isSome && u.paymasterVerificationGasLimit.isSome &&
    u.paymasterPostOpGasLimit.isSome

def WireUserOperation.gasCost (u : WireUserOperation) : Nat :=
  (u.callGasLimit.getD 0 + u.verificationGasLimit.getD 0 + u.preVerificationGas.getD 0 +
    u.paymasterVerificationGasLimit.getD 0 + u.paymasterPostOpGasLimit.getD 0) * u.maxFeePerGas.getD 0

def assertGasCeiling (o : Operation) (u : WireUserOperation) (complete : Bool) : Except AppErr Unit :=
  if complete = true ∧ u.complete = false then .error .invalidRequest
  else if o.gasPayment = some .selfFunded ∧ u.selfFunded = false then .error .selfFundedPaymasterForbidden
  else if o.gasPayment ≠ some .selfFunded ∧ complete = true ∧ u.sponsored = false then .error .invalidRequest
  else if o.maxGasCost < u.gasCost ∨ u.maxFeePerGas.getD 0 < u.maxPriorityFeePerGas.getD 0 then
    .error .gasCostExceedsLimit
  else if complete = true ∧ u.gasCost = 0 then .error .invalidGasEstimate
  else .ok ()

/-- Whether the intent is a deposit. -/
def BusinessIntent.isDeposit : BusinessIntent → Bool
  | .depositUsdc _ _ => true
  | _ => false

section

variable (cfg : ServiceConfig)

/-- `ownedOperation` -/
def ownedOperation (id : Nat) : Prog Operation := do
  match ← ask (.operation id) with
  | none => .fail .operationNotFound
  | some record => do
    let _ ← ask (.check (.controlledAccount record.operation.accountId false))
    .ret record.operation

/-- The checks of a request that has a user operation, and its hash if it is to be sent. -/
def checkRequest (o : Operation) (u : WireUserOperation) (entryPoint : Address) (sends : Bool) : Prog Unit := do
  ensure (entryPoint = ENTRY_POINT) .entryPointMismatch
  ofExcept (assertOperationBinding o u)
  ofExcept (assertGasCeiling o u sends)
  if o.signingMode = some .session ∧ u.paymaster.isSome = true then do
    let paymaster ← ask (.sessionPaymaster (o.sessionId.getD 0))
    ensure (u.paymaster = some paymaster) .tradingSessionPaymasterMismatch
  else .ret ()

/-- The deposit of an operation that makes one. -/
def checkDeposit (o : Operation) : Prog Unit :=
  if o.intent.isDeposit = true then ask (.check (.deposit o.id)) else .ret ()

/-- The checks of an operation that is about to be used. -/
def checkOperation (o : Operation) : Prog Unit := do
  let now ← ask .clock
  ensure (o.state = .awaitingSignature ∧ now < o.expiresAt ∧ utcDay o.createdAt = utcDay now) .operationAdmissionExpired
  let _ ← ask (.check (.controlledAccount o.accountId true))
  let _ ← ask (.check (.tradingSession o.id))
  checkDeposit o

/-- The hash is persisted before the user operation is sent. -/
def send (o : Operation) (u : WireUserOperation) : Prog Answer := do
  let userOperationHash := cfg.getUserOperationHash u
  let now ← ask .clock
  let (changed, record) ← ask (.transition o.id (.submit userOperationHash) now)
  if changed = false then
    if record.operation.userOperationHash = some userOperationHash then .ret (.userOperationHash userOperationHash)
    else .fail (.operationAlreadySubmitted o.id)
  else do
    match ← (ask (.sendUserOperation record.operation.id u)).attempt with
    | .ok returned =>
      if returned = userOperationHash then .ret (.userOperationHash userOperationHash)
      else do
        let now ← ask .clock
        let _ ← ask (.transition record.operation.id .resultUnknown now)
        .fail (.operationResultUnknown record.operation.id)
    | .error _ => do
      let now ← ask .clock
      let _ ← ask (.transition record.operation.id .resultUnknown now)
      .fail (.operationResultUnknown record.operation.id)

/-- The mark that serializes with cancellation comes before the request. -/
def sponsor (o : Operation) (u : WireUserOperation) : Prog Answer := do
  let now ← ask .clock
  let (changed, record) ← ask (.transition o.id .sponsor now)
  if changed = false then .fail .operationAdmissionExpired
  else do
    let o := record.operation
    let result ← ask (.sponsorUserOperation o.id u)
    let sponsored := result.over u
    ofExcept (assertOperationBinding o sponsored)
    ofExcept (assertGasCeiling o { sponsored with signature := some (sponsored.signature.getD []) } true)
    .ret .result

/-- A request with a user operation. -/
def requestWith (o : Operation) (u : WireUserOperation) (entryPoint : Address) (sends : Bool) (go : Prog Answer) :
    Prog Answer := do
  checkRequest o u entryPoint sends
  match o.userOperationHash with
  | some hash =>
    if sends = true ∧ hash = cfg.getUserOperationHash u then .ret (.userOperationHash hash)
    else .fail (.operationAlreadySubmitted o.id)
  | none => do
    checkOperation o
    go

/-- `request`, for an operation and a call of RPC. -/
def request (operationId : Nat) (rpc : Rpc) : Prog Answer := do
  let o ← ownedOperation operationId
  match rpc with
  | .getUserOperationReceipt hash => do
    ensure (o.userOperationHash = some hash) .operationHashMismatch
    let _ ← ask .bundler
    .ret .result
  | rpc => do
    ensure (cfg.sponsor = true ∧ (o.gasPayment = some .selfFunded ∨ cfg.sponsorship = true)) .sponsorshipDisabled
    match rpc with
    | .getUserOperationGasPrice => do
      let _ ← ask .bundler
      .ret .result
    | .sponsorUserOperation u entryPoint => do
      ensure (o.gasPayment ≠ some .selfFunded) .selfFundedPaymasterForbidden
      requestWith cfg o u entryPoint false (sponsor o u)
    | .estimateUserOperationGas u entryPoint => requestWith cfg o u entryPoint false do
      let _ ← ask .bundler
      .ret .result
    | .sendUserOperation u entryPoint => requestWith cfg o u entryPoint true (send cfg o u)
    | _ => .fail .rpcMethodNotAllowed

/-- A request, and its response. -/
def serve (operationId : Nat) (rpc : Rpc) : Prog Unit := do
  let _ ← ask (.request operationId rpc)
  let answer ← request cfg operationId rpc
  ask (.respond operationId answer)

/-! ## The policy -/

/-- The session of an operation that a session signs. -/
def checkSession (o : Operation) : Prog Unit :=
  if o.signingMode = some .session then do
    let _ ← ask (.check (.controlledAccount o.accountId false))
    ask (.check (.tradingSession o.id))
  else .ret ()

/-- The mark that serializes with cancellation comes before the answer. -/
def markProceed (o : Operation) : Prog (Option Nat) := do
  let now ← ask .clock
  let (changed, _) ← ask (.transition o.id .proceed now)
  if changed = true then .ret (some o.id) else .ret none

/-- The `try` block of `policy`, up to the answer: the operation for which the provider may proceed. -/
def admitted (u : WireUserOperation) : Prog (Option Nat) := do
  match ← ask (.policyCandidate u.sender u.nonce u.callData) with
  | none => .ret none
  | some record => do
    let o := record.operation
    if o.gasPayment = some .selfFunded then .ret none
    else do
      checkSession o
      let now ← ask .clock
      if o.expiresAt ≤ now ∨ utcDay o.createdAt ≠ utcDay now then .ret none
      else do
        ofExcept (assertOperationBinding o u)
        checkDeposit o
        ofExcept (assertGasCeiling o u false)
        markProceed o

/-- `policy`, for the user operation of a callback, if it is one. A denial does not matter to anything else. -/
def policy (body : Option WireUserOperation) : Prog Unit := do
  if cfg.sponsor = false ∨ cfg.sponsorship = false then .ret ()
  else
    match body with
    | none => .ret ()
    | some u => do
      match ← (admitted u).attempt with
      | .ok (some id) => ask (.proceed id)
      | _ => .ret ()

/-! ## Cancellation -/

/-- `cancel` -/
def cancel (id : Nat) : Prog Unit := do
  let _ ← ownedOperation id
  let now ← ask .clock
  let (changed, _) ← ask (.transition id .cancel now)
  ensure (changed = true) (.operationAlreadySubmitted id)

end

end Cpredict.Operations
