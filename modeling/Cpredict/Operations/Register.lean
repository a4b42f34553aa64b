import Cpredict.Operations.Recovery

/-!
# The registration of operations

`OperationService.register`: the calls of an intent are built from the intent alone, with what the chain says of its
market, order or listing; they must be the calls that the user has been shown. The record begins in the state
`awaitingSignature`.
-/

namespace Cpredict.Operations

open Program Session

/-- `budgetLane` -/
def budgetLane : BusinessIntent → BudgetLane
  | .depositUsdc _ _ | .buy _ _ _ _ _ _ | .createOrder _ _ _ _ _ _ _ | .fillOrder _ _ _ _ _ _ | .createListing _ _ _ _ _
  | .fillListing _ _ _ _ _ | .other .faucet | .other .createMarket => .exposure
  | _ => .exit

def BusinessIntent.isFaucet : BusinessIntent → Bool
  | .other .faucet => true
  | _ => false

/-! ## What an intent names -/

/-- `"market" in intent`, of the intents whose calls are built here. -/
def BusinessIntent.market : BusinessIntent → Option Address
  | .buy market _ _ _ _ _ | .createOrder market _ _ _ _ _ _ | .createListing market _ _ _ _ | .claim _ market =>
      some market
  | _ => none

def BusinessIntent.orderId : BusinessIntent → Option Nat
  | .fillOrder id _ _ _ _ _ | .cancelOrder id | .releaseOrder id => some id
  | _ => none

def BusinessIntent.listingId : BusinessIntent → Option Bytes32
  | .fillListing id _ _ _ _ | .cancelListing id | .returnListing id => some id
  | _ => none

def BusinessIntent.deadline : BusinessIntent → Option Nat
  | .buy _ _ _ _ _ deadline | .fillOrder _ _ _ _ _ deadline | .fillListing _ _ _ _ deadline => some deadline
  | _ => none

/-- The units and the least units. -/
def BusinessIntent.units : BusinessIntent → Option (Nat × Nat)
  | .buy _ _ units minUnits _ _ | .fillOrder _ _ units minUnits _ _ | .fillListing _ units minUnits _ _ =>
    some (units, minUnits)
  | _ => none

def BusinessIntent.isOrder : BusinessIntent → Bool
  | .createOrder _ _ _ _ _ _ _ | .fillOrder _ _ _ _ _ _ | .cancelOrder _ | .releaseOrder _ => true
  | _ => false

def BusinessIntent.isCreateListing : BusinessIntent → Bool
  | .createListing _ _ _ _ _ => true
  | _ => false

/-- Only the owner may. -/
def BusinessIntent.ownerOnly : BusinessIntent → Bool
  | .cancelOrder _ | .releaseOrder _ | .cancelListing _ | .returnListing _ => true
  | _ => false

/-! ## The admission of an intent -/

/-- The check of the version 1 of the fill policy. -/
def wholeOrder (order : OrderView) (units minUnits : Nat) : Except AppErr Unit :=
  match order.allowPartialFills, order.units with
  | some partialFills, some open' =>
    if partialFills = false ∧ (units ≠ open' ∨ minUnits ≠ open') then .error .refused else .ok ()
  | _, _ => .error .refused

section

variable (cfg : ServiceConfig)

/-- The checks of the order of an intent. -/
def checkOrder (account : Address) (intent : BusinessIntent) (order : OrderView) : Prog Unit := do
  ensure (order.active = true) .refused
  if intent.ownerOnly = true then ensure (order.owner = account) .refused
  else do
    ofExcept (if cfg.deployment.orderbookFillPolicyVersion = 1 then
      wholeOrder order (intent.units.getD (0, 0)).1 (intent.units.getD (0, 0)).2 else .ok ())
    ensure (order.owner ≠ account) .refused

/-- The order of an intent that names one. -/
def admittedOrder (account : Address) (intent : BusinessIntent) : Prog (Option OrderView) := do
  match intent.orderId with
  | none => .ret none
  | some id => do
    let order ← ask (.order id)
    checkOrder cfg account intent order
    .ret (some order)

/-- The listing of an intent that names one. -/
def admittedListing (account : Address) (intent : BusinessIntent) : Prog (Option ListingView) := do
  match intent.listingId with
  | none => .ret none
  | some id => do
    let listing ← ask (.listing id)
    ensure (listing.active = true) .refused
    ensure (intent.ownerOnly = true → listing.seller = account) .refused
    .ret (some listing)

/-- The checks of the market of an intent. -/
def checkMarket (intent : BusinessIntent) : Option Address → Prog Unit
  | none => .ret ()
  | some market => do
    let _ ← ask (.check (.registeredMarket market))
    if budgetLane intent = .exposure then ask (.check (.verifiedRules market)) else .ret ()

/-- `buildBusinessCalls` -/
def buildBusinessCalls (account : Address) (intent : BusinessIntent) (nowSeconds : Nat) : Prog (List Call) := do
  ensure (intent.isFaucet = true ∨ budgetLane intent = .exit ∨ cfg.newExposure = true) .refused
  if supportsQuickTrading intent = false then ask (.otherCalls intent)
  else do
    ensure (intent.isOrder = false ∨ cfg.deployment.orderbookV2 = true) .refused
    let order ← admittedOrder cfg account intent
    ensure (cfg.deployment.orderbookV2 = false ∨ intent.listingId = none ∧ intent.isCreateListing = false) .refused
    let listing ← admittedListing account intent
    checkMarket intent (intent.market <|> order.map OrderView.market <|> listing.map ListingView.market)
    ensure (∀ deadline ∈ intent.deadline, nowSeconds < deadline ∧ deadline ≤ nowSeconds + 900) .refused
    ensure (∀ units ∈ intent.units, units.2 ≤ units.1) .refused
    ensure (∀ view ∈ listing, intent.ownerOnly = true ∨ view.seller ≠ account) .refused
    ofExcept (callsOf cfg.deployment account order nowSeconds intent)

/-- What the user asks to register. -/
structure RegisterInput where
  subject : Nat
  accountId : Nat
  idempotencyKey : Nat
  intent : BusinessIntent
  signingMode : Option SigningMode
  sessionId : Option Nat
  nonce : Nat
  callData : Bytes
  factory : Option Address
  factoryData : Option Bytes
  gasPayment : Option GasPayment
  /-- `keccak256(JSON.stringify(input))` -/
  requestHash : Bytes32

/-- What `prepare` returns, as far as it is compared. -/
structure Prepared where
  account : Address
  nonce : Nat
  callData : Bytes
  factory : Option Address
  factoryData : Option Bytes

/-- `deposits.validate` and `tradingSessions.usable`, of the inputs that need them. -/
def checkInput (input : RegisterInput) : Prog Unit := do
  let gasPayment := input.gasPayment.getD .sponsored
  ensure (input.signingMode = some .session ↔ input.sessionId.isSome = true) .refused
  ensure (input.signingMode = some .session → gasPayment = .sponsored) .refused
  match input.sessionId with
  | none => if input.intent.isDeposit = true then ask (.check (.deposit input.idempotencyKey)) else .ret ()
  | some sessionId => do
    ensure (supportsQuickTrading input.intent = true) .tradingSessionUnavailable
    ask (.check (.usableSession sessionId))

/-- `prepare` -/
def prepare (input : RegisterInput) : Prog Prepared := do
  ensure (cfg.sponsor = true ∧ (input.gasPayment.getD .sponsored = .sponsored → cfg.sponsorship = true))
    .sponsorshipDisabled
  let _ ← ask (.check (.controlledAccount input.accountId true))
  let account ← ask (.account input.accountId)
  checkInput input
  let nowSeconds ← ask .latestTimestamp
  let calls ← buildBusinessCalls cfg account input.intent nowSeconds
  let nonce ← ask (.kernelNonce account input.sessionId)
  let (factory, factoryData) ← ask (.factoryArgs account)
  .ret ⟨account, nonce, cfg.encodeCalls input.sessionId (calls.map fun c => { c with value := 0 }),
    factory, factoryData⟩

/-- The record that is admitted. -/
def newOperation (input : RegisterInput) (prepared : Prepared) (id now : Nat) : Operation where
  id := id
  environment := cfg.environment
  deploymentId := cfg.deploymentId
  accountId := input.accountId
  account := prepared.account
  intent := input.intent
  signingMode := input.signingMode
  sessionId := input.sessionId
  nonce := input.nonce
  callData := input.callData
  factory := input.factory
  factoryData := input.factoryData
  state := .awaitingSignature
  providerOperationId := none
  userOperationHash := none
  transactionHash := none
  blockNumber := none
  blockHash := none
  actualGasCost := none
  finality := .pending
  createdAt := now
  updatedAt := now
  expiresAt := now + cfg.validitySeconds * 1000
  maxGasCost := cfg.maxCostPerOperation
  lane := budgetLane input.intent
  reason := none
  gasPayment := some (input.gasPayment.getD .sponsored)
  sponsorshipAttempted := some false
  gasSettledAt := none
  gasReleasedAt := none

/-- `register`, with the random id. -/
def register (input : RegisterInput) (id : Nat) : Prog Unit := do
  let _ ← ask (.check (.controlledAccount input.accountId false))
  match ← ask (.byKey input.subject input.idempotencyKey) with
  | some old => ensure (old.requestHash = input.requestHash) .idempotencyConflict
  | none => do
    let prepared ← prepare cfg input
    ensure (input.callData = prepared.callData ∧ input.nonce = prepared.nonce ∧ input.factory = prepared.factory ∧
      input.factoryData = prepared.factoryData) .operationPreparationChanged
    let now ← ask .clock
    let _ ← ask (.admitOperation ⟨newOperation cfg input prepared id now, input.subject, input.idempotencyKey,
      input.requestHash⟩)
    .ret ()

end

end Cpredict.Operations
