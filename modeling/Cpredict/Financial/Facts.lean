import Cpredict.Financial.Args

/-!
# normalizeFinancialFacts

The normalizer turns the events of a scan into the facts of the ledger. An event that moves shares consumes the
transfers that its transaction has logged before it, so that a purchase and its mint are not two costs; what no
event has consumed is a transfer by itself. An event that finds fewer shares than it tells is followed by a
`coverage-gap`.
-/

namespace Cpredict.Financial

open Outcome Indexer

inductive FactKind
  | marketCreated | marketInitialized | marketMetadata | economicSnapshot | primaryBuy | orderCreated
  | orderReleased | orderSharesDeferred | orderFundsReturned | listingCreated | listingFilled
  | listingCancelled | listingReturned | marketResolved | marketVoided | winnerClaimed | earlyBirdClaimed
  | refunded | timeoutFunded | timeoutClaimed | losingBurned | remainderAssigned | shareTransfer
  | paymentTransfer | bondLocked | bondCredited | bondTimeoutFunded | bondClaimed | feeAccrued | feeClaimed
  | userOperation | coverageGap
deriving DecidableEq

structure LedgerFact where
  kind : FactKind
  blockNumber : Nat
  blockHash : Bytes32
  transactionHash : Bytes32
  transactionIndex : Nat
  logIndex : Nat
  factIndex : Nat
  timestamp : Nat
  market : Option Address
  owner : Option Address
  counterparty : Option Address
  outcomeId : Option Nat
  listingId : Option Bytes32
  units : Option Nat
  amount : Option Nat
  extra : Args
deriving DecidableEq

/-- `ledgerFactSchema`: no address is zero, and every number is an unsigned word. -/
def LedgerFact.valid (f : LedgerFact) : Bool :=
  let isUint (n : Nat) : Bool := decide (n < 2 ^ 256)
  let isAddress (x : Address) : Bool := decide (x ≠ 0)
  isUint f.blockNumber && isUint f.blockHash && isUint f.transactionHash && isUint f.timestamp &&
    f.market.all isAddress &&
    f.owner.all isAddress && f.counterparty.all isAddress && f.outcomeId.all isUint && f.listingId.all isUint &&
    f.units.all isUint && f.amount.all isUint

/-- The fields that a call of `add` gives; the others are those of the event. -/
structure Fields where
  kind : FactKind
  factIndex : Nat := 0
  market : Option Address := none
  owner : Option Address := none
  counterparty : Option Address := none
  outcomeId : Option Nat := none
  listingId : Option Bytes32 := none
  units : Option Nat := none
  amount : Option Nat := none
  extra : Args := .empty
deriving DecidableEq

/-- What the normalizer reads of the environment. -/
structure Deployment where
  factory : Address
  marketplace : Address
  feeVault : Address
  bondEscrow : Address
  paymentToken : Address
  entryPoint : Address
  /-- `marketplaceVersion === "orderbook-v2"` -/
  orderbook : Bool
  /-- `protocolVersion === "legacy-v1"` -/
  legacy : Bool

structure LedgerListing where
  market : Address
  seller : Address
  outcomeId : Nat
deriving DecidableEq

structure FinancialContext where
  deployment : Deployment
  markets : Finset Address
  listings : Bytes32 → Option LedgerListing
  orders : Nat → Option Args
  trackedAccounts : Finset Address

/-- A transfer of shares of a market, with the units that no event has consumed. -/
structure Movement where
  event : IndexedEvent
  index : Nat
  market : Address
  source : Option Address
  target : Option Address
  outcome : Nat
  remaining : Nat
deriving DecidableEq

/-- The state of the scan: the movements and the facts. -/
structure Ledger where
  movements : List Movement
  output : List LedgerFact

/-! ## consume, add, coverage -/

/-- A transfer that an event may consume: one that its transaction has logged before it. -/
def Movement.fits (e : IndexedEvent) (market : Address) (source target : Option Address) (outcome : Option Nat)
    (m : Movement) :
    Bool :=
  decide (m.event.transactionHash = e.transactionHash ∧ m.event.logIndex ≤ e.logIndex ∧ m.market = market ∧
    m.source = source ∧ m.target = target) && outcome.all fun o => decide (m.outcome = o)

/-- The loop of `consume`: each movement that fits gives what is still needed, until nothing is. -/
def consumeLoop (fits : Movement → Bool) : Nat → List Movement → List Used × List Movement
  | _, [] => ([], [])
  | needed, m :: rest =>
    if fits m = false ∨ m.remaining = 0 then
      let x := consumeLoop fits needed rest
      (x.1, m :: x.2)
    else
      let take := min needed m.remaining
      let used := if 0 < take then [⟨m.outcome, take⟩] else []
      let m := { m with remaining := m.remaining - take }
      if needed - take = 0 then (used, m :: rest)
      else
        let x := consumeLoop fits (needed - take) rest
        (used ++ x.1, m :: x.2)

namespace Ledger

def consume (e : IndexedEvent) (market : Address) (source target : Option Address) (units : Nat) (outcome : Option Nat)
    (s : Ledger) : List Used × Ledger :=
  let x := consumeLoop (Movement.fits e market source target outcome) units s.movements
  (x.1, { s with movements := x.2 })

/-- The fact of an event. -/
def fact (e : IndexedEvent) (timestamp : Nat) (f : Fields) : LedgerFact where
  kind := f.kind
  blockNumber := e.blockNumber
  blockHash := e.blockHash
  transactionHash := e.transactionHash
  transactionIndex := e.transactionIndex
  logIndex := e.logIndex
  factIndex := f.factIndex
  timestamp
  market := f.market
  owner := f.owner
  counterparty := f.counterparty
  outcomeId := f.outcomeId
  listingId := f.listingId
  units := f.units
  amount := f.amount
  extra := f.extra.jsonSafe

variable (timestamps : Nat → Option Nat)

def add (e : IndexedEvent) (f : Fields) (s : Ledger) : Except FinancialErr Ledger :=
  match timestamps e.blockNumber with
  | none => .error .noCanonicalTimestamp
  | some timestamp =>
    let f := fact e timestamp f
    if f.valid = true then .ok { s with output := s.output ++ [f] } else .error .invalidFact

/-- Calls of `add`, one after the other. -/
def addAll (e : IndexedEvent) (fs : List Fields) (s : Ledger) : Except FinancialErr Ledger :=
  fs.foldlM (fun s f => s.add timestamps e f) s

def coverage (e : IndexedEvent) (market owner : Address) (units : Nat) (used : List Used) (s : Ledger) :
    Except FinancialErr Ledger :=
  if (used.map Used.units).sum ≠ units then
    s.add timestamps e
      { kind := .coverageGap, market := some market, owner := some owner, factIndex := 999
        extra := .of [("reason", .text "share_movement_missing")] }
  else .ok s

/-- An event that moves shares: it consumes them, its facts are added, and what it has used is checked for `owner`. -/
def settle (e : IndexedEvent) (market owner : Address) (source target : Option Address) (units : Nat)
    (outcome : Option Nat)
    (fs : List Used → List Fields) (s : Ledger) : Except FinancialErr Ledger := do
  let x := s.consume e market source target units outcome
  let s ← x.2.addAll timestamps e (fs x.1)
  s.coverage timestamps e market owner units x.1

end Ledger

/-! ## The events -/

section

variable (c : FinancialContext) (timestamps : Nat → Option Nat) (e : IndexedEvent) (a : Args)

def onMarketCreated (s : Ledger) : Except FinancialErr Ledger := do
  let market ← a.addr "market"
  let creator ← a.addr "creator"
  let fee ← a.amount "creationFee"
  s.add timestamps e
    { kind := .marketCreated, market := some market, owner := some creator, amount := some fee, extra := a }

/-- The id of an order, as the id of a listing. -/
def orderListingId (id : Nat) : Bytes32 := id

/-! ### The orderbook -/

def onOrderCreated (s : Ledger) : Except FinancialErr Ledger := do
  let market ← a.addr "vault"
  let owner ← a.addr "owner"
  let outcomeId ← a.amount "outcomeId"
  let units ← a.amount "units"
  let locked ← a.amount "lockedPayment"
  let orderId ← a.amount "orderId"
  let s ← s.add timestamps e
    { kind := .orderCreated, market := some market, owner := some owner, outcomeId := some outcomeId
      units := some units, amount := some locked, listingId := some (orderListingId orderId), extra := a }
  if a.numberIs "side" 1 = true then
    s.settle timestamps e market owner (some owner) (some c.deployment.marketplace) units (some outcomeId) fun _ =>
      [{ kind := .listingCreated, market := some market, owner := some owner, units := some units, outcomeId :=
        some outcomeId,
         listingId := some (orderListingId orderId)
         extra := a.spread [("orderId", .decimal orderId), ("orderbook", .bool true)] }]
  else .ok s

def onBidExcessReturned (s : Ledger) : Except FinancialErr Ledger := do
  let orderId ← a.amount "orderId"
  match c.orders orderId with
  | none => .error .orderFundsWithoutCreation
  | some order => do
    let market ← order.addr "vault"
    let owner ← a.addr "owner"
    let outcomeId ← order.amount "outcomeId"
    let amount ← a.amount "amount"
    s.add timestamps e
      { kind := .orderFundsReturned, market := some market, owner := some owner, outcomeId := some outcomeId
        amount := some amount, listingId := some (orderListingId orderId), extra := a }

def onOrderReleased (s : Ledger) : Except FinancialErr Ledger := do
  let orderId ← a.amount "orderId"
  match c.orders orderId with
  | none => .error .orderReleaseWithoutCreation
  | some order => do
    let market ← order.addr "vault"
    let owner ← a.addr "owner"
    let outcomeId ← order.amount "outcomeId"
    let units ← a.amount "returnedUnits"
    let payment ← a.amount "returnedPayment"
    let unitPrice ← order.amount "unitPrice"
    let s ← s.add timestamps e
      { kind := .orderReleased, market := some market, owner := some owner, outcomeId := some outcomeId
        units := some units, amount := some payment, listingId := some (orderListingId orderId)
        extra := a.spread (("unitPrice", .decimal unitPrice) :: (order.get "side").toList.map fun side =>
          ("side", side)) }
    if order.numberIs "side" 1 = true ∧ 0 < units then
      s.settle timestamps e market owner (some c.deployment.marketplace) (some owner) units (some outcomeId) fun _ =>
        [{ kind := .listingReturned, market := some market, owner := some owner, units := some units, outcomeId :=
          some outcomeId,
           listingId := some (orderListingId orderId), extra := a.spread [("orderbook", .bool true)] }]
    else .ok s

def onOrderSharesDeferred (s : Ledger) : Except FinancialErr Ledger := do
  let orderId ← a.amount "orderId"
  match c.orders orderId with
  | none => .error .orderDeferredWithoutCreation
  | some order => do
    let market ← order.addr "vault"
    let owner ← a.addr "owner"
    let outcomeId ← order.amount "outcomeId"
    let units ← a.amount "units"
    s.add timestamps e
      { kind := .orderSharesDeferred, market := some market, owner := some owner, outcomeId := some outcomeId
        units := some units, listingId := some (orderListingId orderId), extra := a }

/-- The deferred shares of an order go to a recipient: back to the owner, and from there to the recipient. -/
def onOrderSharesWithdrawn (s : Ledger) : Except FinancialErr Ledger := do
  let orderId ← a.amount "orderId"
  match (c.orders orderId).filter fun order => order.numberIs "side" 1 with
  | none => .error .orderWithdrawalWithoutAsk
  | some order => do
    let market ← order.addr "vault"
    let owner ← a.addr "owner"
    let recipient ← a.addr "recipient"
    let units ← a.amount "units"
    let outcomeId ← order.amount "outcomeId"
    s.settle timestamps e market recipient (some c.deployment.marketplace) (some recipient) units (some outcomeId)
      fun _ =>
      { kind := .listingReturned, market := some market, owner := some owner, outcomeId := some outcomeId,
        units := some units
        listingId := some (orderListingId orderId)
        extra := a.spread [("orderbook", .bool true), ("deferred", .bool true)] } ::
      if owner ≠ recipient then
        [{ kind := .shareTransfer, market := some market, owner := some owner, counterparty := some recipient
           outcomeId := some outcomeId, units := some units, factIndex := 1
           extra := .of [("source", .text "deferred-order-withdrawal"), ("orderId", .decimal orderId)] }]
      else []

def onTradeExecuted (s : Ledger) : Except FinancialErr Ledger := do
  let market ← a.addr "vault"
  let buyer ← a.addr "buyer"
  let seller ← a.addr "seller"
  let units ← a.amount "units"
  let outcomeId ← a.amount "outcomeId"
  let gross ← a.amount "gross"
  let orderId ← a.amount "orderId"
  let remaining ← a.amount "remainingAskUnits"
  let platformFee ← a.amount "platformFee"
  let creatorFee ← a.amount "creatorFee"
  let source := if a.get "escrowed" = some (.bool true) then c.deployment.marketplace else seller
  s.settle timestamps e market buyer (some source) (some buyer) units (some outcomeId) fun _ =>
    [{ kind := .listingFilled, market := some market, owner := some buyer, counterparty :=
      some seller, units := some units
       outcomeId := some outcomeId, amount := some gross, listingId := some (orderListingId orderId)
       extra := a.spread [("orderbook", .bool true), ("remainingUnits", .decimal remaining),
         ("sellerProceeds", .decimal ((gross : Int) - platformFee - creatorFee))] }]

/-! ### The fixed-price marketplace -/

/-- The handlers of listings, with the listing of the event. -/
def withListing (g : Bytes32 → LedgerListing → Ledger → Except FinancialErr Ledger) (s : Ledger) :
    Except FinancialErr Ledger := do
  let listingId ← a.hex "listingId"
  match c.listings listingId with
  | none => .error .unknownListing
  | some listing => g listingId listing s

def onListingCreated (listingId : Bytes32) (listing : LedgerListing) (s : Ledger) : Except FinancialErr Ledger := do
  let units ← a.amount "amount"
  s.settle timestamps e listing.market listing.seller (some listing.seller) (some c.deployment.marketplace) units
    (some listing.outcomeId) fun _ =>
    [{ kind := .listingCreated, market := some listing.market, outcomeId := some listing.outcomeId, listingId :=
      some listingId
       owner := some listing.seller, units := some units, extra := a }]

def onListingFilled (listingId : Bytes32) (listing : LedgerListing) (s : Ledger) : Except FinancialErr Ledger := do
  let buyer ← a.addr "buyer"
  let units ← a.amount "filledUnits"
  let gross ← a.amount "gross"
  s.settle timestamps e listing.market buyer (some c.deployment.marketplace) (some buyer) units
    (some listing.outcomeId) fun _ =>
    [{ kind := .listingFilled, market := some listing.market, outcomeId := some listing.outcomeId, listingId :=
      some listingId
       owner := some buyer, counterparty := some listing.seller, units := some units, amount :=
         some gross, extra := a }]

/-- A listing that is cancelled, or returned after the end of its market. -/
def onListingClosed (kind : FactKind) (listingId : Bytes32) (listing : LedgerListing) (s : Ledger) :
    Except FinancialErr Ledger := do
  let units ← a.amount "returnedUnits"
  s.settle timestamps e listing.market listing.seller (some c.deployment.marketplace) (some listing.seller) units
    (some listing.outcomeId) fun _ =>
    [{ kind, market := some listing.market, outcomeId := some listing.outcomeId, listingId := some listingId
       owner := some listing.seller, units := some units, extra := a }]

/-! ### Fees, bonds, payments and user operations -/

/-- The market of an accrued fee, by its source and reference. -/
def feeMarket : Except FinancialErr (Option Address) := do
  let source ← a.addr "source"
  let reference ← a.hex "feeReference"
  if source ∈ c.markets then .ok (some source)
  else if source = c.deployment.marketplace then
    if c.deployment.orderbook = true then
      match (c.orders reference).filter fun order => order.has "vault" with
      | none => .ok none
      | some order => return some (← order.addr "vault")
    else .ok ((c.listings reference).map LedgerListing.market)
  else if source = c.deployment.factory then
    -- the last 20 bytes of the reference
    let candidate := Cpredict.addr reference
    .ok (if candidate ∈ c.markets then some candidate else none)
  else .ok none

def onFee (kind : FactKind) (s : Ledger) : Except FinancialErr Ledger := do
  let market ← (if kind = .feeAccrued then feeMarket c a else .ok none)
  let beneficiary ← a.addr "beneficiary"
  let amount ← a.amount "amount"
  s.add timestamps e { kind, market, owner := some beneficiary, amount := some amount, extra := a }

/-- An argument that may be missing. -/
def optionalAddr (k : String) : Except FinancialErr (Option Address) :=
  if a.has k = true then some <$> a.addr k else .ok none

def onBond (kind : FactKind) (s : Ledger) : Except FinancialErr Ledger := do
  let market ← optionalAddr a "market"
  let owner ← optionalAddr a "creator"
  let amount ← a.amount "amount"
  s.add timestamps e { kind, market, owner, amount := some amount, extra := a }

/-- A payment from or to an account that is tracked. -/
def onTransfer (s : Ledger) : Except FinancialErr Ledger := do
  let source ← a.nullableAddr "from"
  let target ← a.nullableAddr "to"
  if source.any (fun x => decide (x ∈ c.trackedAccounts)) ||
    target.any (fun x => decide (x ∈ c.trackedAccounts)) then do
    let amount ← a.amount "value"
    s.add timestamps e
      { kind := .paymentTransfer, owner := source, counterparty := target, amount := some amount
        extra := .of [("mint", .bool source.isNone)] }
  else .ok s

def onUserOperation (s : Ledger) : Except FinancialErr Ledger := do
  let sender ← a.addr "sender"
  if sender ∈ c.trackedAccounts then do
    let cost ← a.amount "actualGasCost"
    s.add timestamps e { kind := .userOperation, owner := some sender, amount := some cost, extra := a }
  else .ok s

/-! ### The markets -/

def onPrimaryPurchased (s : Ledger) : Except FinancialErr Ledger := do
  let owner ← a.addr "buyer"
  let units ← a.amount "filledUnits"
  let outcomeId ← a.amount "outcomeId"
  let payment ← a.amount "payment"
  let weight ← a.amount "earlyBirdWeight"
  s.settle timestamps e e.address owner none (some owner) units (some outcomeId) fun _ =>
    [{ kind := .primaryBuy, market := some e.address, owner := some owner, units :=
      some units, outcomeId := some outcomeId
       amount := some payment, extra := a.spread [("score", .decimal (units * weight : Nat))] }]

/-- A claim, a refund, or losing shares that are burned: the event does not tell the outcomes of the first two. -/
def onBurned (kind : FactKind) (s : Ledger) : Except FinancialErr Ledger := do
  let owner ← a.addr "owner"
  let units ← Args.amountOf ((a.get "burnedUnits").or (a.get "units"))
  let outcome ← (if kind = .losingBurned then some <$> a.amount "outcomeId" else .ok none)
  let amount ← (if kind = .losingBurned then .ok none else some <$> Args.amountOf
    ((a.get "payout").or (a.get "refund")))
  s.settle timestamps e e.address owner (some owner) none units outcome fun used =>
    [{ kind, market := some e.address, owner := some owner, units := some units
       outcomeId := if used.length = 1 then used.head?.map Used.outcomeId else none, amount
       extra := a.spread [("consumed", .used used)] }]

/-- The reason of a void, in the legacy protocol by its terminal state. -/
def voidedExtra : Except FinancialErr Args :=
  if c.deployment.legacy = true then
    if a.numberIs "terminalState" 0 || a.numberIs "terminalState" 1 then .ok (a.spread [("reason", .number 0)])
    else if a.numberIs "terminalState" 2 then .ok (a.spread [("reason", .number 1)])
    else if a.numberIs "terminalState" 3 then .ok (a.spread [("reason", .number 3)])
    else .error .invalidLegacyState
  else .ok a

/-- The `switch` of the events of markets. -/
def onMarket (name : EventName) (s : Ledger) : Except FinancialErr Ledger := do
  let market := some e.address
  match name with
  | .MarketInitialized => do
    let creator ← a.addr "creator"
    s.add timestamps e { kind := .marketInitialized, market, owner := some creator, extra := a }
  | .MarketMetadataUpdated => do
    let treasury ← a.addr "creatorTreasury"
    s.add timestamps e { kind := .marketMetadata, market, owner := some treasury, extra := a }
  | .EconomicSnapshotCreated => s.add timestamps e { kind := .economicSnapshot, market, extra := a }
  | .PrimaryPurchased => onPrimaryPurchased timestamps e a s
  | .MarketResolved => do
    let outcomeId ← a.amount "winningOutcome"
    s.add timestamps e { kind := .marketResolved, market, outcomeId := some outcomeId, extra := a }
  | .MarketVoided => do
    let extra ← voidedExtra c a
    s.add timestamps e { kind := .marketVoided, market, extra }
  | .WinnerClaimed => onBurned timestamps e a .winnerClaimed s
  | .PrincipalRefunded => onBurned timestamps e a .refunded s
  | .LosingPositionBurned => onBurned timestamps e a .losingBurned s
  | .EarlyBirdClaimed => do
    let owner ← a.addr "owner"
    let reward ← a.amount "reward"
    s.add timestamps e { kind := .earlyBirdClaimed, market, owner := some owner, amount := some reward, extra := a }
  | .TimeoutBonusClaimed => do
    let owner ← a.addr "owner"
    let units ← a.amount "units"
    let reward ← a.amount "reward"
    s.add timestamps e
      { kind := .timeoutClaimed, market, owner := some owner, units := some units, amount := some reward, extra := a }
  | .TimeoutBonusFunded => do
    let amount ← a.amount "amount"
    s.add timestamps e { kind := .timeoutFunded, market, amount := some amount, extra := a }
  | .FinalRemainderAssigned => do
    let owner ← a.addr "owner"
    let amount ← a.amount "amount"
    s.add timestamps e { kind := .remainderAssigned, market, owner := some owner, amount := some amount, extra := a }
  | _ => .ok s

/-! ## The loop -/

/-- The body of the loop: the address of the log decides who reads it. -/
def onEvent (d : Decoded) (s : Ledger) : Except FinancialErr Ledger :=
  let e := d.event
  let a := d.args
  let marketplace := e.address = c.deployment.marketplace
  let orderbook := marketplace ∧ c.deployment.orderbook = true
  let bondEscrow := e.address = c.deployment.bondEscrow
  match d.name with
  | .MarketCreated => if e.address = c.deployment.factory then onMarketCreated timestamps e a s else .ok s
  | .OrderCreated => if orderbook then onOrderCreated c timestamps e a s else .ok s
  | .BidExcessReturned => if orderbook then onBidExcessReturned c timestamps e a s else .ok s
  | .OrderReleased => if orderbook then onOrderReleased c timestamps e a s else .ok s
  | .OrderSharesDeferred => if orderbook then onOrderSharesDeferred c timestamps e a s else .ok s
  | .OrderSharesWithdrawn => if orderbook then onOrderSharesWithdrawn c timestamps e a s else .ok s
  | .TradeExecuted => if orderbook then onTradeExecuted c timestamps e a s else .ok s
  | .ListingCreated => if marketplace then withListing c a (onListingCreated c timestamps e a) s else .ok s
  | .ListingFilled => if marketplace then withListing c a (onListingFilled c timestamps e a) s else .ok s
  | .ListingCancelled =>
    if marketplace then withListing c a (onListingClosed c timestamps e a .listingCancelled) s else .ok s
  | .TerminalListingReturned =>
    if marketplace then withListing c a (onListingClosed c timestamps e a .listingReturned) s else .ok s
  | .FeeAccrued => if e.address = c.deployment.feeVault then onFee c timestamps e a .feeAccrued s else .ok s
  | .FeeClaimed => if e.address = c.deployment.feeVault then onFee c timestamps e a .feeClaimed s else .ok s
  | .BondLocked => if bondEscrow then onBond timestamps e a .bondLocked s else .ok s
  | .BondCredited => if bondEscrow then onBond timestamps e a .bondCredited s else .ok s
  | .BondFundedToTimeoutMarket => if bondEscrow then onBond timestamps e a .bondTimeoutFunded s else .ok s
  | .BondClaimed => if bondEscrow then onBond timestamps e a .bondClaimed s else .ok s
  | name =>
    if bondEscrow then .ok s
    else if name = .Transfer ∧ e.address = c.deployment.paymentToken then onTransfer c timestamps e a s
    else if name = .UserOperationEvent ∧ e.address = c.deployment.entryPoint then onUserOperation c timestamps e a s
    else if e.address ∈ c.markets then onMarket c timestamps e a name s
    else .ok s

/-- The transfers of a log of a market, as movements. -/
def movementsOf (markets : Finset Address) (d : Decoded) : Except FinancialErr (List Movement) :=
  if d.event.address ∉ markets then .ok []
  else match d.name with
    | .TransferSingle => do
      let source ← d.args.nullableAddr "from"
      let target ← d.args.nullableAddr "to"
      let outcome ← d.args.amount "id"
      let remaining ← d.args.amount "value"
      .ok [⟨d.event, 0, d.event.address, source, target, outcome, remaining⟩]
    | .TransferBatch =>
      match d.args.get "ids", d.args.get "values" with
      | some (.bigints ids), some (.bigints values) => do
        revertIf (ids.length ≠ values.length) .invalidBatchEvent
        if ids = [] then .ok []
        else do
          let source ← d.args.nullableAddr "from"
          let target ← d.args.nullableAddr "to"
          .ok ((ids.zip values).mapIdx fun i x => ⟨d.event, i, d.event.address, source, target, x.1, x.2⟩)
      | _, _ => .error .invalidBatchEvent
    | _ => .ok []

/-- The movements of the logs, in order. -/
def allMovements (markets : Finset Address) (ds : List Decoded) : Except FinancialErr (List Movement) := do
  .ok (← ds.mapM (movementsOf markets)).flatten

end

/-- A market or a listing that a log creates is known to the whole scan. -/
def collect (c : FinancialContext) (d : Decoded) : Except FinancialErr FinancialContext := do
  let c ← (if d.name = .MarketCreated ∧ d.event.address = c.deployment.factory then do
      let market ← d.args.addr "market"
      .ok { c with markets := insert market c.markets }
    else .ok c)
  if d.name = .ListingCreated ∧ d.event.address = c.deployment.marketplace then do
    let listingId ← d.args.hex "listingId"
    let market ← d.args.addr "vault"
    let seller ← d.args.addr "seller"
    let outcomeId ← d.args.amount "outcomeId"
    .ok { c with listings := Function.update c.listings listingId (some ⟨market, seller, outcomeId⟩) }
  else .ok c

/-- An order that a log creates is known, too. -/
def collectOrder (c : FinancialContext) (d : Decoded) : Except FinancialErr FinancialContext :=
  if d.name = .OrderCreated ∧ d.event.address = c.deployment.marketplace then do
    let orderId ← d.args.amount "orderId"
    .ok { c with orders := Function.update c.orders orderId (some d.args) }
  else .ok c

def collectAll (c : FinancialContext) (ds : List Decoded) : Except FinancialErr FinancialContext := do
  let c ← ds.foldlM collect c
  ds.foldlM collectOrder c

/-- `new Map(blocks.map(...))`: the last block of a number counts. -/
def timestampsOf (blocks : List CanonicalBlock) (blockNumber : Nat) : Option Nat :=
  (blocks.reverse.find? fun b => b.blockNumber = blockNumber).map CanonicalBlock.timestamp

/-- `compareFacts` -/
def factLe (a b : LedgerFact) : Bool :=
  if a.blockNumber ≠ b.blockNumber then a.blockNumber < b.blockNumber
  else if a.transactionIndex ≠ b.transactionIndex then a.transactionIndex < b.transactionIndex
  else if a.logIndex ≠ b.logIndex then a.logIndex < b.logIndex
  else a.factIndex ≤ b.factIndex

/-- The transfers that no event has consumed. -/
def residual (timestamps : Nat → Option Nat) (s : Ledger) : Except FinancialErr Ledger :=
  (s.movements.filter fun m => decide (0 < m.remaining)).foldlM (fun s m => s.add timestamps m.event
    { kind := .shareTransfer, market := some m.market, owner := m.source, counterparty := m.target,
      outcomeId := some m.outcome
      units := some m.remaining, factIndex := m.index, extra := .of [("source", .text "ERC1155")] }) s

section

variable (decodeEventLog : IndexedEvent → Except FinancialErr (Option (EventName × Args)))

/-- The logs that are in the table of events. -/
def decodeAll (events : List IndexedEvent) : Except FinancialErr (List Decoded) := do
  let ds ← events.mapM fun e => do
    let x ← decodeEventLog e
    .ok (x.map fun y => (⟨e, y.1, y.2⟩ : Decoded))
  .ok (ds.filterMap id)

/-- The scan, before its facts are sorted. -/
def scan (events : List IndexedEvent) (blocks : List CanonicalBlock) (c : FinancialContext) :
    Except FinancialErr Ledger := do
  let ds ← decodeAll decodeEventLog (events.insertionSort (eventLe · ·))
  let c ← collectAll c ds
  let movements ← allMovements c.markets ds
  let s ← ds.foldlM (fun s d => onEvent c (timestampsOf blocks) d s) ⟨movements, []⟩
  residual (timestampsOf blocks) s

def normalizeFinancialFacts (events : List IndexedEvent) (blocks : List CanonicalBlock) (c : FinancialContext) :
    Except FinancialErr (List LedgerFact) := do
  let s ← scan decodeEventLog events blocks c
  .ok (s.output.insertionSort (factLe · ·))

end

end Cpredict.Financial
