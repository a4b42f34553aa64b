import Cpredict.Indexer.Derived
import Cpredict.Lib.OrderedMap
import Mathlib

/-!
# The projections

What `MemoryEventStore` derives of the events: the registered markets, the markets, listings, fills, positions,
claims, and the activities with their participants, each in a map whose keys start with the chain (`ChainKey`).
`project` makes the changes of an event.
-/

namespace Cpredict.Indexer.Memory

structure MarketView where
  chainId : Nat
  market : Address
  creator : Address
  deploymentMode : Nat
  outcomeCount : Option Nat
  closeAt : Option Nat
  createdAt : Option Nat
  eventStartsAt : Option Nat
  outcomeDeadlineAt : Option Nat
  resolutionWindow : Option Nat
  rulesHash : Option Bytes32
  metadataUri : Option String
  resolutionSourceHash : Option Bytes32
  resolutionSourceUri : Option String
  creatorTreasury : Option Address
  featureFlags : Option Nat
  marketPrimaryCap : Option Nat
  primaryFilledUnits : Nat
  primaryPayment : Nat
  creatorBond : Nat
  state : Nat
  voidReason : Nat
  winningOutcome : Option Nat
  evidenceHash : Option Bytes32
  evidenceUri : Option String
  createdBlock : Nat
  updatedBlock : Nat
  confirmationStatus : ConfirmationStatus
deriving DecidableEq

structure ListingView where
  chainId : Nat
  listingId : Bytes32
  vault : Address
  seller : Address
  outcomeId : Nat
  remainingUnits : Nat
  unitPrice : Nat
  expiresAt : Nat
  active : Bool
  createdBlock : Nat
  updatedBlock : Nat
  confirmationStatus : ConfirmationStatus
deriving DecidableEq

structure FillView where
  chainId : Nat
  transactionHash : Bytes32
  logIndex : Nat
  listingId : Bytes32
  vault : Address
  buyer : Address
  seller : Address
  filledUnits : Nat
  gross : Nat
  sellerProceeds : Nat
  platformFee : Nat
  creatorFee : Nat
  blockNumber : Nat
  confirmationStatus : ConfirmationStatus
deriving DecidableEq

/-- `marketState` and `winningOutcome` are null in the projection; the queries fill them in. -/
structure PositionView where
  chainId : Nat
  vault : Address
  owner : Address
  outcomeId : Nat
  balance : Int
  updatedBlock : Nat
  confirmationStatus : ConfirmationStatus
deriving DecidableEq

structure ClaimView where
  chainId : Nat
  transactionHash : Bytes32
  logIndex : Nat
  vault : Address
  owner : Address
  caller : Address
  claimKind : ClaimKind
  units : Nat
  amount : Nat
  blockNumber : Nat
  confirmationStatus : ConfirmationStatus
deriving DecidableEq

inductive ActivityKind
  | marketCreated
  | primaryPurchased
  | listingCreated
  | listingFilled
  | listingCancelled
  | terminalListingReturned
  | marketResolved
  | marketVoidedCreator
  | marketVoidedNoWinningSupply
  | marketVoidedTimeout
  | winnerClaimed
  | earlyBirdClaimed
  | principalRefunded
  | timeoutBonusClaimed
deriving DecidableEq

/-- The input of `recordActivity`; what is left out there is null. -/
structure ActivityInput where
  kind : ActivityKind
  vault : Address
  actor : Option Address
  counterparty : Option Address := none
  outcomeId : Option Nat := none
  listingId : Option Bytes32 := none
  units : Option Nat := none
  amount : Option Nat := none
deriving DecidableEq

structure ActivityView where
  chainId : Nat
  transactionHash : Bytes32
  logIndex : Nat
  kind : ActivityKind
  vault : Address
  actor : Option Address
  counterparty : Option Address
  outcomeId : Option Nat
  listingId : Option Bytes32
  units : Option Nat
  amount : Option Nat
  blockNumber : Nat
  confirmationStatus : ConfirmationStatus
deriving DecidableEq

/-- A key of the maps: the chain, and what follows it. -/
abbrev ChainKey (κ : Type) := Nat × κ

/-- `addressKey` -/
abbrev addressKey (chainId : Nat) (address : Address) : ChainKey Address := (chainId, address)

/-- `hexKey` -/
abbrev hexKey (chainId : Nat) (value : Bytes32) : ChainKey Bytes32 := (chainId, value)

/-- `eventKey` -/
abbrev eventKey (event : IndexedEvent) : ChainKey (Bytes32 × Nat) :=
  (event.chainId, event.transactionHash, event.logIndex)

/-- `positionKey` -/
abbrev positionKey (chainId : Nat) (vault owner : Address) (outcomeId : Nat) : ChainKey (Address × Address × Nat) :=
  (chainId, vault, owner, outcomeId)

structure Projections where
  registered : OrderedMap (ChainKey Address) Address
  markets : OrderedMap (ChainKey Address) MarketView
  listings : OrderedMap (ChainKey Bytes32) ListingView
  fills : OrderedMap (ChainKey (Bytes32 × Nat)) FillView
  positions : OrderedMap (ChainKey (Address × Address × Nat)) PositionView
  claims : OrderedMap (ChainKey (Bytes32 × Nat)) ClaimView
  activities : OrderedMap (ChainKey (Bytes32 × Nat)) ActivityView
  /-- The sets, in the order of insertion. -/
  activityParticipants : OrderedMap (ChainKey (Bytes32 × Nat)) (List Address)
deriving DecidableEq

namespace Projections

def empty : Projections := ⟨.empty, .empty, .empty, .empty, .empty, .empty, .empty, .empty⟩

/-- The part of the projections whose keys satisfy a predicate of the chain. -/
def restrict (p : Nat → Bool) (P : Projections) : Projections where
  registered := P.registered.restrict fun k => p k.1
  markets := P.markets.restrict fun k => p k.1
  listings := P.listings.restrict fun k => p k.1
  fills := P.fills.restrict fun k => p k.1
  positions := P.positions.restrict fun k => p k.1
  claims := P.claims.restrict fun k => p k.1
  activities := P.activities.restrict fun k => p k.1
  activityParticipants := P.activityParticipants.restrict fun k => p k.1

/-! ## recordActivity -/

/-- The participants of an activity. -/
def participants (input : ActivityInput) (extraParticipants : List Address) : List Address :=
  (input.actor.toList ++ input.counterparty.toList ++ extraParticipants).eraseDups

/-- The row of an activity. -/
def activityView (event : IndexedEvent) (input : ActivityInput) : ActivityView where
  chainId := event.chainId
  transactionHash := event.transactionHash
  logIndex := event.logIndex
  kind := input.kind
  vault := input.vault
  actor := input.actor
  counterparty := input.counterparty
  outcomeId := input.outcomeId
  listingId := input.listingId
  units := input.units
  amount := input.amount
  blockNumber := event.blockNumber
  confirmationStatus := event.confirmationStatus

def recordActivity (event : IndexedEvent) (input : ActivityInput) (extraParticipants : List Address) (P : Projections) :
    Projections :=
  { P with
    activities := P.activities.set (eventKey event) (activityView event input)
    activityParticipants := P.activityParticipants.set (eventKey event) (participants input extraParticipants) }

def terminalActivityKind : TerminalKind → ActivityKind
  | .resolved => .marketResolved
  | .voidedCreator => .marketVoidedCreator
  | .voidedNoWinningSupply => .marketVoidedNoWinningSupply
  | .voidedTimeout => .marketVoidedTimeout

def closeActivityKind : CloseKind → ActivityKind
  | .listingCancelled => .listingCancelled
  | .terminalListingReturned => .terminalListingReturned

def claimActivityKind : ClaimKind → ActivityKind
  | .winner => .winnerClaimed
  | .earlyBird => .earlyBirdClaimed
  | .principalRefund => .principalRefunded
  | .timeoutBonus => .timeoutBonusClaimed

/-! ## applyMutation -/

/-- A market that has only been created. -/
def createdMarket (event : IndexedEvent) (market creator : Address) (deploymentMode creatorBond : Nat) :
    MarketView where
  chainId := event.chainId
  market
  creator
  deploymentMode
  outcomeCount := none
  closeAt := none
  createdAt := none
  eventStartsAt := none
  outcomeDeadlineAt := none
  resolutionWindow := none
  rulesHash := none
  metadataUri := none
  resolutionSourceHash := none
  resolutionSourceUri := none
  creatorTreasury := none
  featureFlags := none
  marketPrimaryCap := none
  primaryFilledUnits := 0
  primaryPayment := 0
  creatorBond
  state := 0
  voidReason := 0
  winningOutcome := none
  evidenceHash := none
  evidenceUri := none
  createdBlock := event.blockNumber
  updatedBlock := event.blockNumber
  confirmationStatus := event.confirmationStatus

/-- The market of `market-initialized`, with what is known of it. -/
def initializedMarket (event : IndexedEvent) (current : Option MarketView) (market creator : Address)
    (deploymentMode outcomeCount : Nat) (createdAt : Option Nat) (closeAt : Nat)
    (eventStartsAt outcomeDeadlineAt : Option Nat) (resolutionWindow marketPrimaryCap creatorBond : Nat) :
    MarketView where
  chainId := event.chainId
  market
  creator
  deploymentMode
  outcomeCount := some outcomeCount
  createdAt
  closeAt := some closeAt
  eventStartsAt
  outcomeDeadlineAt
  resolutionWindow := some resolutionWindow
  rulesHash := current.bind MarketView.rulesHash
  metadataUri := current.bind MarketView.metadataUri
  resolutionSourceHash := current.bind MarketView.resolutionSourceHash
  resolutionSourceUri := current.bind MarketView.resolutionSourceUri
  creatorTreasury := current.bind MarketView.creatorTreasury
  featureFlags := current.bind MarketView.featureFlags
  marketPrimaryCap := some marketPrimaryCap
  primaryFilledUnits := (current.map MarketView.primaryFilledUnits).getD 0
  primaryPayment := (current.map MarketView.primaryPayment).getD 0
  creatorBond
  state := (current.map MarketView.state).getD 0
  voidReason := (current.map MarketView.voidReason).getD 0
  winningOutcome := current.bind MarketView.winningOutcome
  evidenceHash := current.bind MarketView.evidenceHash
  evidenceUri := current.bind MarketView.evidenceUri
  createdBlock := (current.map MarketView.createdBlock).getD event.blockNumber
  updatedBlock := event.blockNumber
  confirmationStatus := event.confirmationStatus

/-- The owners of positions in a market, as `market-terminal` finds them. -/
def holders (positions : OrderedMap (ChainKey (Address × Address × Nat)) PositionView) (chainId : Nat)
    (market : Address) : List Address :=
  (positions.values.filter fun position =>
    decide (position.chainId = chainId ∧ position.vault = market ∧ 0 < position.balance)).map PositionView.owner

def applyMutation (event : IndexedEvent) (P : Projections) : DerivedMutation → Except ProjectionErr Projections
  | .marketCreated market creator deploymentMode creatorBond =>
    let key := addressKey event.chainId market
    let P := { P with registered := P.registered.set key market }
    let P := if P.markets.has key = true then P
      else { P with markets := P.markets.set key (createdMarket event market creator deploymentMode creatorBond) }
    .ok (P.recordActivity event
      { kind := .marketCreated, vault := market, actor := some creator, amount := some creatorBond } [])
  | .marketInitialized market creator deploymentMode outcomeCount createdAt closeAt eventStartsAt outcomeDeadlineAt
      resolutionWindow marketPrimaryCap creatorBond =>
    let key := addressKey event.chainId market
    .ok { P with markets := P.markets.set key (initializedMarket event (P.markets.get key) market creator deploymentMode
      outcomeCount createdAt closeAt eventStartsAt outcomeDeadlineAt resolutionWindow marketPrimaryCap creatorBond) }
  | .marketMetadata market rulesHash metadataUri resolutionSourceHash resolutionSourceUri closeAt eventStartsAt
      outcomeDeadlineAt creatorTreasury featureFlags =>
    let key := addressKey event.chainId market
    match P.markets.get key with
    | none => .error (.metadataOfUnknownMarket market)
    | some current =>
      .ok { P with markets := P.markets.set key { current with
        rulesHash := some rulesHash, metadataUri := some metadataUri, resolutionSourceHash := some resolutionSourceHash
        resolutionSourceUri := some resolutionSourceUri, closeAt := some closeAt, eventStartsAt, outcomeDeadlineAt
        creatorTreasury := some creatorTreasury, featureFlags := some featureFlags
        updatedBlock := event.blockNumber, confirmationStatus := event.confirmationStatus } }
  | .primaryPurchased market buyer outcomeId filledUnits payment _ totalPrincipal =>
    let key := addressKey event.chainId market
    match P.markets.get key with
    | none => .error (.purchaseOfUnknownMarket market)
    | some current =>
      let P := { P with markets := P.markets.set key { current with
        primaryFilledUnits := current.primaryFilledUnits + filledUnits, primaryPayment := totalPrincipal
        updatedBlock := event.blockNumber, confirmationStatus := event.confirmationStatus } }
      .ok (P.recordActivity event
        { kind := .primaryPurchased, vault := market, actor := some buyer, outcomeId := some outcomeId
          units := some filledUnits, amount := some payment } [])
  | .marketTerminal market kind caller state voidReason winningOutcome evidenceHash =>
    let key := addressKey event.chainId market
    match P.markets.get key with
    | none => .error (.terminalOfUnknownMarket market)
    | some current =>
      let P := { P with markets := P.markets.set key { current with
        state, voidReason, winningOutcome, evidenceHash, evidenceUri := evidenceHash.bind evidenceUriFromHash
        updatedBlock := event.blockNumber, confirmationStatus := event.confirmationStatus } }
      .ok (P.recordActivity event { kind := terminalActivityKind kind, vault := market, actor := caller }
        (current.creator :: holders P.positions event.chainId market))
  | .listingCreated listingId vault seller outcomeId amount unitPrice expiresAt =>
    let listing : ListingView :=
      { chainId := event.chainId, listingId, vault, seller, outcomeId, remainingUnits := amount, unitPrice, expiresAt
        active := true, createdBlock := event.blockNumber, updatedBlock := event.blockNumber
        confirmationStatus := event.confirmationStatus }
    let P := { P with listings := P.listings.set (hexKey event.chainId listingId) listing }
    .ok (P.recordActivity event
      { kind := .listingCreated, vault, actor := some seller, outcomeId := some outcomeId, listingId := some listingId
        units := some amount, amount := some unitPrice } [])
  | .listingFilled listingId buyer seller filledUnits gross sellerProceeds platformFee creatorFee remainingUnits =>
    let key := hexKey event.chainId listingId
    match P.listings.get key with
    | none => .error (.fillOfUnknownListing listingId)
    | some listing =>
      let fill : FillView :=
        { chainId := event.chainId, transactionHash := event.transactionHash, logIndex := event.logIndex, listingId
          vault := listing.vault, buyer, seller, filledUnits, gross, sellerProceeds, platformFee, creatorFee
          blockNumber := event.blockNumber, confirmationStatus := event.confirmationStatus }
      let P := { P with
        listings := P.listings.set key { listing with
          remainingUnits, active := decide (remainingUnits ≠ 0)
          updatedBlock := event.blockNumber, confirmationStatus := event.confirmationStatus }
        fills := P.fills.set (eventKey event) fill }
      .ok (P.recordActivity event
        { kind := .listingFilled, vault := listing.vault, actor := some buyer, counterparty := some seller
          outcomeId := some listing.outcomeId, listingId := some listingId, units := some filledUnits
          amount := some gross } [])
  | .listingClosed listingId closeKind seller caller =>
    let key := hexKey event.chainId listingId
    match P.listings.get key with
    | none => .error (.closeOfUnknownListing listingId)
    | some listing =>
      let P := { P with listings := P.listings.set key { listing with
        remainingUnits := 0, active := false, updatedBlock := event.blockNumber
        confirmationStatus := event.confirmationStatus } }
      .ok (P.recordActivity event
        { kind := closeActivityKind closeKind, vault := listing.vault, actor := some caller
          counterparty := if caller = seller then none else some seller, outcomeId := some listing.outcomeId
          listingId := some listingId } [])
  | .positionDelta vault owner outcomeId delta =>
    let key := positionKey event.chainId vault owner outcomeId
    let balance := ((P.positions.get key).map PositionView.balance).getD 0 + delta
    if balance < 0 then .error .negativePosition
    else
      let position : PositionView :=
        { chainId := event.chainId, vault, owner, outcomeId, balance, updatedBlock := event.blockNumber
          confirmationStatus := event.confirmationStatus }
      .ok { P with positions := P.positions.set key position }
  | .claim vault owner caller claimKind units amount =>
    let claim : ClaimView :=
      { chainId := event.chainId, transactionHash := event.transactionHash, logIndex := event.logIndex, vault, owner
        caller, claimKind, units, amount, blockNumber := event.blockNumber
        confirmationStatus := event.confirmationStatus }
    let P := { P with claims := P.claims.set (eventKey event) claim }
    .ok (P.recordActivity event
      { kind := claimActivityKind claimKind, vault, actor := some caller
        counterparty := if caller = owner then none else some owner, units := some units, amount := some amount } [])

/-- The changes of an event, one after the other. -/
def project (decodeEventLog : IndexedEvent → Except ProjectionErr DecodedLog) (event : IndexedEvent) (P : Projections) :
    Except ProjectionErr Projections := do
  (← deriveMutations decodeEventLog event).foldlM (applyMutation event) P

end Projections

end Cpredict.Indexer.Memory
