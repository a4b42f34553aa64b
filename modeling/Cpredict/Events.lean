import Cpredict.Types

/-!
# Events

What the contracts and the payment token write to the log of the chain. An entry carries the time of its block.
-/

namespace Cpredict

inductive PoolId
  | winnerPool
  | earlyBirdPool
  | timeoutBonusPool
deriving DecidableEq

/-- The events of a market vault. -/
inductive VaultEvent
  | MarketInitialized (init : MarketInit)
  | MarketMetadataUpdated (terms : MarketTerms)
  | PrimaryPurchased (buyer : Address)
      (outcomeId desiredUnits filledUnits payment earlyBirdWeight cumulativeUserPrimary totalPrincipal : Nat)
  | MarketResolved (winningOutcome : Nat) (breakdown : PayoutBreakdown) (evidenceHash : Bytes32)
  | MarketVoided (reason : VoidReason) (caller : Address) (refundPrincipal : Nat) (evidenceHash : Bytes32)
  | WinnerClaimed (owner caller : Address) (burnedUnits payout : Nat)
  | EarlyBirdClaimed (owner caller : Address) (score reward : Nat)
  | PrincipalRefunded (owner caller : Address) (burnedUnits refund : Nat) (timeoutEligibilityRecorded : Bool)
  | TimeoutBonusFunded (amount eligibleUnits previousGuardExposure currentGuardExposure : Nat)
  | TimeoutBonusClaimed (owner caller : Address) (units reward : Nat)
  | LosingPositionBurned (owner : Address) (outcomeId units : Nat)
  | FinalRemainderAssigned (pool : PoolId) (owner : Address) (amount : Nat)
  | TransferSingle (operator source target : Address) (id value : Nat)
  | TransferBatch (operator source target : Address) (parts : List (Nat × Nat))
  | ApprovalForAll (holder operator : Address) (approved : Bool)
deriving DecidableEq

inductive FeeKind
  | protocolRake
  | creatorRake
  | marketCreation
  | platformC2C
  | creatorC2C
deriving DecidableEq

/-- What the id of a listing is the hash of. -/
structure ListingId where
  vault : Address
  seller : Address
  nonce : Nat
deriving DecidableEq

/-- The reference of an accrued fee: a market's address, or the id of an order or a listing. -/
inductive FeeReference
  | market (a : Address)
  | order (id : Nat)
  | listing (id : ListingId)
deriving DecidableEq

inductive Side
  | bid
  | ask
deriving DecidableEq

inductive ReleaseReason
  | cancelled
  | expired
  | terminal
  | dust
  | selfCross
  | unfillableReceiver
deriving DecidableEq

/-- The events of the orderbook. -/
inductive BookEvent
  | DefaultAllowPartialFillsUpdated (allowed : Bool)
  | OrderFillPolicySnapshotted (orderId : Nat) (allowPartialFills : Bool)
  | OrderCreated (orderId : Nat) (vault owner : Address) (outcomeId : Nat) (side : Side)
      (units unitPrice expiresAt : Nat) (autoMatch : Bool) (lockedPayment : Nat)
  | OrderReleased (orderId : Nat) (owner : Address) (reason : ReleaseReason) (returnedUnits returnedPayment : Nat)
  | OrderFilled (orderId : Nat) (buyer seller : Address)
      (units unitPrice gross platformFee creatorFee remainingUnits lockedPayment : Nat)
  | TradeExecuted (orderId : Nat) (vault buyer seller : Address)
      (outcomeId units unitPrice gross platformFee creatorFee : Nat) (escrowed : Bool) (remainingAskUnits : Nat)
  | OrdersMatched (bidId askId makerId units unitPrice : Nat)
  | BidExcessReturned (orderId : Nat) (owner : Address) (amount : Nat)
  | OrderSharesDeferred (orderId : Nat) (owner : Address) (units : Nat)
  | OrderSharesWithdrawn (orderId : Nat) (owner recipient : Address) (units : Nat)
deriving DecidableEq

/-- The events of the fixed-price marketplace. -/
inductive ListingEvent
  | ListingCreated (listingId : ListingId) (vault seller : Address)
      (outcomeId amount unitPrice expiresAt sellerNonce : Nat)
  | ListingFilled (listingId : ListingId) (buyer seller : Address)
      (desiredUnits filledUnits gross sellerProceeds platformFee creatorFee remainingUnits : Nat)
  | ListingCancelled (listingId : ListingId) (seller : Address) (returnedUnits : Nat)
  | TerminalListingReturned (listingId : ListingId) (caller seller : Address) (returnedUnits : Nat)
deriving DecidableEq

inductive Event
  /-- `Transfer` of the payment token. -/
  | Transfer (source target : Address) (amount : Nat)
  | vault (market : Address) (e : VaultEvent)
  | book (e : BookEvent)
  | listing (e : ListingEvent)
  | MarketCreated (market creator : Address) (mode : DeploymentMode) (creatorNonce creationFee creatorBond : Nat)
  | BondLocked (market creator : Address) (amount : Nat)
  | BondCredited (market creator : Address) (amount : Nat)
  | EmptyTimeoutBondCredited (market creator : Address) (amount : Nat)
  | BondFundedToTimeoutMarket (market : Address) (amount : Nat)
  | BondClaimed (creator caller : Address) (amount : Nat)
  | FeeAccrued (beneficiary source : Address) (feeKind : FeeKind) (feeReference : FeeReference) (amount : Nat)
  | FeeClaimed (beneficiary caller : Address) (amount : Nat)
  | MarketRegistered (market : Address)
  | AccruerRegistered (account : Address)
  | ExposureReserved (market : Address) (amount marketExposure totalExposure : Nat)
  | ExposureSynced (market : Address) (previousExposure currentExposure totalExposure : Nat)
deriving DecidableEq

structure LogEntry where
  time : Nat
  event : Event
deriving DecidableEq

abbrev Log := List LogEntry

end Cpredict
