import Cpredict.Ledger
import Cpredict.Lib.MulDiv
import Cpredict.Lib.Packing
import Cpredict.Lib.ProRata

/-!
# MarketVaultCoreV1: storage and functions

The functions of one vault on its own storage. What they do to other contracts (the payment token, the exposure guard,
the fee vault) and what they emit is in `Core/Calls.lean`. Every check stands in the order of the source.
-/

namespace Cpredict

open Outcome Packing MulDiv ProRata

structure Vault where
  initialized : Bool
  init : MarketInit
  terms : MarketTerms
  marketState : MarketState
  voidReason : VoidReason
  payoutBreakdown : PayoutBreakdown
  winningOutcome : Nat
  /-- Low half: principal. High half: total early-bird score. -/
  packedMarketAccounting : Nat
  remainingWinningUnits : Nat
  remainingWinnerPool : Nat
  remainingEarlyBirdScore : Nat
  remainingEarlyBirdPool : Nat
  remainingRefundPrincipal : Nat
  remainingTimeoutBonusUnits : Nat
  remainingTimeoutBonusPool : Nat
  timeoutBonusFunded : Bool
  principalByOutcome : Nat → Nat
  /-- Low half: cumulative primary units. High half: early-bird score. -/
  packedBuyerAccounting : Address → Nat
  timeoutBonusUnits : Address → Nat
  shares : Shares

namespace Vault

/-- The storage of a vault that has just been deployed. -/
def blank : Vault where
  initialized := false
  init :=
    { factory := 0, paymentToken := 0, config := 0, emergencyController := 0, exposureGuard := 0, bondEscrow := 0,
      feeVault := 0, permit2 := 0, creator := 0, outcomeCount := 0, createdAt := 0, resolutionWindow := 0,
      deploymentMode := .full, perUserPrimaryCap := 0, marketPrimaryCap := 0, minimumPrimaryUnits := 0,
      minimumC2CUnits := 0, creatorBond := 0, economics := ⟨0, 0, 0, 0, 0, 0⟩ }
  terms := ⟨0, [], 0, [], 0, 0, 0, 0, 0⟩
  marketState := .open
  voidReason := .none
  payoutBreakdown := ⟨0, 0, 0, 0, 0, 0⟩
  winningOutcome := 0
  packedMarketAccounting := 0
  remainingWinningUnits := 0
  remainingWinnerPool := 0
  remainingEarlyBirdScore := 0
  remainingEarlyBirdPool := 0
  remainingRefundPrincipal := 0
  remainingTimeoutBonusUnits := 0
  remainingTimeoutBonusPool := 0
  timeoutBonusFunded := false
  principalByOutcome := fun _ => 0
  packedBuyerAccounting := fun _ => 0
  timeoutBonusUnits := fun _ => 0
  shares := Shares.blank

/-! ## Views -/

def totalPrincipal (v : Vault) : Nat := low 128 v.packedMarketAccounting

def totalEarlyBirdScore (v : Vault) : Nat := high 128 v.packedMarketAccounting

def cumulativePrimaryBought (v : Vault) (user : Address) : Nat := low 128 (v.packedBuyerAccounting user)

def earlyBirdScore (v : Vault) (user : Address) : Nat := high 128 (v.packedBuyerAccounting user)

def firstBuyOccurred (v : Vault) : Bool := v.totalPrincipal != 0

def isTerminal (v : Vault) : Bool := decide (v.marketState ≠ .open)

def resolutionDeadline (v : Vault) : Nat := v.terms.outcomeDeadlineAt + v.init.resolutionWindow

def earlyBirdEnabled (v : Vault) : Bool := (v.terms.featureFlags &&& FEATURE_EARLY_BIRD) != 0

def permit2Enabled (v : Vault) : Bool := (v.terms.featureFlags &&& FEATURE_PERMIT2) != 0

/-- What the vault owes its users. `_assertCoverage` compares it with the balance, and `guardExposure` reports it. -/
def liabilities (v : Vault) : Nat :=
  match v.marketState with
  | .open => v.totalPrincipal
  | .resolved => v.remainingWinnerPool + v.remainingEarlyBirdPool
  | .voided => v.remainingRefundPrincipal + v.remainingTimeoutBonusPool

def guardExposure (v : Vault) : Nat := v.liabilities

/-! ## Packed accounting -/

def toUint128 (n : Nat) : Except Err Nat := do
  revertIf (2 ^ 128 ≤ n) .SafeCastOverflowedUintDowncast
  .ok n

def toUint8 (n : Nat) : Except Err Nat := do
  revertIf (2 ^ 8 ≤ n) .SafeCastOverflowedUintDowncast
  .ok n

/-- `_packUint128Pair` -/
def packUint128Pair (lo hi : Nat) : Except Err Nat := do
  let lo ← toUint128 lo
  let hi ← toUint128 hi
  .ok (pack 128 lo hi)

/-- `_setMarketAccounting` -/
def setMarketAccounting (v : Vault) (principal earlyScore : Nat) : Except Err Vault := do
  let packed ← packUint128Pair principal earlyScore
  .ok { v with packedMarketAccounting := packed }

/-! ## Terms -/

/-- `_validateTimes` -/
def validateTimes (creationTime marketClose eventStart outcomeDeadline : Nat) : Except Err Unit := do
  revertIf (marketClose < creationTime + 5 * 60 ∨ creationTime + 90 * 24 * 3600 < marketClose)
    (.InvalidConfiguration "market.times")
  revertIf (outcomeDeadline < marketClose ∨ eventStart ≠ 0 ∧ (eventStart ≤ marketClose ∨ outcomeDeadline < eventStart))
    (.InvalidConfiguration "market.eventTimes")

/-- `_setTerms` -/
def setTerms (v : Vault) (terms : MarketTerms) : Except Err Vault := do
  revertIf (terms.rulesHash = 0) (.InvalidConfiguration "rulesHash")
  revertIf (terms.creatorTreasury = 0) .ZeroAddress
  revertIf (MAX_URI_LENGTH < terms.metadataURI.length) (.UriTooLong terms.metadataURI.length MAX_URI_LENGTH)
  revertIf (MAX_URI_LENGTH < terms.resolutionSourceURI.length)
    (.UriTooLong terms.resolutionSourceURI.length MAX_URI_LENGTH)
  revertIf ((terms.featureFlags &&& (2 ^ 256 - 1 - SUPPORTED_FEATURE_FLAGS)) ≠ 0)
    (.UnsupportedFeatureFlags terms.featureFlags)
  validateTimes v.init.createdAt terms.closeAt terms.eventStartsAt terms.outcomeDeadlineAt
  .ok { v with terms := terms }

/-- `_initialize`, called by `sender`. -/
def initializeVault (v : Vault) (sender : Address) (init : MarketInit) (terms : MarketTerms) : Except Err Vault := do
  revertIf (v.initialized = true) .AlreadyInitialized
  revertIf (sender ≠ init.factory) .InvalidInitializer
  revertIf (init.factory = 0 ∨ init.paymentToken = 0 ∨ init.config = 0 ∨ init.emergencyController = 0
    ∨ init.exposureGuard = 0 ∨ init.bondEscrow = 0 ∨ init.feeVault = 0 ∨ init.creator = 0
    ∨ terms.creatorTreasury = 0 ∨ init.economics.protocolTreasury = 0) .ZeroAddress
  revertIf (init.outcomeCount < 2 ∨ 32 < init.outcomeCount) (.InvalidConfiguration "outcomeCount")
  revertIf (init.resolutionWindow < MIN_RESOLUTION_WINDOW ∨ MAX_RESOLUTION_WINDOW < init.resolutionWindow)
    (.InvalidConfiguration "resolutionWindow")
  { v with initialized := true, init := init }.setTerms terms

def updateBeforeFirstBuy (v : Vault) (now : Nat) (caller : Address) (terms : MarketTerms) : Except Err Vault := do
  revertIf (caller ≠ v.init.creator) .Unauthorized
  revertIf (v.firstBuyOccurred = true) .ImmutableAfterFirstBuy
  revertIf (v.marketState ≠ .open) .MarketTerminal
  let v ← v.setTerms terms
  revertIf (terms.closeAt ≤ now) .MarketNotOpen
  .ok v

/-! ## Purchases -/

/-- `_prepareBuy`: the units a purchase fills. -/
def prepareBuy (v : Vault) (now : Nat) (paused : Bool) (buyer : Address)
    (outcomeId desiredUnits minUnits maxPayment deadline : Nat) : Except Err Nat := do
  revertIf (buyer = 0) .ZeroAddress
  revertIf (v.marketState ≠ .open ∨ v.terms.closeAt ≤ now) .MarketNotOpen
  revertIf (paused = true) (.PauseActive PAUSE_PRIMARY_BUY)
  revertIf (deadline < now) (.DeadlineExpired deadline now)
  revertIf (v.init.outcomeCount ≤ outcomeId) (.InvalidOutcome outcomeId v.init.outcomeCount)
  revertIf (desiredUnits = 0) .ZeroAmount
  let marketAvailable ← checkedSub .Panic v.init.marketPrimaryCap v.totalPrincipal
  let userAvailable ← checkedSub .Panic v.init.perUserPrimaryCap (v.cumulativePrimaryBought buyer)
  let filledUnits := min desiredUnits (min marketAvailable userAvailable)
  revertIf (filledUnits < minUnits ∨ filledUnits < v.init.minimumPrimaryUnits)
    (.FillBelowMinimum filledUnits (max minUnits v.init.minimumPrimaryUnits))
  revertIf (maxPayment < filledUnits) (.PaymentAboveMaximum filledUnits maxPayment)
  .ok filledUnits

/-- `_earlyBirdWeight` -/
def earlyBirdWeight (v : Vault) (timestamp : Nat) : Nat :=
  if v.earlyBirdEnabled = false then 0
  else if timestamp < v.init.createdAt ∨ v.terms.closeAt ≤ timestamp then 0
  else
    let duration := v.terms.closeAt - v.init.createdAt
    let offset := timestamp - v.init.createdAt
    if offset * 3 < duration then 3
    else if offset * 3 < duration * 2 then 2
    else 1

/-- The accounting of `_completeBuy`, up to and including the mint. -/
def completeBuy (v : Vault) (now : Nat) (buyer : Address) (outcomeId filledUnits : Nat) : Except Err Vault := do
  let weight := v.earlyBirdWeight now
  let score := if weight ≠ 0 then filledUnits * weight else 0
  let packedBuyer := v.packedBuyerAccounting buyer
  let v ← v.setMarketAccounting (v.totalPrincipal + filledUnits) (v.totalEarlyBirdScore + score)
  let nextBuyer ← packUint128Pair (low 128 packedBuyer + filledUnits) (high 128 packedBuyer + score)
  let shares ← v.shares.mint buyer outcomeId filledUnits
  .ok { v with
        packedBuyerAccounting := Function.update v.packedBuyerAccounting buyer nextBuyer
        principalByOutcome := Function.update v.principalByOutcome outcomeId
          (v.principalByOutcome outcomeId + filledUnits)
        shares := shares }

/-! ## The terminal transitions -/

/-- `_void` -/
def void (v : Vault) (reason : VoidReason) : Vault :=
  { v with marketState := .voided, voidReason := reason, remainingRefundPrincipal := v.totalPrincipal }

/-- `_calculatePayouts` -/
def calculatePayouts (v : Vault) : PayoutBreakdown :=
  let principal := v.totalPrincipal
  let rake := mulDiv principal v.init.economics.creatorRakeBps BPS
  let protocolFee := mulDiv rake v.init.economics.protocolShareBps BPS
  let creatorNetRake := rake - protocolFee
  let earlyPool :=
    if v.earlyBirdEnabled = true ∧ v.totalEarlyBirdScore ≠ 0 then
      mulDiv creatorNetRake v.init.economics.earlyBirdShareBps BPS
    else 0
  { totalPrincipal := principal, totalRake := rake, protocolFee := protocolFee, earlyBirdPool := earlyPool,
    creatorFee := creatorNetRake - earlyPool, winnerPool := principal - rake }

/-- `resolve` up to its payments: the breakdown that it pays by, or none when it voids the market. -/
def resolve (v : Vault) (now : Nat) (caller : Address) (outcomeId : Nat) :
    Except Err (Vault × Option PayoutBreakdown) := do
  revertIf (caller ≠ v.init.creator) .Unauthorized
  revertIf (v.marketState ≠ .open) .MarketTerminal
  revertIf (now < v.terms.closeAt) .MarketNotClosed
  revertIf (v.resolutionDeadline ≤ now) .ResolutionWindowExpired
  revertIf (v.init.outcomeCount ≤ outcomeId) (.InvalidOutcome outcomeId v.init.outcomeCount)
  let winningSupply := v.shares.totalSupply outcomeId
  if winningSupply = 0 then .ok (v.void .noWinningSupply, none)
  else do
    let breakdown := v.calculatePayouts
    let winning ← toUint8 outcomeId
    .ok ({ v with
           marketState := .resolved
           winningOutcome := winning
           payoutBreakdown := breakdown
           remainingWinningUnits := winningSupply
           remainingWinnerPool := breakdown.winnerPool
           remainingEarlyBirdScore := v.totalEarlyBirdScore
           remainingEarlyBirdPool := breakdown.earlyBirdPool }, some breakdown)

def creatorVoid (v : Vault) (now : Nat) (caller : Address) : Except Err Vault := do
  revertIf (caller ≠ v.init.creator) .Unauthorized
  revertIf (v.marketState ≠ .open) .MarketTerminal
  revertIf (v.resolutionDeadline ≤ now) .ResolutionWindowExpired
  .ok (v.void .creator)

def voidAfterDeadline (v : Vault) (now : Nat) : Except Err Vault := do
  revertIf (v.marketState ≠ .open) .MarketTerminal
  revertIf (now < v.resolutionDeadline) .TimeoutNotReached
  .ok (v.void .timeout)

/-! ## Claims -/

/-- `_consumeRemainingPool` -/
def consumeRemainingPool (units remainingUnits remainingPool : Nat) : Except Err Nat := do
  revertIf (units = 0 ∨ remainingUnits = 0 ∨ remainingUnits < units) .NothingToClaim
  .ok (share units remainingUnits remainingPool)

/-- `_rejectProtocolMarketplaceOwner` -/
def rejectProtocolMarketplaceOwner (marketplace owner : Address) : Except Err Unit :=
  revertIf (marketplace ≠ 0 ∧ owner = marketplace) .EscrowOwnerMustReturnListing

/-- `claimWinningsFor`: the units burned and the payout. -/
def claimWinningsFor (v : Vault) (marketplace owner : Address) : Except Err (Vault × Nat × Nat) := do
  revertIf (v.marketState ≠ .resolved) .MarketNotClosed
  rejectProtocolMarketplaceOwner marketplace owner
  let units := v.shares.balanceOf v.winningOutcome owner
  revertIf (units = 0) .NothingToClaim
  let payout ← consumeRemainingPool units v.remainingWinningUnits v.remainingWinnerPool
  let remainingUnits ← checkedSub .Panic v.remainingWinningUnits units
  let remainingPool ← checkedSub .Panic v.remainingWinnerPool payout
  let shares ← v.shares.burn owner v.winningOutcome units
  .ok ({ v with remainingWinningUnits := remainingUnits, remainingWinnerPool := remainingPool, shares := shares },
    units, payout)

/-- `claimEarlyBirdFor`: the score used up and the reward. -/
def claimEarlyBirdFor (v : Vault) (owner : Address) : Except Err (Vault × Nat × Nat) := do
  revertIf (v.marketState ≠ .resolved) .MarketNotClosed
  let packedBuyer := v.packedBuyerAccounting owner
  let score := high 128 packedBuyer
  revertIf (score = 0 ∨ v.remainingEarlyBirdPool = 0) .NothingToClaim
  let reward ← consumeRemainingPool score v.remainingEarlyBirdScore v.remainingEarlyBirdPool
  let remainingScore ← checkedSub .Panic v.remainingEarlyBirdScore score
  let remainingPool ← checkedSub .Panic v.remainingEarlyBirdPool reward
  .ok ({ v with
         packedBuyerAccounting := Function.update v.packedBuyerAccounting owner (low 128 packedBuyer)
         remainingEarlyBirdScore := remainingScore
         remainingEarlyBirdPool := remainingPool }, score, reward)

/-- What a holder's shares of all outcomes add up to. -/
def heldUnits (v : Vault) (owner : Address) : Nat :=
  ∑ outcomeId ∈ Finset.range v.init.outcomeCount, v.shares.balanceOf outcomeId owner

/-- `if (balance != 0) _burn(owner, outcomeId, balance)` -/
def burnHeld (owner : Address) (outcomeId : Nat) (s : Shares) : Except Err Shares :=
  if s.balanceOf outcomeId owner ≠ 0 then s.burn owner outcomeId (s.balanceOf outcomeId owner) else .ok s

/-- The burning loop of `refundFor`. -/
def burnAll (owner : Address) : List Nat → Shares → Except Err Shares
  | [], s => .ok s
  | outcomeId :: rest, s => do
    let s ← burnHeld owner outcomeId s
    burnAll owner rest s

/-- `refundFor`: the amount refunded. -/
def refundFor (v : Vault) (marketplace owner : Address) : Except Err (Vault × Nat) := do
  revertIf (v.marketState ≠ .voided) .MarketNotClosed
  rejectProtocolMarketplaceOwner marketplace owner
  let amount := v.heldUnits owner
  revertIf (amount = 0) .NothingToClaim
  let remaining ← checkedSub .Panic v.remainingRefundPrincipal amount
  let bonusUnits :=
    if v.voidReason = .timeout then
      Function.update v.timeoutBonusUnits owner (v.timeoutBonusUnits owner + amount)
    else v.timeoutBonusUnits
  let shares ← burnAll owner (List.range v.init.outcomeCount) v.shares
  .ok ({ v with remainingRefundPrincipal := remaining, timeoutBonusUnits := bonusUnits, shares := shares }, amount)

/-- `fundTimeoutBonus` up to the report to the guard. -/
def fundTimeoutBonus (v : Vault) (caller : Address) (amount : Nat) : Except Err Vault := do
  revertIf (caller ≠ v.init.bondEscrow) .Unauthorized
  revertIf (v.marketState ≠ .voided ∨ v.voidReason ≠ .timeout) .MarketNotClosed
  revertIf (v.timeoutBonusFunded = true) .AlreadySettled
  revertIf (amount = 0) .ZeroAmount
  .ok { v with
        timeoutBonusFunded := true
        remainingTimeoutBonusUnits := v.totalPrincipal
        remainingTimeoutBonusPool := amount }

/-- `claimTimeoutBonusFor`: the units used up and the reward. -/
def claimTimeoutBonusFor (v : Vault) (owner : Address) : Except Err (Vault × Nat × Nat) := do
  revertIf (v.timeoutBonusFunded = false) .NothingToClaim
  let units := v.timeoutBonusUnits owner
  revertIf (units = 0) .NothingToClaim
  let reward ← consumeRemainingPool units v.remainingTimeoutBonusUnits v.remainingTimeoutBonusPool
  let remainingUnits ← checkedSub .Panic v.remainingTimeoutBonusUnits units
  let remainingPool ← checkedSub .Panic v.remainingTimeoutBonusPool reward
  .ok ({ v with
         timeoutBonusUnits := Function.update v.timeoutBonusUnits owner 0
         remainingTimeoutBonusUnits := remainingUnits
         remainingTimeoutBonusPool := remainingPool }, units, reward)

/-- `burnLosingPosition`: the units burned. -/
def burnLosingPosition (v : Vault) (caller : Address) (outcomeId : Nat) : Except Err (Vault × Nat) := do
  revertIf (v.marketState ≠ .resolved) .MarketNotClosed
  revertIf (v.init.outcomeCount ≤ outcomeId ∨ outcomeId = v.winningOutcome)
    (.InvalidOutcome outcomeId v.init.outcomeCount)
  let units := v.shares.balanceOf outcomeId caller
  revertIf (units = 0) .NothingToClaim
  let shares ← v.shares.burn caller outcomeId units
  .ok ({ v with shares := shares }, units)

end Vault

end Cpredict
