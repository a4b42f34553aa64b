import Cpredict.Core.State
import Cpredict.Lib.Reach

/-!
# The calls of the protocol's core

Every external function of the factory, the vaults, the two custodians and the guard that changes state, as a function
of the whole state, with its payments and events in the order of the source. What third parties decide is an argument:
whether a receiver accepts the shares delivered to it (`accepts`), whether Permit2 accepts a permit, at which address
CREATE2 puts a new vault. A receiver that makes calls of its own before it accepts makes them after the last change of
the function it is called from, so they are further calls of the run.

`fundTimeoutBonus` reverts for every caller but the bond escrow, so it is a part of `settleBond`.
-/

namespace Cpredict

open Outcome MulDiv

namespace Core

/-! ## MarketVaultCoreV1 -/

section Vaults

variable (D : Deployment) (w : Core) (caller market : Address)

/-- `updateBeforeFirstBuy` -/
def updateBeforeFirstBuy (terms : MarketTerms) : Except Err Core := do
  w.requireMarket market
  let v ← (w.vaults market).updateBeforeFirstBuy w.now caller terms
  .ok ((w.setVault market v).emit (.vault market (.MarketMetadataUpdated terms)))

/-- `_completeBuy` -/
def completeBuy (buyer : Address) (outcomeId desiredUnits filledUnits : Nat) (accepts : Bool) : Except Err Core := do
  let g ← w.guard.reserve market filledUnits
  let weight := (w.vaults market).earlyBirdWeight w.now
  let v ← (w.vaults market).completeBuy w.now buyer outcomeId filledUnits
  deliver D buyer accepts
  let w := { w with guard := g }.setVault market v
  .ok ((w.emitAll (if g.retired = true then [] else
      [.ExposureReserved market filledUnits (g.reportedExposure market) g.totalReportedExposure])).emitAll
    [.vault market (.TransferSingle caller 0 buyer outcomeId filledUnits),
     .vault market (.PrimaryPurchased buyer outcomeId desiredUnits filledUnits filledUnits weight
       (v.cumulativePrimaryBought buyer) v.totalPrincipal)])

def buy (outcomeId desiredUnits minUnits maxPayment deadline : Nat) (accepts : Bool) : Except Err Core := do
  w.requireMarket market
  let filledUnits ← (w.vaults market).prepareBuy w.now (w.emergency.isPaused w.now PAUSE_PRIMARY_BUY) caller outcomeId
    desiredUnits minUnits maxPayment deadline
  let w ← w.pullExact market caller market filledUnits
  completeBuy D w caller market caller outcomeId desiredUnits filledUnits accepts

/-- `buyWithPermit2`: the permit names a token and an amount, and Permit2 checks its signature and nonce. -/
def buyWithPermit2 (owner : Address) (outcomeId desiredUnits minUnits maxPayment callDeadline : Nat)
    (permittedToken : Address) (permittedAmount : Nat) (permitAccepted accepts : Bool) : Except Err Core := do
  w.requireMarket market
  revertIf ((w.vaults market).permit2Enabled = false ∨ (w.vaults market).init.permit2 = 0) .Permit2Disabled
  revertIf (w.emergency.isPaused w.now PAUSE_PERMIT2 = true) (.PauseActive PAUSE_PERMIT2)
  let filledUnits ← (w.vaults market).prepareBuy w.now (w.emergency.isPaused w.now PAUSE_PRIMARY_BUY) owner outcomeId
    desiredUnits minUnits maxPayment callDeadline
  revertIf (permittedToken ≠ (w.vaults market).init.paymentToken ∨ permittedAmount < filledUnits)
    (.InvalidConfiguration "permit2.permissions")
  revertIf (permitAccepted = false) .ERC20Refused
  let w ← w.pullExact (w.vaults market).init.permit2 owner market filledUnits
  completeBuy D w caller market owner outcomeId desiredUnits filledUnits accepts

/-- The payments of `resolve`. -/
def payRake (b : PayoutBreakdown) : Except Err Core := do
  let fees := b.protocolFee + b.creatorFee
  if fees = 0 then .ok w
  else do
    let v := w.vaults market
    let w ← w.pay market D.feeVault fees
    let w ← w.accrue D market v.init.economics.protocolTreasury b.protocolFee .protocolRake (.market market)
    w.accrue D market v.terms.creatorTreasury b.creatorFee .creatorRake (.market market)

def resolve (outcomeId : Nat) (evidenceHash : Bytes32) : Except Err Core := do
  w.requireMarket market
  let (v, payouts) ← (w.vaults market).resolve w.now caller outcomeId
  let w := w.setVault market v
  match payouts with
  | none => .ok (w.emit (.vault market (.MarketVoided .noWinningSupply caller v.totalPrincipal evidenceHash)))
  | some b => do
    let w ← payRake D w market b
    w.assertCoverage market
    .ok (w.emit (.vault market (.MarketResolved outcomeId b evidenceHash)))

def creatorVoid (evidenceHash : Bytes32) : Except Err Core := do
  w.requireMarket market
  let v ← (w.vaults market).creatorVoid w.now caller
  .ok ((w.setVault market v).emit (.vault market (.MarketVoided .creator caller v.totalPrincipal evidenceHash)))

def voidAfterDeadline : Except Err Core := do
  w.requireMarket market
  let v ← (w.vaults market).voidAfterDeadline w.now
  .ok ((w.setVault market v).emit (.vault market (.MarketVoided .timeout caller v.totalPrincipal 0)))

/-- `FinalRemainderAssigned`, emitted when a claim takes all the units left. -/
def finalRemainder (pool : PoolId) (owner : Address) (units remainingUnits amount : Nat) : List Event :=
  if units = remainingUnits then [.vault market (.FinalRemainderAssigned pool owner amount)] else []

def claimWinningsFor (owner : Address) : Except Err Core := do
  w.requireMarket market
  let before := w.vaults market
  let (v, units, payout) ← before.claimWinningsFor D.marketplace owner
  let w := (w.setVault market v).emitAll (finalRemainder market .winnerPool owner units before.remainingWinningUnits
    payout ++ [.vault market (.TransferSingle caller owner 0 before.winningOutcome units)])
  let w ← w.pay market owner payout
  .ok (w.emit (.vault market (.WinnerClaimed owner caller units payout)))

def claimEarlyBirdFor (owner : Address) : Except Err Core := do
  w.requireMarket market
  let before := w.vaults market
  let (v, score, reward) ← before.claimEarlyBirdFor owner
  let w := (w.setVault market v).emitAll (finalRemainder market .earlyBirdPool owner score
    before.remainingEarlyBirdScore reward)
  let w ← w.pay market owner reward
  .ok (w.emit (.vault market (.EarlyBirdClaimed owner caller score reward)))

/-- The burns of `refundFor`. -/
def refundBurns (v : Vault) (owner : Address) : List Event :=
  ((List.range v.init.outcomeCount).filter (fun o => v.shares.balanceOf o owner ≠ 0)).map fun o =>
    .vault market (.TransferSingle caller owner 0 o (v.shares.balanceOf o owner))

def refundFor (owner : Address) : Except Err Core := do
  w.requireMarket market
  let before := w.vaults market
  let (v, amount) ← before.refundFor D.marketplace owner
  let w := (w.setVault market v).emitAll (refundBurns caller market before owner)
  let w ← w.pay market owner amount
  .ok (w.emit (.vault market (.PrincipalRefunded owner caller amount amount (decide (v.voidReason = .timeout)))))

/-- `fundTimeoutBonus`, called by `caller`. -/
def fundTimeoutBonus (amount : Nat) : Except Err Core := do
  w.requireMarket market
  let v ← (w.vaults market).fundTimeoutBonus caller amount
  let (w, previous, current) ← (w.setVault market v).sync market
  w.assertCoverage market
  .ok (w.emit (.vault market (.TimeoutBonusFunded amount v.totalPrincipal previous current)))

def claimTimeoutBonusFor (owner : Address) : Except Err Core := do
  w.requireMarket market
  let before := w.vaults market
  let (v, units, reward) ← before.claimTimeoutBonusFor owner
  let w := (w.setVault market v).emitAll (finalRemainder market .timeoutBonusPool owner units
    before.remainingTimeoutBonusUnits reward)
  let w ← w.pay market owner reward
  .ok (w.emit (.vault market (.TimeoutBonusClaimed owner caller units reward)))

def burnLosingPosition (outcomeId : Nat) : Except Err Core := do
  w.requireMarket market
  let (v, units) ← (w.vaults market).burnLosingPosition caller outcomeId
  .ok ((w.setVault market v).emitAll [.vault market (.TransferSingle caller caller 0 outcomeId units),
    .vault market (.LosingPositionBurned caller outcomeId units)])

/-! ### The inherited ERC-1155 functions -/

/-- `safeTransferFrom` of shares up to the call of the receiver. -/
def moveShares (source target : Address) (id value : Nat) : Except Err Core := do
  w.requireMarket market
  let shares ← (w.vaults market).shares.safeTransferFrom caller source target id value
  .ok ((w.setVault market { w.vaults market with shares := shares }).emit
    (.vault market (.TransferSingle caller source target id value)))

def safeTransferFrom (source target : Address) (id value : Nat) (accepts : Bool) : Except Err Core := do
  let w ← moveShares w caller market source target id value
  deliver D target accepts
  .ok w

def safeBatchTransferFrom (source target : Address) (parts : List (Nat × Nat)) (accepts : Bool) : Except Err Core := do
  w.requireMarket market
  let shares ← (w.vaults market).shares.safeBatchTransferFrom caller source target parts
  deliver D target accepts
  .ok ((w.setVault market { w.vaults market with shares := shares }).emit
    (.vault market (.TransferBatch caller source target parts)))

def setApprovalForAll (operator : Address) (approved : Bool) : Except Err Core := do
  w.requireMarket market
  .ok ((w.setVault market { w.vaults market with
      shares := (w.vaults market).shares.setApprovalForAll caller operator approved }).emit
    (.vault market (.ApprovalForAll caller operator approved)))

end Vaults

/-! ## MarketFactoryV1 -/

def MIN_CREATOR_BOND : Nat := 10000000

def MAX_CREATOR_BOND : Nat := 1000000000

def BOND_RATE_BPS : Nat := 200

def MIN_CONFIGURED_UNITS : Nat := 10000

def MAX_CONFIGURED_UNITS : Nat := 5000000

def requiredBond (marketPrimaryCap : Nat) : Nat :=
  max MIN_CREATOR_BOND (mulDivUp marketPrimaryCap BOND_RATE_BPS BPS)

/-- `_validateMinimum` -/
def validateMinimum (field : String) (value cap : Nat) : Except Err Unit :=
  revertIf (value < MIN_CONFIGURED_UNITS ∨ MAX_CONFIGURED_UNITS < value ∨ cap < value)
    (.ValueOutOfRange field value MIN_CONFIGURED_UNITS (min MAX_CONFIGURED_UNITS cap))

/-- `_validate` -/
def validate (D : Deployment) (w : Core) (p : CreateMarketParams) : Except Err EconomicSnapshot := do
  revertIf (p.terms.rulesHash = 0) (.InvalidConfiguration "rulesHash")
  revertIf (p.terms.creatorTreasury = 0) .ZeroAddress
  revertIf (MAX_URI_LENGTH < p.terms.metadataURI.length) (.UriTooLong p.terms.metadataURI.length MAX_URI_LENGTH)
  revertIf (MAX_URI_LENGTH < p.terms.resolutionSourceURI.length)
    (.UriTooLong p.terms.resolutionSourceURI.length MAX_URI_LENGTH)
  revertIf (p.outcomeCount < 2 ∨ 32 < p.outcomeCount) (.ValueOutOfRange "outcomeCount" p.outcomeCount 2 32)
  revertIf (p.terms.closeAt < w.now + 5 * 60 ∨ w.now + 90 * 24 * 3600 < p.terms.closeAt)
    (.InvalidConfiguration "market.times")
  revertIf (p.terms.outcomeDeadlineAt < p.terms.closeAt ∨ p.terms.eventStartsAt ≠ 0
      ∧ (p.terms.eventStartsAt ≤ p.terms.closeAt ∨ p.terms.outcomeDeadlineAt < p.terms.eventStartsAt))
    (.InvalidConfiguration "market.eventTimes")
  revertIf ((p.terms.featureFlags &&& (2 ^ 256 - 1 - SUPPORTED_FEATURE_FLAGS)) ≠ 0)
    (.UnsupportedFeatureFlags p.terms.featureFlags)
  revertIf ((p.terms.featureFlags &&& FEATURE_PERMIT2) ≠ 0 ∧ D.permit2 = 0) (.InvalidConfiguration "permit2")
  let modeCap := match p.deploymentMode with
    | .full => w.config.maxFullMarketCap
    | .clone => w.config.maxCloneMarketCap
  revertIf (p.marketPrimaryCap = 0 ∨ modeCap < p.marketPrimaryCap)
    (.ValueOutOfRange "marketPrimaryCap" p.marketPrimaryCap 1 modeCap)
  revertIf (p.perUserPrimaryCap = 0 ∨ w.config.maxPerUserPrimaryCap < p.perUserPrimaryCap
      ∨ p.marketPrimaryCap < p.perUserPrimaryCap)
    (.ValueOutOfRange "perUserPrimaryCap" p.perUserPrimaryCap 1 w.config.maxPerUserPrimaryCap)
  validateMinimum "minimumPrimaryUnits" p.minimumPrimaryUnits p.perUserPrimaryCap
  validateMinimum "minimumC2CUnits" p.minimumC2CUnits p.marketPrimaryCap
  revertIf (p.creatorBond < requiredBond p.marketPrimaryCap ∨ MAX_CREATOR_BOND < p.creatorBond)
    (.ValueOutOfRange "creatorBond" p.creatorBond (requiredBond p.marketPrimaryCap) MAX_CREATOR_BOND)
  w.config.snapshot p.creatorRakeBps p.creatorC2CFeeBps

/-- The platform rates that `createMarketWithPlatformFees` sets in place of the configured ones. -/
def customFees (e : EconomicSnapshot) : Option (Nat × Nat) → Except Err EconomicSnapshot
  | none => .ok e
  | some (platformRakeShareBps, platformC2CFeeBps) => do
    Config.atMost "platformRakeShareBps" platformRakeShareBps 5000
    Config.atMost "platformC2CFeeBps" platformC2CFeeBps 200
    .ok { e with protocolShareBps := platformRakeShareBps, platformC2CFeeBps := platformC2CFeeBps }

/-- `_buildInit` -/
def buildInit (D : Deployment) (w : Core) (p : CreateMarketParams) (creator : Address) (e : EconomicSnapshot) :
    MarketInit where
  factory := D.factory
  paymentToken := D.paymentToken
  config := D.config
  emergencyController := D.emergencyController
  exposureGuard := D.exposureGuard
  bondEscrow := D.bondEscrow
  feeVault := D.feeVault
  permit2 := D.permit2
  creator := creator
  outcomeCount := p.outcomeCount
  createdAt := w.now
  resolutionWindow := D.resolutionWindow
  deploymentMode := p.deploymentMode
  perUserPrimaryCap := p.perUserPrimaryCap
  marketPrimaryCap := p.marketPrimaryCap
  minimumPrimaryUnits := p.minimumPrimaryUnits
  minimumC2CUnits := p.minimumC2CUnits
  creatorBond := p.creatorBond
  economics := e

/-- The state with the vault `v` deployed at `market` and registered with the guard and the fee vault. -/
def registered (w : Core) (caller market : Address) (v : Vault) (g : Guard) (f : FeeVault) : Core :=
  { w with
    factory := { w.factory with
      creatorNonce := Function.update w.factory.creatorNonce caller (w.factory.creatorNonce caller + 1)
      isMarket := Function.update w.factory.isMarket market true }
    guard := g
    feeVault := f
    vaults := Function.update w.vaults market v }

/-- The creation fee, paid to the fee vault and accrued. -/
def payCreationFee (D : Deployment) (w : Core) (caller market : Address) : Except Err Core :=
  if w.config.creationFee = 0 then .ok w
  else do
    let w ← w.pullExact D.factory caller D.feeVault w.config.creationFee
    w.accrue D D.factory w.config.protocolTreasury w.config.creationFee .marketCreation (.market market)

/-- `_transferExact` of the bond to the escrow and `lockBond`. -/
def lockBond (D : Deployment) (w : Core) (caller market : Address) (amount : Nat) : Except Err Core := do
  let w ← w.pullExact D.factory caller D.bondEscrow amount
  let e ← w.escrow.lockBond (w.token.balanceOf D.bondEscrow) market caller amount
  .ok ({ w with escrow := e }.emit (.BondLocked market caller amount))

/-- `_createMarket`, with the platform rates of `createMarketWithPlatformFees` if any. CREATE2 puts the vault at an
address that has no code and that nobody calls from. -/
def createMarket (D : Deployment) (w : Core) (caller : Address) (p : CreateMarketParams)
    (platformFees : Option (Nat × Nat)) (market : Address) : Except Err Core := do
  revertIf (w.factory.active = false) .FactoryNotActive
  revertIf (w.factory.deprecated = true) (.InvalidConfiguration "factory.deprecated")
  revertIf (w.emergency.isPaused w.now PAUSE_MARKET_CREATION = true) (.PauseActive PAUSE_MARKET_CREATION)
  let economics ← validate D w p
  let economics ← customFees economics platformFees
  revertIf (2 ^ 64 ≤ w.now) .SafeCastOverflowedUintDowncast
  revertIf ((D.outside market || D.fixed market || w.factory.isMarket market) = true) .DeploymentFailed
  let v ← Vault.blank.initializeVault D.factory (buildInit D w p caller economics) p.terms
  let g ← w.guard.registerMarket market
  let f ← w.feeVault.registerAccruer market
  let nonce := w.factory.creatorNonce caller
  let w := (registered w caller market v g f).emitAll [.vault market (.MarketInitialized v.init),
    .vault market (.MarketMetadataUpdated p.terms), .MarketRegistered market, .AccruerRegistered market]
  let w ← payCreationFee D w caller market
  let w ← lockBond D w caller market p.creatorBond
  .ok (w.emit (.MarketCreated market caller p.deploymentMode nonce w.config.creationFee p.creatorBond))

/-! ## BondEscrowV1, FeeVaultV1, LaunchExposureGuardV1 -/

/-- `timeout` in `settleBond` -/
def timedOut (v : Vault) : Bool := decide (v.marketState = .voided ∧ v.voidReason = .timeout)

def settleBond (D : Deployment) (w : Core) (market : Address) : Except Err Core := do
  revertIf ((w.escrow.bondOf market).creator = 0) .BondNotLocked
  revertIf ((w.escrow.bondOf market).settled = true) .BondStateMismatch
  revertIf ((w.vaults market).marketState = .open) .BondStateMismatch
  let timeout := timedOut (w.vaults market)
  let (e, bond) ← w.escrow.unlock market
  let w := { w with escrow := e }
  if timeout = true ∧ (w.vaults market).totalPrincipal ≠ 0 then do
    let w ← w.pay D.bondEscrow market bond.amount
    let w ← fundTimeoutBonus w D.bondEscrow market bond.amount
    .ok (w.emit (.BondFundedToTimeoutMarket market bond.amount))
  else
    let w := { w with escrow := w.escrow.credit bond.creator bond.amount }
    .ok (w.emitAll ((if timeout = true then [.EmptyTimeoutBondCredited market bond.creator bond.amount] else []) ++
      [.BondCredited market bond.creator bond.amount]))

/-- `claim` and `claimFor` of the bond escrow. -/
def claimBondFor (D : Deployment) (w : Core) (caller creator : Address) : Except Err Core := do
  let (credits, amount) ← w.escrow.credits.claim creator
  let w ← { w with escrow := { w.escrow with credits := credits } }.pay D.bondEscrow creator amount
  .ok (w.emit (.BondClaimed creator caller amount))

/-- `claim` and `claimFor` of the fee vault. -/
def claimFeesFor (D : Deployment) (w : Core) (caller beneficiary : Address) : Except Err Core := do
  let (credits, amount) ← w.feeVault.credits.claim beneficiary
  let w ← { w with feeVault := { w.feeVault with credits := credits } }.pay D.feeVault beneficiary amount
  .ok (w.emit (.FeeClaimed beneficiary caller amount))

/-- `onlyGovernance` -/
def onlyGovernance (D : Deployment) (caller : Address) : Except Err Unit :=
  revertIf (caller ≠ D.governance) .Unauthorized

end Core

/-! ## Calls -/

/-- What an account can do to the core. The last three are done by others: the issuer of the payment token and the
emergency safe. -/
inductive CoreCall
  | createMarket (params : CreateMarketParams) (platformFees : Option (Nat × Nat)) (market : Address)
  | updateBeforeFirstBuy (market : Address) (terms : MarketTerms)
  | buy (market : Address) (outcomeId desiredUnits minUnits maxPayment deadline : Nat) (accepts : Bool)
  | buyWithPermit2 (market owner : Address) (outcomeId desiredUnits minUnits maxPayment callDeadline : Nat)
      (permittedToken : Address) (permittedAmount : Nat) (permitAccepted accepts : Bool)
  | resolve (market : Address) (outcomeId : Nat) (evidenceHash : Bytes32)
  | creatorVoid (market : Address) (evidenceHash : Bytes32)
  | voidAfterDeadline (market : Address)
  | claimWinningsFor (market owner : Address)
  | claimEarlyBirdFor (market owner : Address)
  | refundFor (market owner : Address)
  | claimTimeoutBonusFor (market owner : Address)
  | burnLosingPosition (market : Address) (outcomeId : Nat)
  | safeTransferFrom (market source target : Address) (id value : Nat) (accepts : Bool)
  | safeBatchTransferFrom (market source target : Address) (parts : List (Nat × Nat)) (accepts : Bool)
  | setApprovalForAll (market operator : Address) (approved : Bool)
  | settleBond (market : Address)
  | claimBondFor (creator : Address)
  | claimFeesFor (beneficiary : Address)
  | accrue (beneficiary : Address) (amount : Nat) (kind : FeeKind) (ref : FeeReference)
  | sync (market : Address)
  | raiseCap (newCap : Nat)
  | retireForever
  | updateConfig (u : Config.Update)
  | setDeprecated (deprecated : Bool)
  | transferToken (target : Address) (amount : Nat)
  | transferTokenFrom (source target : Address) (amount : Nat)
  | approveToken (spender : Address) (amount : Nat)
  | issueToken (target : Address) (amount : Nat)
  | setRefusals (refuses : Address → Address → Nat → Bool)
  | setEmergency (e : Emergency)

namespace Core

/-- A call by an account, which is none of the contracts of the protocol. -/
def exec (D : Deployment) (w : Core) (caller : Address) (c : CoreCall) : Except Err Core := do
  revertIf (D.outside caller = false) .NoSuchCaller
  match c with
  | .createMarket params platformFees market => createMarket D w caller params platformFees market
  | .updateBeforeFirstBuy market terms => updateBeforeFirstBuy w caller market terms
  | .buy market outcomeId desiredUnits minUnits maxPayment deadline accepts =>
    buy D w caller market outcomeId desiredUnits minUnits maxPayment deadline accepts
  | .buyWithPermit2 market owner outcomeId desiredUnits minUnits maxPayment callDeadline token amount
      accepted accepts =>
    buyWithPermit2 D w caller market owner outcomeId desiredUnits minUnits maxPayment callDeadline token amount accepted
      accepts
  | .resolve market outcomeId evidenceHash => resolve D w caller market outcomeId evidenceHash
  | .creatorVoid market evidenceHash => creatorVoid w caller market evidenceHash
  | .voidAfterDeadline market => voidAfterDeadline w caller market
  | .claimWinningsFor market owner => claimWinningsFor D w caller market owner
  | .claimEarlyBirdFor market owner => claimEarlyBirdFor w caller market owner
  | .refundFor market owner => refundFor D w caller market owner
  | .claimTimeoutBonusFor market owner => claimTimeoutBonusFor w caller market owner
  | .burnLosingPosition market outcomeId => burnLosingPosition w caller market outcomeId
  | .safeTransferFrom market source target id value accepts =>
    safeTransferFrom D w caller market source target id value accepts
  | .safeBatchTransferFrom market source target parts accepts =>
    safeBatchTransferFrom D w caller market source target parts accepts
  | .setApprovalForAll market operator approved => setApprovalForAll w caller market operator approved
  | .settleBond market => settleBond D w market
  | .claimBondFor creator => claimBondFor D w caller creator
  | .claimFeesFor beneficiary => claimFeesFor D w caller beneficiary
  | .accrue beneficiary amount kind ref => w.accrue D caller beneficiary amount kind ref
  | .sync market => do
    let (w, _, _) ← w.sync market
    .ok w
  | .raiseCap newCap => do
    onlyGovernance D caller
    let g ← w.guard.raiseCap newCap
    .ok { w with guard := g }
  | .retireForever => do
    onlyGovernance D caller
    let g ← w.guard.retireForever
    .ok { w with guard := g }
  | .updateConfig u => do
    onlyGovernance D caller
    let c ← w.config.update u
    .ok { w with config := c }
  | .setDeprecated deprecated => do
    onlyGovernance D caller
    .ok { w with factory := { w.factory with deprecated := deprecated } }
  | .transferToken target amount => w.pay caller target amount
  | .transferTokenFrom source target amount => w.payFrom caller source target amount
  | .approveToken spender amount => .ok { w with token := w.token.approve caller spender amount }
  | .issueToken target amount =>
    .ok ({ w with token := { w.token with
        balanceOf := Function.update w.token.balanceOf target (w.token.balanceOf target + amount) } }.emit
      (.Transfer 0 target amount))
  | .setRefusals refuses => .ok { w with token := { w.token with refuses := refuses } }
  | .setEmergency e => .ok { w with emergency := e }

/-- A step of the core: a call that does not revert, or time passing. -/
inductive Step (D : Deployment) : Core → Core → Prop
  | call (w w' : Core) (caller : Address) (c : CoreCall) : exec D w caller c = .ok w' → Step D w w'
  | tick (w : Core) (seconds : Nat) : Step D w { w with now := w.now + seconds }

/-- The state after the activation of the factory: no market yet, and nothing in any contract's books. -/
structure Genesis (D : Deployment) (w : Core) : Prop where
  config : w.config.Bounded
  noMarket : ∀ m, w.factory.isMarket m = false
  guard : w.guard.totalReportedExposure = 0 ∧ (∀ m, w.guard.registeredMarket m = false)
    ∧ ∀ m, w.guard.reportedExposure m = 0
  escrow : w.escrow = ⟨0, Credits.none, fun _ => ⟨0, 0, false⟩⟩
  feeVault : w.feeVault.credits = Credits.none ∧ w.feeVault.authorizedAccruer D.factory = true
    ∧ w.feeVault.authorizedAccruer D.marketplace = true
  allowance : ∀ a, D.outside a = false → ∀ s, w.token.allowance a s = 0
  vaults : ∀ m, w.vaults m = Vault.blank
  log : w.log = []

/-- The states that runs of the core reach. -/
def Reachable (D : Deployment) : Core → Prop := Reach.Reachable (Genesis D) (Step D)

end Core

end Cpredict
