import Mathlib.Data.Fintype.Basic
import Mathlib.Tactic

/-!
# Shared types of the protocol

Addresses, the constants and records of `ProtocolTypes.sol`, the errors of `ProtocolErrors.sol` and of the contracts
that declare their own, and the addresses that one deployment wires together.

Amounts are natural numbers: no sum of token amounts reaches `2 ^ 256`. Widths are written out where the code depends
on them (the packed accounting words, the casts to `uint128` and `uint8`).
-/

namespace Cpredict

/-- A 20-byte account address. -/
structure Address where
  word : Fin (2 ^ 160)
deriving DecidableEq

instance : Zero Address := ⟨⟨0⟩⟩

instance : Inhabited Address := ⟨0⟩

instance : Fintype Address := Fintype.ofEquiv (Fin (2 ^ 160)) ⟨Address.mk, Address.word, fun _ => rfl, fun _ => rfl⟩

/-- The address with the given number. -/
def addr (n : Nat) : Address := ⟨Fin.ofNat (2 ^ 160) n⟩

abbrev Bytes32 := Nat

abbrev Bytes := List UInt8

/-! ## ProtocolTypes -/

def BPS : Nat := 10000

def SHARE_SCALE : Nat := 1000000

def FEATURE_EARLY_BIRD : Nat := 1 <<< 0

def FEATURE_PERMIT2 : Nat := 1 <<< 1

def SUPPORTED_FEATURE_FLAGS : Nat := FEATURE_EARLY_BIRD ||| FEATURE_PERMIT2

def PAUSE_MARKET_CREATION : Nat := 1 <<< 0

def PAUSE_PRIMARY_BUY : Nat := 1 <<< 1

def PAUSE_LISTING_CREATE : Nat := 1 <<< 2

def PAUSE_LISTING_FILL : Nat := 1 <<< 3

def PAUSE_PERMIT2 : Nat := 1 <<< 4

def MAX_URI_LENGTH : Nat := 512

def MIN_RESOLUTION_WINDOW : Nat := 15 * 60

def MAX_RESOLUTION_WINDOW : Nat := 30 * 24 * 3600

inductive DeploymentMode
  | full
  | clone
deriving DecidableEq

inductive MarketState
  | open
  | resolved
  | voided
deriving DecidableEq

inductive VoidReason
  | none
  | creator
  | noWinningSupply
  | timeout
deriving DecidableEq

structure MarketTerms where
  rulesHash : Bytes32
  metadataURI : Bytes
  resolutionSourceHash : Bytes32
  resolutionSourceURI : Bytes
  closeAt : Nat
  eventStartsAt : Nat
  outcomeDeadlineAt : Nat
  creatorTreasury : Address
  featureFlags : Nat
deriving DecidableEq

structure EconomicSnapshot where
  creatorRakeBps : Nat
  protocolShareBps : Nat
  earlyBirdShareBps : Nat
  platformC2CFeeBps : Nat
  creatorC2CFeeBps : Nat
  protocolTreasury : Address
deriving DecidableEq

structure PayoutBreakdown where
  totalPrincipal : Nat
  totalRake : Nat
  protocolFee : Nat
  earlyBirdPool : Nat
  creatorFee : Nat
  winnerPool : Nat
deriving DecidableEq

/-- What a creator asks the factory for. -/
structure CreateMarketParams where
  terms : MarketTerms
  outcomeCount : Nat
  deploymentMode : DeploymentMode
  creatorRakeBps : Nat
  creatorC2CFeeBps : Nat
  perUserPrimaryCap : Nat
  marketPrimaryCap : Nat
  minimumPrimaryUnits : Nat
  minimumC2CUnits : Nat
  creatorBond : Nat
deriving DecidableEq

/-- What the factory hands to a new vault, besides the terms. None of it changes afterwards. -/
structure MarketInit where
  factory : Address
  paymentToken : Address
  config : Address
  emergencyController : Address
  exposureGuard : Address
  bondEscrow : Address
  feeVault : Address
  permit2 : Address
  creator : Address
  outcomeCount : Nat
  createdAt : Nat
  resolutionWindow : Nat
  deploymentMode : DeploymentMode
  perUserPrimaryCap : Nat
  marketPrimaryCap : Nat
  minimumPrimaryUnits : Nat
  minimumC2CUnits : Nat
  creatorBond : Nat
  economics : EconomicSnapshot
deriving DecidableEq

/-! ## Errors -/

inductive Err
  | Unauthorized
  | ZeroAddress
  | AlreadyConfigured
  | InvalidConfiguration (field : String)
  | ValueOutOfRange (field : String) (value minimum maximum : Nat)
  | UnsupportedFeatureFlags (flags : Nat)
  | InvalidOutcome (outcomeId outcomeCount : Nat)
  | UriTooLong (supplied maximum : Nat)
  | ImmutableAfterFirstBuy
  | MarketNotOpen
  | MarketNotClosed
  | MarketTerminal
  | DeadlineExpired (deadline currentTime : Nat)
  | ResolutionWindowExpired
  | TimeoutNotReached
  | PauseActive (flag : Nat)
  | ZeroAmount
  | FillBelowMinimum (filled minimum : Nat)
  | PaymentAboveMaximum (payment maximum : Nat)
  | ExposureCapExceeded (requested available : Nat)
  | ExposureCapCannotDecrease (currentCap proposedCap : Nat)
  | Insolvent (balance liabilities : Nat)
  | InexactTokenTransfer (expected received : Nat)
  | NothingToClaim
  | AlreadySettled
  | MarketNotRegistered
  | MarketAlreadyRegistered
  | FactoryNotActive
  | AlreadyInitialized
  | InvalidInitializer
  | DeploymentFailed
  | EscrowOwnerMustReturnListing
  | Permit2Disabled
  | BondNotLocked
  | BondStateMismatch
  | AccruerNotAuthorized
  -- OrderbookMarketplaceV2
  | InvalidOrder
  | NotOwner
  | InvalidMarket
  | InactiveOrder
  | PriceLimit
  | FillMinimum
  | Expired
  | Paused
  | UnexpectedTransfer
  | InexactTransfer
  | WholeOrderRequired
  -- FixedPriceMarketplaceV1
  | ListingNotActive
  | ListingExpired
  | InvalidListingExpiry
  | InvalidPrice (price : Nat)
  | UnexpectedERC1155Transfer
  | MarketNotClosedForReturn
  -- the token standards
  | SafeCastOverflowedUintDowncast
  | ERC20Refused
  | ERC1155InsufficientBalance
  | ERC1155MissingApprovalForAll
  | ERC1155InvalidReceiver
  | ERC1155InvalidSender
  | ERC1155InvalidArrayLength
  -- the checked arithmetic and array accesses of the language
  | Panic
  -- a call no account can make
  | NoSuchCaller
deriving DecidableEq

/-! ## Deployments -/

/-- The addresses that one activated factory wires together, and which addresses calls come from: users and contracts
of others, but none of the contracts of the protocol. -/
structure Deployment where
  factory : Address
  paymentToken : Address
  config : Address
  emergencyController : Address
  exposureGuard : Address
  bondEscrow : Address
  feeVault : Address
  permit2 : Address
  governance : Address
  marketplace : Address
  resolutionWindow : Nat
  outside : Address → Bool
  window_ge : MIN_RESOLUTION_WINDOW ≤ resolutionWindow
  window_le : resolutionWindow ≤ MAX_RESOLUTION_WINDOW
  factory_inside : outside factory = false
  bondEscrow_inside : outside bondEscrow = false
  feeVault_inside : outside feeVault = false
  exposureGuard_inside : outside exposureGuard = false
  marketplace_outside : outside marketplace = true
  bondEscrow_ne_feeVault : bondEscrow ≠ feeVault
  zero_outside : outside 0 = false
  marketplace_ne_zero : marketplace ≠ 0
  feeVault_ne_zero : feeVault ≠ 0
  bondEscrow_ne_zero : bondEscrow ≠ 0

/-- The contracts deployed before the factory is activated. -/
def Deployment.fixed (D : Deployment) (a : Address) : Bool :=
  a = D.factory || a = D.paymentToken || a = D.config || a = D.emergencyController || a = D.exposureGuard
    || a = D.bondEscrow || a = D.feeVault || a = D.permit2 || a = 0

end Cpredict
