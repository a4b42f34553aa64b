import Cpredict.Operations.Record
import Cpredict.Session.Policy

/-!
# The calls of an intent

`buildBusinessCalls` for the intents that a trading session may sign: the encoded calls of an intent, once the
reader has been asked (`callsOf`), and what they spend by the record (`sessionSpend`).
-/

namespace Cpredict.Operations

open Outcome Session

/-! ## The environment -/

/-- The addresses and versions of a deployment that the builder reads. -/
structure Deployment where
  paymentToken : Address
  marketplace : Address
  bondEscrow : Address
  feeVault : Address
  /-- `marketplaceVersion === "orderbook-v2"` -/
  orderbookV2 : Bool
  orderbookFillPolicyVersion : Nat

/-- What the reader says of an order. -/
structure OrderView where
  market : Address
  owner : Address
  side : Side
  active : Bool
  units : Option Nat
  allowPartialFills : Option Bool
deriving DecidableEq

/-- What the reader says of a listing. -/
structure ListingView where
  market : Address
  seller : Address
  active : Bool
deriving DecidableEq

/-- `supportsQuickTrading` -/
def supportsQuickTrading : BusinessIntent → Bool
  | .depositUsdc _ _ | .other _ => false
  | _ => true

/-! ## Spending -/

def bidReserve (units price : Nat) : Nat := (units * price + 999999) / 1000000

def sessionSpend : BusinessIntent → Nat
  | .createOrder _ .bid _ units unitPrice _ _ => bidReserve units unitPrice
  | .fillOrder _ .ask _ _ paymentLimit _ => paymentLimit
  | .buy _ _ _ _ maxPayment _ => maxPayment
  | .fillListing _ _ _ maxPayment _ => maxPayment
  | _ => 0

/-! ## Encoding -/

/-- `createListing(address,uint256,uint256,uint256,uint64)` -/
def CREATE_LISTING : Bytes := [0x59, 0x4c, 0x8c, 0x19]

/-- `fillListing(bytes32,uint256,uint256,uint256,uint64)` -/
def FILL_LISTING : Bytes := [0xde, 0x58, 0x0d, 0xfa]

/-- `cancelListing(bytes32)` -/
def CANCEL_LISTING : Bytes := [0x92, 0x99, 0xe5, 0x52]

/-- `returnTerminalListing(bytes32)` -/
def RETURN_TERMINAL_LISTING : Bytes := [0x93, 0x8b, 0x24, 0xbf]

/-- A static argument: its width in bits, and its value. -/
abbrev Arg := Nat × Nat

def addressArg (a : Address) : Arg := (160, a.toNat)

def boolArg (b : Bool) : Arg := (1, b.toNat)

def sideArg (s : Side) : Arg := (8, match s with
  | .bid => 0
  | .ask => 1)

/-- `encodeFunctionData`: it refuses a value that does not fit its type. -/
def encodeFunctionData (selector : Bytes) (args : List Arg) : Except AppErr Bytes :=
  if ∀ a ∈ args, a.2 < 2 ^ a.1 then .ok (encodeCall selector (args.map Prod.snd)) else .error .invalidRequest

/-- `call` -/
def callTo (target : Address) (selector : Bytes) (args : List Arg) : Except AppErr Call := do
  .ok ⟨target, 0, ← encodeFunctionData selector args⟩

section

variable (d : Deployment) (account : Address)

def withPayment (spender : Address) (amount : Nat) (action : Call) : Except AppErr (List Call) := do
  let clear ← callTo d.paymentToken APPROVE [addressArg spender, (256, 0)]
  let approve ← callTo d.paymentToken APPROVE [addressArg spender, (256, amount)]
  .ok [clear, approve, action, clear]

def withShares (vault : Address) (action : Call) : Except AppErr (List Call) := do
  let approve ← callTo vault SHARE_APPROVE [addressArg d.marketplace, boolArg true]
  let clear ← callTo vault SHARE_APPROVE [addressArg d.marketplace, boolArg false]
  .ok [approve, action, clear]

/-- The calls of a claim. -/
def claimCalls (kind : MarketClaim) (market : Address) : Except AppErr (List Call) := do
  match kind with
  | .claimWinner => .ok [← callTo market CLAIM_WINNINGS [addressArg account]]
  | .claimEarlyBird => .ok [← callTo market CLAIM_EARLY_BIRD [addressArg account]]
  | .refund => .ok [← callTo market REFUND [addressArg account]]
  | .claimTimeoutBonus => .ok [← callTo market CLAIM_TIMEOUT_BONUS [addressArg account]]
  | .settleBond => .ok [← callTo d.bondEscrow SETTLE [addressArg market]]
  | .settleBondAndClaim =>
    .ok [← callTo d.bondEscrow SETTLE [addressArg market], ← callTo d.bondEscrow CLAIM [addressArg account]]

/-- The `switch` over the kinds, with the order that the reader has returned, and the time in seconds. -/
def callsOf (order : Option OrderView) (nowSeconds : Nat) : BusinessIntent → Except AppErr (List Call)
  | .createOrder market side outcomeId units unitPrice expiresAt autoMatch => do
    revertIf (expiresAt ≤ nowSeconds ∨ 31 < outcomeId ∨ 2 ^ 128 - 1 < units ∨ 1000000000 < unitPrice) .refused
    let action ← callTo d.marketplace CREATE [addressArg market, (8, outcomeId), sideArg side, (128, units),
      (128, unitPrice), (64, expiresAt), boolArg autoMatch]
    match side with
    | .bid => withPayment d d.marketplace (bidReserve units unitPrice) action
    | .ask => withShares d market action
  | .fillOrder orderId side units minUnits paymentLimit deadline => do
    let order ← order.elim (.error .refused) .ok
    revertIf (order.side ≠ side) .refused
    let action ← callTo d.marketplace FILL
      [(256, orderId), (128, units), (128, minUnits), (256, paymentLimit), (64, deadline)]
    match order.side with
    | .ask => withPayment d d.marketplace paymentLimit action
    | .bid => withShares d order.market action
  | .cancelOrder orderId => do .ok [← callTo d.marketplace CANCEL_ORDER [(256, orderId)]]
  | .releaseOrder orderId => do .ok [← callTo d.marketplace RELEASE_ORDER [(256, orderId)]]
  | .buy market outcomeId units minUnits maxPayment deadline => do
    let action ← callTo market BUY
      [(256, outcomeId), (256, units), (256, minUnits), (256, maxPayment), (64, deadline)]
    withPayment d market maxPayment action
  | .fillListing listingId units minUnits maxPayment deadline => do
    let action ← callTo d.marketplace FILL_LISTING
      [(256, listingId), (256, units), (256, minUnits), (256, maxPayment), (64, deadline)]
    withPayment d d.marketplace maxPayment action
  | .createListing market outcomeId units unitPrice expiresAt => do
    revertIf (expiresAt ≤ nowSeconds) .refused
    let action ← callTo d.marketplace CREATE_LISTING
      [addressArg market, (256, outcomeId), (256, units), (256, unitPrice), (64, expiresAt)]
    withShares d market action
  | .cancelListing listingId => do .ok [← callTo d.marketplace CANCEL_LISTING [(256, listingId)]]
  | .returnListing listingId => do .ok [← callTo d.marketplace RETURN_TERMINAL_LISTING [(256, listingId)]]
  | .claim kind market => claimCalls d account kind market
  | .claimBond => do .ok [← callTo d.bondEscrow CLAIM [addressArg account]]
  | .claimFees => do .ok [← callTo d.feeVault CLAIM [addressArg account]]
  -- the kinds that no session signs
  | .depositUsdc _ _ | .other _ => .error .refused

end

end Cpredict.Operations
