import Cpredict.Core.Calls

/-!
# FixedPriceMarketplaceV1: the calls

The fixed-price marketplace at the address `D.marketplace`, over the core whose tokens and shares it moves. Every
external function that changes state, with its checks, payments and events in the order of the source. A listing id
is the tuple that the contract hashes, and `expectedReceipt` is the tuple whose hash it stores; equal hashes are
taken to be equal tuples.

A delivery of shares calls their receiver, which may make calls to the core before it accepts or rejects; it cannot
get back into the functions of the marketplace, none of which is reentrant.
-/

namespace Cpredict

namespace FixedPrice

open Outcome MulDiv

def MIN_UNIT_PRICE : Nat := 1

def MAX_UNIT_PRICE : Nat := 1000000000

structure Listing where
  vault : Address
  seller : Address
  remainingUnits : Nat
  unitPrice : Nat
  expiresAt : Nat
  outcomeId : Nat
  active : Bool
deriving DecidableEq

/-- The slot of an id that no listing has been given. -/
def Listing.blank : Listing := ⟨0, 0, 0, 0, 0, 0, false⟩

structure FillAmounts where
  units : Nat
  gross : Nat
  platformFee : Nat
  creatorFee : Nat
  sellerProceeds : Nat
deriving DecidableEq

structure Receipt where
  vault : Address
  source : Address
  outcomeId : Nat
  amount : Nat
  listingId : ListingId
deriving DecidableEq

structure Marketplace where
  sellerNonce : Address → Nat
  listings : ListingId → Listing
  expectedReceipt : Option Receipt

def Marketplace.deployed : Marketplace := ⟨fun _ => 0, fun _ => .blank, none⟩

def Marketplace.setListing (m : Marketplace) (id : ListingId) (l : Listing) : Marketplace :=
  { m with listings := Function.update m.listings id l }

structure State where
  core : Core
  marketplace : Marketplace

/-- A delivery of shares as its receiver sees it. `data` is the listing id that its data decode to. -/
structure Delivery where
  market : Address
  operator : Address
  source : Address
  target : Address
  id : Nat
  value : Nat
  data : Option ListingId
deriving DecidableEq

/-- `onERC1155Received`: whether the marketplace accepts a delivery. It rejects all batches. -/
def Marketplace.onERC1155Received (m : Marketplace) (d : Delivery) : Bool :=
  match d.data with
  | some listingId => decide (m.expectedReceipt = some ⟨d.market, d.source, d.id, d.value, listingId⟩)
  | none => false

namespace State

def emit (W : State) (e : ListingEvent) : State := { W with core := W.core.emit (.listing e) }

/-! ## Calls of others -/

/-- A call to the core in which the marketplace answers the deliveries to it. -/
def answered (D : Deployment) (m : Marketplace) (caller : Address) (data : Option ListingId) : CoreCall → CoreCall
  | .buyWithPermit2 market owner outcomeId desiredUnits minUnits maxPayment callDeadline token amount
      accepted accepts =>
    .buyWithPermit2 market owner outcomeId desiredUnits minUnits maxPayment callDeadline token amount accepted
      (decide (owner ≠ D.marketplace) && accepts)
  | .safeTransferFrom market source target id value accepts =>
    .safeTransferFrom market source target id value
      (if target = D.marketplace then m.onERC1155Received ⟨market, caller, source, target, id, value,
        data⟩ else accepts)
  | .safeBatchTransferFrom market source target parts accepts =>
    .safeBatchTransferFrom market source target parts (decide (target ≠ D.marketplace) && accepts)
  | c => c

/-- A call that does not revert and is not one of the marketplace's. -/
inductive Outside (D : Deployment) : State → State → Prop
  | core (W : State) (w : Core) (caller : Address) (c : CoreCall) (data : Option ListingId) : caller ≠ D.marketplace →
    Core.exec D W.core caller (answered D W.marketplace caller data c) = .ok w → Outside D W { W with core := w }

/-- The receivers of shares: how each answers a delivery, with the state after the calls it makes before it accepts. -/
structure Receivers (D : Deployment) where
  answer : State → Delivery → Option State
  lawful : ∀ W d W', answer W d = some W' → Reach.Run (Outside D) W W'

section

variable (D : Deployment) (R : Receivers D) (W : State)

/-! ## Tokens and shares -/

/-- The call of the receiver of shares. -/
def deliver (d : Delivery) : Except Err State :=
  if d.target = D.marketplace then do
    revertIf (W.marketplace.onERC1155Received d = false) .UnexpectedERC1155Transfer
    .ok W
  else do
    revertIf (D.outside d.target = false) .ERC1155InvalidReceiver
    match R.answer W d with
    | some W' => .ok W'
    | none => .error .ERC1155InvalidReceiver

/-- `IERC1155(vault).safeTransferFrom`, called by the marketplace. -/
def safeTransferFrom (market source target : Address) (id value : Nat) (data : Option ListingId) :
    Except Err State := do
  let core ← W.core.moveShares D.marketplace market source target id value
  deliver D R { W with core := core } ⟨market, D.marketplace, source, target, id, value, data⟩

/-! ## Listings -/

/-- The checks of `createListing`. -/
def checkListing (vault : Address) (outcomeId amount unitPrice expiresAt : Nat) : Except Err Unit := do
  revertIf (W.core.emergency.isPaused W.core.now PAUSE_LISTING_CREATE = true) (.PauseActive PAUSE_LISTING_CREATE)
  revertIf (W.core.factory.isMarket vault = false) .MarketNotRegistered
  let v := W.core.vaults vault
  revertIf (v.isTerminal = true) .MarketTerminal
  revertIf (v.init.outcomeCount ≤ outcomeId) (.InvalidOutcome outcomeId v.init.outcomeCount)
  revertIf (amount < v.init.minimumC2CUnits ∨ 2 ^ 128 - 1 < amount) (.FillBelowMinimum amount v.init.minimumC2CUnits)
  revertIf (unitPrice < MIN_UNIT_PRICE ∨ MAX_UNIT_PRICE < unitPrice) (.InvalidPrice unitPrice)
  revertIf (expiresAt ≤ W.core.now) .InvalidListingExpiry

/-- The storage of `createListing` before the shares are escrowed: the marketplace expects this one receipt. -/
def listed (m : Marketplace) (id : ListingId) (l : Listing) : Marketplace where
  sellerNonce := Function.update m.sellerNonce id.seller (id.nonce + 1)
  listings := Function.update m.listings id l
  expectedReceipt := some ⟨l.vault, l.seller, l.outcomeId, l.remainingUnits, id⟩

def createListing (caller vault : Address) (outcomeId amount unitPrice expiresAt : Nat) : Except Err State := do
  checkListing W vault outcomeId amount unitPrice expiresAt
  let outcome ← Vault.toUint8 outcomeId
  let nonce := W.marketplace.sellerNonce caller
  let id : ListingId := ⟨vault, caller, nonce⟩
  let W := { W with marketplace := listed W.marketplace id ⟨vault, caller, amount, unitPrice, expiresAt,
    outcome, true⟩ }
  let W ← safeTransferFrom D R W vault caller D.marketplace outcomeId amount (some id)
  let W := { W with marketplace := { W.marketplace with expectedReceipt := none } }
  .ok (W.emit (.ListingCreated id vault caller outcomeId amount unitPrice expiresAt nonce))

/-- `_prepareFill` up to its writes: the listing, what is filled of it, and what is left. -/
def quoteFill (id : ListingId) (desiredUnits minUnits maxGross deadline : Nat) :
    Except Err (Listing × FillAmounts × Nat) := do
  revertIf (W.core.emergency.isPaused W.core.now PAUSE_LISTING_FILL = true) (.PauseActive PAUSE_LISTING_FILL)
  revertIf (deadline < W.core.now) (.DeadlineExpired deadline W.core.now)
  let stored := W.marketplace.listings id
  revertIf (stored.active = false) .ListingNotActive
  revertIf (stored.expiresAt ≤ W.core.now) .ListingExpired
  let v := W.core.vaults stored.vault
  revertIf (v.isTerminal = true) .MarketTerminal
  revertIf (desiredUnits = 0) .ZeroAmount
  let units := min desiredUnits stored.remainingUnits
  revertIf (units < minUnits) (.FillBelowMinimum units minUnits)
  revertIf (units < v.init.minimumC2CUnits ∧ units ≠ stored.remainingUnits)
    (.FillBelowMinimum units v.init.minimumC2CUnits)
  let remaining := stored.remainingUnits - units
  revertIf (remaining ≠ 0 ∧ remaining < v.init.minimumC2CUnits) (.FillBelowMinimum remaining v.init.minimumC2CUnits)
  let gross := mulDiv units stored.unitPrice SHARE_SCALE
  revertIf (gross = 0) .ZeroAmount
  revertIf (maxGross < gross) (.PaymentAboveMaximum gross maxGross)
  let platformFee := mulDiv gross v.init.economics.platformC2CFeeBps BPS
  let creatorFee := mulDiv gross v.init.economics.creatorC2CFeeBps BPS
  let rest ← checkedSub .Panic gross platformFee
  let sellerProceeds ← checkedSub .Panic rest creatorFee
  .ok (stored, ⟨units, gross, platformFee, creatorFee, sellerProceeds⟩, remaining)

/-- `_prepareFill` -/
def prepareFill (id : ListingId) (desiredUnits minUnits maxGross deadline : Nat) :
    Except Err (State × Listing × FillAmounts) := do
  let (listing, amounts, remaining) ← quoteFill W id desiredUnits minUnits maxGross deadline
  let stored := { listing with remainingUnits := remaining, active := listing.active && remaining != 0 }
  .ok ({ W with marketplace := W.marketplace.setListing id stored }, listing, amounts)

/-! ## Payments -/

/-- `_accrueFees` -/
def accrueFees (w : Core) (listing : Listing) (id : ListingId) (amounts : FillAmounts) : Except Err Core := do
  let w ← w.accrue D D.marketplace (w.vaults listing.vault).init.economics.protocolTreasury amounts.platformFee
    .platformC2C (.listing id)
  w.accrue D D.marketplace (w.vaults listing.vault).terms.creatorTreasury amounts.creatorFee .creatorC2C (.listing id)

/-- `_payFrom` -/
def payFrom (w : Core) (buyer : Address) (listing : Listing) (id : ListingId) (amounts : FillAmounts) :
    Except Err Core := do
  let w ← if amounts.sellerProceeds ≠ 0 then w.payFrom D.marketplace buyer listing.seller amounts.sellerProceeds
    else .ok w
  let fees := amounts.platformFee + amounts.creatorFee
  if fees ≠ 0 then do
    let w ← w.pullExact D.marketplace buyer D.feeVault fees
    accrueFees D w listing id amounts
  else .ok w

/-- `_payHeld` -/
def payHeld (w : Core) (listing : Listing) (id : ListingId) (amounts : FillAmounts) : Except Err Core := do
  let w ← if amounts.sellerProceeds ≠ 0 then w.pay D.marketplace listing.seller amounts.sellerProceeds else .ok w
  let fees := amounts.platformFee + amounts.creatorFee
  if fees ≠ 0 then do
    let w ← w.pay D.marketplace D.feeVault fees
    accrueFees D w listing id amounts
  else .ok w

/-- A permit of Permit2: what it permits, and whether its deadline, its nonce and its signature are in order for the
witness of the fill. -/
structure Permit where
  token : Address
  amount : Nat
  accepted : Bool
deriving DecidableEq

/-- `_pullWithPermit2`: Permit2 moves the amount on the allowance that the buyer has given it. -/
def pullWithPermit2 (w : Core) (buyer : Address) (amount : Nat) (permit : Permit) : Except Err Core := do
  revertIf (permit.accepted = false ∨ permit.amount < amount) .ERC20Refused
  w.pullExact D.permit2 buyer D.marketplace amount

/-! ## Fills -/

/-- What the two ways to fill a listing share after the payment. -/
def completeFill (id : ListingId) (buyer : Address) (listing : Listing) (desiredUnits : Nat) (amounts : FillAmounts) :
    Except Err (State × Nat × Nat) := do
  let W ← safeTransferFrom D R W listing.vault D.marketplace buyer listing.outcomeId amounts.units none
  .ok (W.emit (.ListingFilled id buyer listing.seller desiredUnits amounts.units amounts.gross amounts.sellerProceeds
    amounts.platformFee amounts.creatorFee (W.marketplace.listings id).remainingUnits), amounts.units, amounts.gross)

def fillListing (caller : Address) (id : ListingId) (desiredUnits minUnits maxGross deadline : Nat) :
    Except Err (State × Nat × Nat) := do
  let (W, listing, amounts) ← prepareFill W id desiredUnits minUnits maxGross deadline
  let core ← payFrom D W.core caller listing id amounts
  completeFill D R { W with core := core } id caller listing desiredUnits amounts

def fillListingWithPermit2 (id : ListingId) (buyer : Address) (desiredUnits minUnits maxGross callDeadline : Nat)
    (permit : Permit) :
    Except Err (State × Nat × Nat) := do
  revertIf (D.permit2 = 0) .Permit2Disabled
  revertIf (W.core.emergency.isPaused W.core.now PAUSE_PERMIT2 = true) (.PauseActive PAUSE_PERMIT2)
  let (W, listing, amounts) ← prepareFill W id desiredUnits minUnits maxGross callDeadline
  revertIf ((W.core.vaults listing.vault).permit2Enabled = false) .Permit2Disabled
  revertIf (permit.token ≠ D.paymentToken ∨ permit.amount < amounts.gross) (.InvalidConfiguration "permit2.permissions")
  let core ← pullWithPermit2 D W.core buyer amounts.gross permit
  let core ← payHeld D core listing id amounts
  completeFill D R { W with core := core } id buyer listing desiredUnits amounts

/-! ## Exits -/

/-- What the two exits share: the listing is closed and its shares go back to the seller. -/
def returnListing (id : ListingId) (event : Listing → ListingEvent) : Except Err State := do
  let listing := W.marketplace.listings id
  let W := { W with marketplace := W.marketplace.setListing id { listing with active := false, remainingUnits := 0 } }
  let W ← safeTransferFrom D R W listing.vault D.marketplace listing.seller listing.outcomeId
    listing.remainingUnits none
  .ok (W.emit (event listing))

def cancelListing (caller : Address) (id : ListingId) : Except Err State := do
  let listing := W.marketplace.listings id
  revertIf (listing.active = false ∨ listing.seller ≠ caller) .ListingNotActive
  returnListing D R W id fun l => .ListingCancelled id l.seller l.remainingUnits

def returnTerminalListing (caller : Address) (id : ListingId) : Except Err State := do
  let listing := W.marketplace.listings id
  revertIf (listing.active = false) .ListingNotActive
  revertIf ((W.core.vaults listing.vault).isTerminal = false) .MarketNotClosedForReturn
  returnListing D R W id fun l => .TerminalListingReturned id caller l.seller l.remainingUnits

end

/-! ## Runs -/

inductive Call
  | createListing (vault : Address) (outcomeId amount unitPrice expiresAt : Nat)
  | fillListing (id : ListingId) (desiredUnits minUnits maxGross deadline : Nat)
  | fillListingWithPermit2 (id : ListingId) (buyer : Address) (desiredUnits minUnits maxGross callDeadline : Nat)
    (permit : Permit)
  | cancelListing (id : ListingId)
  | returnTerminalListing (id : ListingId)

/-- A call to the marketplace by an account, which is none of the contracts of the protocol. A buyer who pays by a
permit is such an account too: no contract of the protocol can sign. -/
def exec (D : Deployment) (R : Receivers D) (W : State) (caller : Address) (c : Call) : Except Err State := do
  revertIf (D.outside caller = false ∨ caller = D.marketplace) .NoSuchCaller
  match c with
  | .createListing vault outcomeId amount unitPrice expiresAt =>
    createListing D R W caller vault outcomeId amount unitPrice expiresAt
  | .fillListing id desiredUnits minUnits maxGross deadline => do
    let (W, _, _) ← fillListing D R W caller id desiredUnits minUnits maxGross deadline
    .ok W
  | .fillListingWithPermit2 id buyer desiredUnits minUnits maxGross callDeadline permit => do
    revertIf (D.outside buyer = false ∨ buyer = D.marketplace) .ERC20Refused
    let (W, _, _) ← fillListingWithPermit2 D R W id buyer desiredUnits minUnits maxGross callDeadline permit
    .ok W
  | .cancelListing id => cancelListing D R W caller id
  | .returnTerminalListing id => returnTerminalListing D R W caller id

/-- A step: a call to the marketplace with some behaviour of the receivers, another call, or time passing. -/
inductive Step (D : Deployment) : State → State → Prop
  | call (R : Receivers D) (W W' : State) (caller : Address) (c : Call) : exec D R W caller c = .ok W' → Step D W W'
  | outside (W W' : State) : Outside D W W' → Step D W W'
  | tick (W : State) (seconds : Nat) : Step D W { W with core := { W.core with now := W.core.now + seconds } }

/-- The state after the activation of the factory and the deployment of the marketplace. -/
structure Genesis (D : Deployment) (W : State) : Prop where
  core : Core.Genesis D W.core
  marketplace : W.marketplace = Marketplace.deployed
  allowance : ∀ s, W.core.token.allowance D.marketplace s = 0

/-- The states that runs reach. -/
def Reachable (D : Deployment) : State → Prop := Reach.Reachable (Genesis D) (Step D)

end State

end FixedPrice

end Cpredict
