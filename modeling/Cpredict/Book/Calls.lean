import Cpredict.Book.State
import Cpredict.Core.Calls

/-!
# OrderbookMarketplaceV2: the calls

The orderbook at the address `D.marketplace`, over the core whose tokens and shares it moves. Every external function
that changes state, with its checks, payments and events in the order of the source.

A delivery of shares calls their receiver, which may make calls of its own before it accepts or rejects. It cannot get
back into the functions of the orderbook, which are not reentrant, but it can do everything else: call the core, or set
the default fill policy if governance takes part (`Outside`). `Receivers` answers every delivery with the state after
such calls, or rejects it.
-/

namespace Cpredict

open Outcome MulDiv

structure World where
  core : Core
  book : Book

/-- A delivery of shares as its receiver sees it. `data` is the word that 32 bytes of data decode to. -/
structure Delivery where
  market : Address
  operator : Address
  source : Address
  target : Address
  id : Nat
  value : Nat
  data : Option Nat
deriving DecidableEq

namespace Book

/-- `onERC1155Received`: whether the orderbook accepts a delivery. It rejects all batches. -/
def onERC1155Received (D : Deployment) (b : Book) (d : Delivery) : Bool :=
  decide (d.operator = D.marketplace) &&
    match d.data with
    | some orderId => decide (b.expectedReceipt = some ⟨d.market, d.source, d.id, d.value, orderId⟩)
    | none => false

end Book

namespace World

def emit (W : World) (e : BookEvent) : World := { W with core := W.core.emit (.book e) }

def setOrder (W : World) (id : Nat) (o : Order) : World := { W with book := W.book.setOrder id o }

/-! ## Calls of others -/

/-- A call to the core in which the orderbook answers the deliveries to it: it is not the operator of any of them. -/
def answered (D : Deployment) : CoreCall → CoreCall
  | .buyWithPermit2 market owner outcomeId desiredUnits minUnits maxPayment callDeadline token amount
      accepted accepts =>
    .buyWithPermit2 market owner outcomeId desiredUnits minUnits maxPayment callDeadline token amount accepted
      (decide (owner ≠ D.marketplace) && accepts)
  | .safeTransferFrom market source target id value accepts =>
    .safeTransferFrom market source target id value (decide (target ≠ D.marketplace) && accepts)
  | .safeBatchTransferFrom market source target parts accepts =>
    .safeBatchTransferFrom market source target parts (decide (target ≠ D.marketplace) && accepts)
  | c => c

def setDefaultAllowPartialFills (D : Deployment) (W : World) (caller : Address) (allowed : Bool) :
    Except Err World := do
  revertIf (caller ≠ D.governance) .Unauthorized
  .ok ({ W with book := { W.book with defaultAllowPartialFills := allowed } }.emit
    (.DefaultAllowPartialFillsUpdated allowed))

/-- A call that does not revert and is not one of the orderbook's guarded functions. With `q`, the calls that
change what the orderbook has of the payment token are left out: nobody makes it a present of some. -/
inductive Outside (D : Deployment) (q : Prop) : World → World → Prop
  | core (W : World) (w : Core) (caller : Address) (c : CoreCall) : caller ≠ D.marketplace →
    Core.exec D W.core caller (answered D c) = .ok w →
    (q → w.token.balanceOf D.marketplace = W.core.token.balanceOf D.marketplace) →
    Outside D q W { W with core := w }
  | setDefault (W W' : World) (caller : Address) (allowed : Bool) :
    setDefaultAllowPartialFills D W caller allowed = .ok W' → Outside D q W W'

/-- The receivers of shares: how each answers a delivery, with the state after the calls it makes before it accepts. -/
structure Receivers (D : Deployment) (q : Prop) where
  answer : World → Delivery → Option World
  lawful : ∀ W d W', answer W d = some W' → Reach.Run (Outside D q) W W'

section

variable (D : Deployment) {q : Prop} (R : Receivers D q) (W : World)

/-! ## Tokens and shares -/

/-- `paymentToken.safeTransfer` -/
def safeTransfer (target : Address) (amount : Nat) : Except Err World := do
  let core ← W.core.pay D.marketplace target amount
  .ok { W with core := core }

/-- `_pull` -/
def pull (source : Address) (amount : Nat) : Except Err World := do
  let core ← W.core.payFrom D.marketplace source D.marketplace amount
  let received ← checkedSub .Panic (core.token.balanceOf D.marketplace) (W.core.token.balanceOf D.marketplace)
  revertIf (received ≠ amount) .InexactTransfer
  .ok { W with core := core }

/-- The call of the receiver of shares. -/
def deliver (d : Delivery) : Except Err World :=
  if d.target = D.marketplace then do
    revertIf (W.book.onERC1155Received D d = false) .UnexpectedTransfer
    .ok W
  else do
    revertIf (D.outside d.target = false) .ERC1155InvalidReceiver
    match R.answer W d with
    | some W' => .ok W'
    | none => .error .ERC1155InvalidReceiver

/-- `IERC1155(vault).safeTransferFrom`, called by the orderbook. -/
def safeTransferFrom (market source target : Address) (id value : Nat) (data : Option Nat) : Except Err World := do
  let core ← W.core.moveShares D.marketplace market source target id value
  deliver D R { W with core := core } ⟨market, D.marketplace, source, target, id, value, data⟩

/-- `IERC1155(vault).balanceOf(address(this), outcomeId)` -/
def escrowBalance (market : Address) (outcomeId : Nat) : Nat :=
  (W.core.vaults market).shares.balanceOf outcomeId D.marketplace

/-- `transferEscrowedShares`, called by `sender`. -/
def transferEscrowedShares (sender market recipient : Address) (outcomeId units : Nat) : Except Err World := do
  revertIf (sender ≠ D.marketplace) .InvalidOrder
  safeTransferFrom D R W market D.marketplace recipient outcomeId units none

/-- `_fees` -/
def fees (market : Address) (gross : Nat) : Fees where
  platform := mulDiv gross (W.core.vaults market).init.economics.platformC2CFeeBps BPS
  creator := mulDiv gross (W.core.vaults market).init.economics.creatorC2CFeeBps BPS

/-- The part of `_pay` that concerns the fees. -/
def payFees (market : Address) (f : Fees) (orderId : Nat) : Except Err World :=
  if f.platform + f.creator ≠ 0 then do
    let W ← W.safeTransfer D D.feeVault (f.platform + f.creator)
    let core ← W.core.accrue D D.marketplace (W.core.vaults market).init.economics.protocolTreasury f.platform
      .platformC2C (.order orderId)
    let core ← core.accrue D D.marketplace (core.vaults market).terms.creatorTreasury f.creator .creatorC2C
      (.order orderId)
    .ok { W with core := core }
  else .ok W

/-- `_pay` -/
def pay (market seller : Address) (gross : Nat) (f : Fees) (orderId : Nat) : Except Err World := do
  let rest ← checkedSub .Panic gross f.platform
  let proceeds ← checkedSub .Panic rest f.creator
  let W ← W.safeTransfer D seller proceeds
  payFees D W market f orderId

/-! ## Releases -/

/-- `_unpaused` -/
def unpaused (bit : Nat) : Except Err Unit := revertIf (W.core.emergency.isPaused W.core.now bit = true) .Paused

/-- `_live` -/
def live (id : Nat) : Except Err Unit := do
  revertIf ((W.book.orders id).active = false) .InactiveOrder
  revertIf ((W.book.orders id).expiresAt ≤ W.core.now) .Expired
  revertIf ((W.core.vaults (W.book.orders id).vault).isTerminal = true) .InvalidMarket

/-- `_stale` -/
def stale (id : Nat) : Bool :=
  (W.book.orders id).active && (decide ((W.book.orders id).expiresAt ≤ W.core.now) ||
    (W.core.vaults (W.book.orders id).vault).isTerminal)

/-- The part of `_release` that pays a bid back. -/
def returnPayment (o : Order) (payment : Nat) : Except Err World := do
  let total ← checkedSub .Panic W.book.totalLockedPayment payment
  let W := { W with book := { W.book with totalLockedPayment := total } }
  if payment ≠ 0 then W.safeTransfer D o.owner payment else .ok W

/-- The part of `_release` that returns the shares of an ask, and how many it returned. -/
def returnShares (id : Nat) (o : Order) (units : Nat) : Except Err (World × Nat) :=
  if units ≠ 0 then do
    revertIf (W.escrowBalance D o.vault o.outcomeId < units) .InexactTransfer
    match transferEscrowedShares D R W D.marketplace o.vault o.owner o.outcomeId units with
    | .ok W => .ok (W, units)
    | .error _ =>
      .ok ({ W with book := { W.book with pendingShares := Function.update W.book.pendingShares id units } }.emit
        (.OrderSharesDeferred id o.owner units), 0)
  else .ok (W, units)

/-- The part of `_release` that gives the owner of an order back what it held, and the units that this returned. -/
def giveBack (id : Nat) (o : Order) : Except Err (World × Nat) :=
  match o.side with
  | .bid => do
    let W ← returnPayment D W o o.lockedPayment
    .ok (W, 0)
  | .ask => returnShares D R W id o o.remainingUnits

/-- `_release` -/
def release (id : Nat) (reason : ReleaseReason) : Except Err World := do
  let o := W.book.orders id
  revertIf (o.active = false) .InactiveOrder
  let b ← W.book.remove id
  let W := { W with book := b.setOrder id { o with active := false, remainingUnits := 0, lockedPayment := 0 } }
  let (W, units) ← giveBack D R W id o
  .ok (W.emit (.OrderReleased id o.owner reason units o.lockedPayment))

/-- `_releaseStale` -/
def releaseStale (id : Nat) : Except Err World :=
  release D R W id (if (W.core.vaults (W.book.orders id).vault).isTerminal = true then .terminal else .expired)

/-- The part of `_finish` that lowers the locked payment of a bid. -/
def returnExcess (id : Nat) : Except Err World := do
  let o := W.book.orders id
  let needed := reserve o.remainingUnits o.unitPrice
  let excess ← checkedSub .Panic o.lockedPayment needed
  let total ← checkedSub .Panic W.book.totalLockedPayment excess
  let W := { W with book :=
    { W.book.setOrder id { o with lockedPayment := needed } with totalLockedPayment := total } }
  if excess ≠ 0 then do
    let W ← W.safeTransfer D o.owner excess
    .ok (W.emit (.BidExcessReturned id o.owner excess))
  else .ok W

/-- Whether `_finish` releases what is left of an order. -/
def isDust (id : Nat) : Bool :=
  let o := W.book.orders id
  decide (o.remainingUnits < (W.core.vaults o.vault).init.minimumC2CUnits ∨ grossOf o.remainingUnits o.unitPrice = 0)

/-- The last line of `_finish`. -/
def relist (id : Nat) : World :=
  if (W.book.orders id).active = true ∧ (W.book.orders id).autoMatch = true then { W with book := W.book.insert id }
  else W

/-- `_finish` -/
def finish (id : Nat) : Except Err World := do
  let W ← if W.isDust id = true then release D R W id .dust
    else match (W.book.orders id).side with
      | .bid => returnExcess D W id
      | .ask => .ok W
  .ok (W.relist id)

/-! ## Orders -/

/-- The checks of `createOrder`. -/
def checkOrder (market : Address) (outcomeId units unitPrice expiresAt : Nat) (autoMatch : Bool) : Except Err Unit := do
  W.unpaused PAUSE_LISTING_CREATE
  revertIf (W.core.factory.isMarket market = false) .InvalidMarket
  let v := W.core.vaults market
  revertIf (v.init.factory ≠ D.factory ∨ v.init.paymentToken ≠ D.paymentToken ∨ v.isTerminal = true) .InvalidMarket
  revertIf (v.init.outcomeCount ≤ outcomeId ∨ units < v.init.minimumC2CUnits ∨ units = 0 ∨ unitPrice = 0
      ∨ MAX_UNIT_PRICE < unitPrice ∨ expiresAt ≤ W.core.now ∨ grossOf units unitPrice = 0
      ∨ autoMatch = true ∧ grossOf v.init.minimumC2CUnits unitPrice = 0)
    .InvalidOrder

/-- The storage of `createOrder` before anything is escrowed. -/
def placed (b : Book) (o : Order) : Book :=
  let id := b.nextOrderId
  let b := { b with
    nextOrderId := id + 1
    orders := Function.update b.orders id o
    orderAllowsPartialFills := Function.update b.orderAllowsPartialFills id b.defaultAllowPartialFills }
  if o.autoMatch = true then b.insert id else b

/-- The escrow of a new bid. -/
def pullPayment (o : Order) : Except Err World :=
  pull D { W with book := { W.book with totalLockedPayment := W.book.totalLockedPayment + o.lockedPayment } } o.owner
    o.lockedPayment

/-- The escrow of a new ask: the orderbook expects this one receipt. -/
def pullShares (id : Nat) (o : Order) : Except Err World := do
  let W := { W with book := { W.book with
    expectedReceipt := some ⟨o.vault, o.owner, o.outcomeId, o.remainingUnits, id⟩ } }
  let W ← safeTransferFrom D R W o.vault o.owner D.marketplace o.outcomeId o.remainingUnits (some id)
  .ok { W with book := { W.book with expectedReceipt := none } }

/-- `createOrder` -/
def createOrder (caller market : Address) (outcomeId : Nat) (side : Side) (units unitPrice : Uint128) (expiresAt : Nat)
    (autoMatch : Bool) : Except Err World := do
  checkOrder D W market outcomeId units.val unitPrice.val expiresAt autoMatch
  let id := W.book.nextOrderId
  let locked := match side with
    | .bid => reserve units.val unitPrice.val
    | .ask => 0
  let o : Order := ⟨market, caller, units.val, unitPrice.val, expiresAt, outcomeId, side, autoMatch, true, locked⟩
  let W := { W with book := placed W.book o }
  let W ← match side with
    | .bid => pullPayment D W o
    | .ask => pullShares D R W id o
  .ok ((W.emit (.OrderCreated id market caller outcomeId side units.val unitPrice.val expiresAt autoMatch locked)).emit
    (.OrderFillPolicySnapshotted id (W.book.orderAllowsPartialFills id)))

/-- The check of `paymentLimit`: the most to pay for an ask, or the least to get from a bid. -/
def checkLimit (side : Side) (gross : Nat) (f : Fees) (paymentLimit : Nat) : Except Err Unit :=
  match side with
  | .ask => revertIf (paymentLimit < gross) .PriceLimit
  | .bid => do
    let rest ← checkedSub .Panic gross f.platform
    let proceeds ← checkedSub .Panic rest f.creator
    revertIf (proceeds < paymentLimit) .PriceLimit

/-- The transfers of `fillOrder`, of shares and of the payment token, once the order has left the books. -/
def exchange (caller : Address) (id units gross : Nat) (f : Fees) : Except Err World := do
  let o := W.book.orders id
  let buyer := match o.side with
    | .bid => o.owner
    | .ask => caller
  let seller := match o.side with
    | .bid => caller
    | .ask => o.owner
  let W ← match o.side with
    | .bid => do
      let b ← W.book.spendBid id gross
      .ok { W with book := b }
    | .ask => pull D W buyer gross
  let W ← pay D W o.vault seller gross f id
  let source := match o.side with
    | .bid => seller
    | .ask => D.marketplace
  safeTransferFrom D R W o.vault source buyer o.outcomeId units none

/-- `fillOrder`: the units and what they cost. -/
def fillOrder (caller : Address) (id desiredUnits minUnits paymentLimit deadline : Nat) :
    Except Err (World × Nat × Nat) := do
  W.unpaused PAUSE_LISTING_FILL
  revertIf (deadline < W.core.now) .Expired
  W.live id
  let o := W.book.orders id
  revertIf (caller = o.owner) .InvalidOrder
  let units := min desiredUnits o.remainingUnits
  revertIf (W.book.orderAllowsPartialFills id = false ∧
    (desiredUnits ≠ o.remainingUnits ∨ minUnits ≠ o.remainingUnits)) .WholeOrderRequired
  revertIf (units = 0 ∨ units < minUnits ∨
    units < (W.core.vaults o.vault).init.minimumC2CUnits ∧ units ≠ o.remainingUnits) .FillMinimum
  let gross := grossOf units o.unitPrice
  revertIf (gross = 0) .PriceLimit
  let f := W.fees o.vault gross
  checkLimit o.side gross f paymentLimit
  let buyer := match o.side with
    | .bid => o.owner
    | .ask => caller
  let seller := match o.side with
    | .bid => caller
    | .ask => o.owner
  let b ← W.book.remove id
  let b ← b.reduce id units
  let W ← exchange D R { W with book := b } caller id units gross f
  let W ← finish D R W id
  let left := W.book.orders id
  .ok ((W.emit (.TradeExecuted id o.vault buyer seller o.outcomeId units o.unitPrice gross f.platform f.creator
      (decide (o.side = .ask)) (if o.side = .ask then left.remainingUnits else 0))).emit
    (.OrderFilled id buyer seller units o.unitPrice gross f.platform f.creator left.remainingUnits left.lockedPayment),
    units, gross)

/-! ## Matching -/

/-- How one step of `_matchOrders` ends: it breaks, it releases an order, or it fills two. -/
inductive Turn
  | stopped
  | released (id : Nat)
  | filled (bidId askId units price : Nat)
deriving DecidableEq

/-- The part of a step of `_matchOrders` after the buyer has accepted the shares. -/
def settle (market : Address) (outcomeId bidId askId makerId units price gross : Nat) (f : Fees) :
    Except Err World := do
  let b ← W.book.remove bidId
  let b ← b.remove askId
  let b ← b.reduce bidId units
  let b ← b.reduce askId units
  let b ← b.spendBid bidId gross
  let W ← pay D { W with book := b } market (b.orders askId).owner gross f makerId
  let W ← finish D R W bidId
  let W ← finish D R W askId
  let bid := W.book.orders bidId
  let ask := W.book.orders askId
  .ok ((((W.emit (.OrderFilled bidId bid.owner ask.owner units price gross f.platform f.creator bid.remainingUnits
      bid.lockedPayment)).emit
    (.OrderFilled askId bid.owner ask.owner units price gross f.platform f.creator ask.remainingUnits
      ask.lockedPayment)).emit
    (.TradeExecuted askId market bid.owner ask.owner outcomeId units price gross f.platform f.creator true
      ask.remainingUnits)).emit
    (.OrdersMatched bidId askId makerId units price))

/-- The part of a step of `_matchOrders` in which the two orders at the heads cross. -/
def matchPair (market : Address) (outcomeId bidId askId : Nat) : Except Err (Turn × World) := do
  let bid := W.book.orders bidId
  let ask := W.book.orders askId
  let makerId := if bidId < askId then bidId else askId
  let price := (W.book.orders makerId).unitPrice
  let units := min bid.remainingUnits ask.remainingUnits
  revertIf ((W.book.orderAllowsPartialFills bidId = false ∨ W.book.orderAllowsPartialFills askId = false) ∧
    bid.remainingUnits ≠ ask.remainingUnits) .WholeOrderRequired
  let gross := grossOf units price
  if gross = 0 then .ok (.stopped, W)
  else do
    let f := W.fees market gross
    revertIf (W.escrowBalance D market outcomeId < units) .InexactTransfer
    match transferEscrowedShares D R W D.marketplace market bid.owner outcomeId units with
    | .ok W => do
      let W ← settle D R W market outcomeId bidId askId makerId units price gross f
      .ok (.filled bidId askId units price, W)
    | .error _ => do
      let W ← release D R W bidId .unfillableReceiver
      .ok (.released bidId, W)

/-- One step of `_matchOrders`. -/
def matchStep (market : Address) (outcomeId groupUnits : Nat) : Except Err (Turn × World) :=
  let (bidId, askId) := W.book.heads market outcomeId groupUnits
  if bidId ≠ 0 ∧ W.stale bidId = true then do
    let W ← releaseStale D R W bidId
    .ok (.released bidId, W)
  else if askId ≠ 0 ∧ W.stale askId = true then do
    let W ← releaseStale D R W askId
    .ok (.released askId, W)
  else if bidId = 0 ∨ askId = 0 then .ok (.stopped, W)
  else
    let bid := W.book.orders bidId
    let ask := W.book.orders askId
    if bid.unitPrice < ask.unitPrice then .ok (.stopped, W)
    else if bid.owner = ask.owner then do
      let id := if askId < bidId then bidId else askId
      let W ← release D R W id .selfCross
      .ok (.released id, W)
    else matchPair D R W market outcomeId bidId askId

/-- The loop of `_matchOrders` with `steps` steps to go: the state after it and the number of fills. -/
def matchLoop (market : Address) (outcomeId groupUnits : Nat) : Nat → World → Nat → Except Err (World × Nat)
  | 0, W, fills => .ok (W, fills)
  | steps + 1, W, fills => do
    let (turn, W) ← matchStep D R W market outcomeId groupUnits
    match turn with
    | .stopped => .ok (W, fills)
    | .released _ => matchLoop market outcomeId groupUnits steps W fills
    | .filled .. => matchLoop market outcomeId groupUnits steps W (fills + 1)

/-- `_matchOrders` -/
def matchGroup (market : Address) (outcomeId groupUnits maxSteps : Nat) : Except Err (World × Nat) := do
  W.unpaused PAUSE_LISTING_FILL
  revertIf (maxSteps = 0 ∨ MAX_MATCH_STEPS < maxSteps) .InvalidOrder
  matchLoop D R market outcomeId groupUnits maxSteps W 0

def matchOrders (market : Address) (outcomeId maxSteps : Nat) : Except Err (World × Nat) :=
  matchGroup D R W market outcomeId 0 maxSteps

def matchOrdersForUnits (market : Address) (outcomeId units maxSteps : Nat) : Except Err (World × Nat) := do
  revertIf (units = 0) .InvalidOrder
  matchGroup D R W market outcomeId units maxSteps

/-! ## Exits -/

def cancelOrder (caller : Address) (id : Nat) : Except Err World := do
  revertIf ((W.book.orders id).owner ≠ caller) .NotOwner
  release D R W id .cancelled

def releaseOrder (id : Nat) : Except Err World := do
  revertIf (W.stale id = false) .InvalidOrder
  releaseStale D R W id

def withdrawOrderShares (caller : Address) (id : Nat) (recipient : Address) : Except Err World := do
  let o := W.book.orders id
  revertIf (o.owner ≠ caller) .NotOwner
  let units := W.book.pendingShares id
  revertIf (units = 0 ∨ recipient = 0 ∨ recipient = D.marketplace) .InvalidOrder
  let W := { W with book := { W.book with pendingShares := Function.update W.book.pendingShares id 0 } }
  let W ← safeTransferFrom D R W o.vault D.marketplace recipient o.outcomeId units none
  .ok (W.emit (.OrderSharesWithdrawn id o.owner recipient units))

end

/-! ## Runs -/

/-- The guarded functions of the orderbook, and `transferEscrowedShares`. -/
inductive BookCall
  | createOrder (market : Address) (outcomeId : Nat) (side : Side) (units unitPrice : Uint128) (expiresAt : Nat)
      (autoMatch : Bool)
  | fillOrder (id desiredUnits minUnits paymentLimit deadline : Nat)
  | matchOrders (market : Address) (outcomeId maxSteps : Nat)
  | matchOrdersForUnits (market : Address) (outcomeId units maxSteps : Nat)
  | cancelOrder (id : Nat)
  | releaseOrder (id : Nat)
  | withdrawOrderShares (id : Nat) (recipient : Address)
  | transferEscrowedShares (market recipient : Address) (outcomeId units : Nat)

/-- A call to the orderbook by an account, which is none of the contracts of the protocol. -/
def exec (D : Deployment) {q : Prop} (R : Receivers D q) (W : World) (caller : Address) (c : BookCall) :
    Except Err World := do
  revertIf (D.outside caller = false ∨ caller = D.marketplace) .NoSuchCaller
  match c with
  | .createOrder market outcomeId side units unitPrice expiresAt autoMatch =>
    createOrder D R W caller market outcomeId side units unitPrice expiresAt autoMatch
  | .fillOrder id desiredUnits minUnits paymentLimit deadline => do
    let (W, _, _) ← fillOrder D R W caller id desiredUnits minUnits paymentLimit deadline
    .ok W
  | .matchOrders market outcomeId maxSteps => do
    let (W, _) ← matchOrders D R W market outcomeId maxSteps
    .ok W
  | .matchOrdersForUnits market outcomeId units maxSteps => do
    let (W, _) ← matchOrdersForUnits D R W market outcomeId units maxSteps
    .ok W
  | .cancelOrder id => cancelOrder D R W caller id
  | .releaseOrder id => releaseOrder D R W id
  | .withdrawOrderShares id recipient => withdrawOrderShares D R W caller id recipient
  | .transferEscrowedShares market recipient outcomeId units =>
    transferEscrowedShares D R W caller market recipient outcomeId units

/-- A step: a call to the orderbook with some behaviour of the receivers, another call, or time passing. -/
inductive Step (D : Deployment) (q : Prop) : World → World → Prop
  | call (R : Receivers D q) (W W' : World) (caller : Address) (c : BookCall) :
    exec D R W caller c = .ok W' → Step D q W W'
  | outside (W W' : World) : Outside D q W W' → Step D q W W'
  | tick (W : World) (seconds : Nat) : Step D q W { W with core := { W.core with now := W.core.now + seconds } }

/-- The state after the activation of the factory and the deployment of the orderbook. -/
structure Genesis (D : Deployment) (q : Prop) (W : World) : Prop where
  core : Core.Genesis D W.core
  book : W.book = Book.deployed
  allowance : ∀ s, W.core.token.allowance D.marketplace s = 0
  cash : q → W.core.token.balanceOf D.marketplace = 0

/-- The states that runs reach. -/
def Reachable (D : Deployment) (q : Prop) : World → Prop := Reach.Reachable (Genesis D q) (Step D q)

end World

end Cpredict
