import Cpredict.Events
import Cpredict.Indexer.Store
import Cpredict.Lib.Keyset

/-!
# The order book of the indexer

`projectOrderbook` writes the events of the orderbook to the table `orderbook_events`, and `orderbookPage` folds
them into orders. The decoder of logs is a parameter; the rows have its results as arguments.
-/

namespace Cpredict

namespace BookEvent

/-- `orderId`, of the events that have such an argument. -/
def orderId : BookEvent → Option Nat
  | .DefaultAllowPartialFillsUpdated _ => none
  | .OrderFillPolicySnapshotted id _ => some id
  | .OrderCreated id .. => some id
  | .OrderReleased id .. => some id
  | .OrderFilled id .. => some id
  | .TradeExecuted id .. => some id
  | .OrdersMatched .. => none
  | .BidExcessReturned id .. => some id
  | .OrderSharesDeferred id .. => some id
  | .OrderSharesWithdrawn id .. => some id

/-- `event_name IN ('OrderFilled','OrderReleased')` -/
def isStatus : BookEvent → Bool
  | .OrderFilled .. => true
  | .OrderReleased .. => true
  | _ => false

/-- `args.allowPartialFills` of `OrderFillPolicySnapshotted`. -/
def snapshot : BookEvent → Option Bool
  | .OrderFillPolicySnapshotted _ allowed => some allowed
  | _ => none

end BookEvent

namespace Indexer

/-- A row of `orderbook_events`; the name of the event and its arguments are one value. -/
structure OrderbookRow where
  chainId : Nat
  blockNumber : Nat
  transactionHash : Bytes32
  transactionIndex : Nat
  logIndex : Nat
  marketplace : Address
  event : BookEvent
deriving DecidableEq

/-- `ORDER BY block_number, transaction_index, log_index` -/
def OrderbookRow.position (r : OrderbookRow) : Nat ×ₗ Nat ×ₗ Nat :=
  toLex (r.blockNumber, toLex (r.transactionIndex, r.logIndex))

/-- The primary key. -/
def OrderbookRow.key (r : OrderbookRow) : Nat × Bytes32 × Nat := (r.chainId, r.transactionHash, r.logIndex)

section

variable (decodeEventLog : IndexedEvent → Option BookEvent) (marketplace : Address)

/-- The row that is inserted for an event. -/
def orderbookRow (e : IndexedEvent) : Option OrderbookRow :=
  if e.address ≠ marketplace then none
  else (decodeEventLog e).map fun log =>
    ⟨e.chainId, e.blockNumber, e.transactionHash, e.transactionIndex, e.logIndex, marketplace, log⟩

/-- `INSERT … ON CONFLICT DO NOTHING` -/
def insertRow (rows : List OrderbookRow) (r : OrderbookRow) : List OrderbookRow :=
  if ∃ x ∈ rows, x.key = r.key then rows else rows ++ [r]

def projectOrderbook (rows : List OrderbookRow) : List IndexedEvent → List OrderbookRow
  | [] => rows
  | e :: rest =>
    match orderbookRow decodeEventLog marketplace e with
    | none => projectOrderbook rows rest
    | some r => projectOrderbook (insertRow rows r) rest

end

/-! ## orderbookPage -/

/-- The arguments of `OrderCreated`. -/
structure Created where
  orderId : Nat
  vault : Address
  owner : Address
  outcomeId : Nat
  side : Side
  units : Nat
  unitPrice : Nat
  expiresAt : Nat
  autoMatch : Bool
  lockedPayment : Nat
deriving DecidableEq

def createdArgs : BookEvent → Option Created
  | .OrderCreated id vault owner outcomeId side units unitPrice expiresAt autoMatch lockedPayment =>
    some ⟨id, vault, owner, outcomeId, side, units, unitPrice, expiresAt, autoMatch, lockedPayment⟩
  | _ => none

/-- A row of `projected`. -/
structure Projected where
  created : Created
  /-- The last `OrderFilled` or `OrderReleased`. -/
  last : Option BookEvent
  policy : Option Bool
deriving DecidableEq

/-- An item of the page. -/
structure OrderItem where
  id : Nat
  market : Address
  owner : Address
  outcomeId : Nat
  side : Side
  unitPrice : Nat
  expiresAt : Nat
  autoMatch : Bool
  allowPartialFills : Option Bool
  remainingUnits : Nat
  lockedPayment : Nat
  active : Bool
deriving DecidableEq

structure OrderbookPage where
  items : List OrderItem
  totalLockedPayment : Nat
  nextCursor : Option Nat
deriving DecidableEq

namespace Projected

def isReleased (p : Projected) : Bool :=
  match p.last with
  | some (.OrderReleased ..) => true
  | _ => false

/-- `latest.remainingUnits ?? created.units` -/
def latestUnits (p : Projected) : Nat :=
  match p.last with
  | some (.OrderFilled _ _ _ _ _ _ _ _ remainingUnits _) => remainingUnits
  | _ => p.created.units

/-- `latest.lockedPayment ?? created.lockedPayment` -/
def latestPayment (p : Projected) : Nat :=
  match p.last with
  | some (.OrderFilled _ _ _ _ _ _ _ _ _ lockedPayment) => lockedPayment
  | _ => p.created.lockedPayment

def lockedPayment (p : Projected) : Nat := if p.isReleased = true then 0 else p.latestPayment

def item (p : Projected) : OrderItem where
  id := p.created.orderId
  market := p.created.vault
  owner := p.created.owner
  outcomeId := p.created.outcomeId
  side := p.created.side
  unitPrice := p.created.unitPrice
  expiresAt := p.created.expiresAt
  autoMatch := p.created.autoMatch
  allowPartialFills := p.policy
  remainingUnits := if p.isReleased = true then 0 else p.latestUnits
  lockedPayment := p.lockedPayment
  active := !p.isReleased && decide (p.latestUnits ≠ 0)

end Projected

section

variable (rows : List OrderbookRow) (chainId : Nat) (marketplace : Address)

/-- The rows of a marketplace about an order. -/
def rowsOf (id : Nat) : List OrderbookRow :=
  rows.filter fun s => s.chainId = chainId && s.marketplace = marketplace && s.event.orderId = some id

/-- The subquery `s`. -/
def lastStatus (id : Nat) : Option BookEvent :=
  ((Keyset.sorted OrderbookRow.position ((rowsOf rows chainId marketplace id).filter fun s =>
    s.event.isStatus)).getLast?).map
    OrderbookRow.event

/-- The subquery `p`. -/
def fillPolicy (id : Nat) : Option Bool := (rowsOf rows chainId marketplace id).findSome? fun p => p.event.snapshot

variable (market owner : Option Address)

/-- The filters of the query: a market or an owner that is not given selects everything. -/
def picks (vault creator : Address) : Bool :=
  market.all (fun m => decide (vault = m)) && owner.all fun a => decide (creator = a)

/-- What the query selects of a row. -/
def project (c : OrderbookRow) : Option Projected :=
  if c.chainId = chainId ∧ c.marketplace = marketplace then
    match createdArgs c.event with
    | some args =>
      if picks market owner args.vault args.owner = true then
        some ⟨args, lastStatus rows chainId marketplace args.orderId, fillPolicy rows chainId marketplace args.orderId⟩
      else none
    | none => none
  else none

def projected : List Projected := rows.filterMap (project rows chainId marketplace market owner)

def pageSize : Nat := 50

def orderbookPage (cursor : Nat) : OrderbookPage :=
  let all := projected rows chainId marketplace market owner
  let selected := (Keyset.after (fun p => p.created.orderId) all cursor).take (pageSize + 1)
  let items := (selected.take pageSize).map Projected.item
  { items
    totalLockedPayment := if selected.isEmpty = true then 0 else (all.map Projected.lockedPayment).sum
    nextCursor := if pageSize < selected.length then items.getLast?.map OrderItem.id else none }

/-- The pages of a listing from a cursor on, until there is no next one. -/
abbrev Listing : Nat → List (List OrderItem) → Prop :=
  Keyset.Pages fun cursor =>
    ((orderbookPage rows chainId marketplace market owner cursor).items,
      (orderbookPage rows chainId marketplace market owner cursor).nextCursor)

end

end Indexer

end Cpredict
