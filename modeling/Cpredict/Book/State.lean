import Cpredict.Events
import Cpredict.Lib.IndexedHeap
import Cpredict.Lib.MulDiv
import Cpredict.Lib.Outcome

/-!
# OrderbookMarketplaceV2: storage and automatic books

The orders, the escrowed amounts and the three families of automatic books, with the functions that read and write
nothing else. The keys of the books are the tuples that the contract hashes, and `expectedReceipt` is the tuple whose
hash it stores; equal hashes are taken to be equal tuples.
-/

namespace Cpredict

open Outcome IndexedHeap MulDiv

def MAX_UNIT_PRICE : Nat := 1000000000

def MAX_MATCH_STEPS : Nat := 20

abbrev Uint128 := Fin (2 ^ 128)

instance neZero_uint128 : NeZero (2 ^ 128) := ⟨Nat.two_pow_pos 128 |>.ne'⟩

structure Order where
  vault : Address
  owner : Address
  remainingUnits : Nat
  unitPrice : Nat
  expiresAt : Nat
  outcomeId : Nat
  side : Side
  autoMatch : Bool
  active : Bool
  lockedPayment : Nat
deriving DecidableEq

namespace Order

/-- The slot of an id that no order has been given. -/
def blank : Order where
  vault := 0
  owner := 0
  remainingUnits := 0
  unitPrice := 0
  expiresAt := 0
  outcomeId := 0
  side := .bid
  autoMatch := false
  active := false
  lockedPayment := 0

/-- `_key` -/
def key (o : Order) : Address × Nat × Side := (o.vault, o.outcomeId, o.side)

/-- `_unitsKey` of an order and its remaining units. -/
def unitsKey (o : Order) : Address × Nat × Side × Nat := (o.vault, o.outcomeId, o.side, o.remainingUnits)

end Order

structure Fees where
  platform : Nat
  creator : Nat
deriving DecidableEq

/-- What `expectedReceipt` is the hash of. -/
structure Receipt where
  vault : Address
  source : Address
  id : Nat
  value : Nat
  orderId : Nat
deriving DecidableEq

structure Book where
  nextOrderId : Nat
  totalLockedPayment : Nat
  orders : Nat → Order
  pendingShares : Nat → Nat
  books : Address × Nat × Side → Slots Nat
  positions : Nat → Nat
  defaultAllowPartialFills : Bool
  orderAllowsPartialFills : Nat → Bool
  unitBooks : Address × Nat × Side × Nat → Slots Nat
  unitPositions : Nat → Nat
  partialBooks : Address × Nat × Side → Slots Nat
  partialPositions : Nat → Nat
  expectedReceipt : Option Receipt

/-- `_reserve` -/
def reserve (units price : Nat) : Nat := mulDivUp units price SHARE_SCALE

/-- What `units` cost at `price`. -/
def grossOf (units price : Nat) : Nat := mulDiv units price SHARE_SCALE

namespace Book

/-- The storage after the constructor. -/
def deployed : Book where
  nextOrderId := 1
  totalLockedPayment := 0
  orders := fun _ => .blank
  pendingShares := fun _ => 0
  books := fun _ => ⟨0, fun _ => 0⟩
  positions := fun _ => 0
  defaultAllowPartialFills := false
  orderAllowsPartialFills := fun _ => false
  unitBooks := fun _ => ⟨0, fun _ => 0⟩
  unitPositions := fun _ => 0
  partialBooks := fun _ => ⟨0, fun _ => 0⟩
  partialPositions := fun _ => 0
  expectedReceipt := none

def setOrder (b : Book) (id : Nat) (o : Order) : Book := { b with orders := Function.update b.orders id o }

/-! ## The heaps -/

/-- `_better`: the better price, then the smaller id. -/
def better (b : Book) (x y : Nat) : Bool :=
  if (b.orders x).unitPrice = (b.orders y).unitPrice then decide (x < y)
  else match (b.orders x).side with
    | .bid => decide ((b.orders y).unitPrice < (b.orders x).unitPrice)
    | .ask => decide ((b.orders x).unitPrice < (b.orders y).unitPrice)

/-- `_insertInto(books[_key(o)], positions, id)` -/
def insertBooks (b : Book) (id : Nat) : Book :=
  let k := (b.orders id).key
  let s := insertInto b.better ⟨b.books k, b.positions⟩ id
  { b with books := Function.update b.books k s.heap, positions := s.offset }

/-- `_insertInto(unitBooks[_unitsKey(..)], unitPositions, id)` -/
def insertUnitBooks (b : Book) (id : Nat) : Book :=
  let k := (b.orders id).unitsKey
  let s := insertInto b.better ⟨b.unitBooks k, b.unitPositions⟩ id
  { b with unitBooks := Function.update b.unitBooks k s.heap, unitPositions := s.offset }

/-- `_insertInto(partialBooks[_key(o)], partialPositions, id)` -/
def insertPartialBooks (b : Book) (id : Nat) : Book :=
  let k := (b.orders id).key
  let s := insertInto b.better ⟨b.partialBooks k, b.partialPositions⟩ id
  { b with partialBooks := Function.update b.partialBooks k s.heap, partialPositions := s.offset }

/-- `_insert` -/
def insert (b : Book) (id : Nat) : Book :=
  let b := (b.insertBooks id).insertUnitBooks id
  if b.orderAllowsPartialFills id = true then b.insertPartialBooks id else b

/-- `_removeFrom`, which panics where it would read an array past its end. -/
def takeFrom (b : Book) (s : Indexed Nat) (id : Nat) : Except Err (Indexed Nat) :=
  match removeFrom b.better s id with
  | some s => .ok s
  | none => .error .Panic

/-- `_removeFrom(books[_key(o)], positions, id)` -/
def removeBooks (b : Book) (id : Nat) : Except Err Book := do
  let k := (b.orders id).key
  let s ← b.takeFrom ⟨b.books k, b.positions⟩ id
  .ok { b with books := Function.update b.books k s.heap, positions := s.offset }

/-- `_removeFrom(unitBooks[_unitsKey(..)], unitPositions, id)` -/
def removeUnitBooks (b : Book) (id : Nat) : Except Err Book := do
  let k := (b.orders id).unitsKey
  let s ← b.takeFrom ⟨b.unitBooks k, b.unitPositions⟩ id
  .ok { b with unitBooks := Function.update b.unitBooks k s.heap, unitPositions := s.offset }

/-- `_removeFrom(partialBooks[_key(o)], partialPositions, id)` -/
def removePartialBooks (b : Book) (id : Nat) : Except Err Book := do
  let k := (b.orders id).key
  let s ← b.takeFrom ⟨b.partialBooks k, b.partialPositions⟩ id
  .ok { b with partialBooks := Function.update b.partialBooks k s.heap, partialPositions := s.offset }

/-- `_remove` -/
def remove (b : Book) (id : Nat) : Except Err Book := do
  let b ← b.removeBooks id
  let b ← b.removeUnitBooks id
  if b.orderAllowsPartialFills id = true then b.removePartialBooks id else .ok b

/-! ## The best orders -/

def first (heap : Slots Nat) : Nat := if heap.length = 0 then 0 else heap.slot 0

def bestOrder (b : Book) (vault : Address) (outcomeId : Nat) (side : Side) : Nat :=
  first (b.books (vault, outcomeId, side))

def bestOrderForUnits (b : Book) (vault : Address) (outcomeId : Nat) (side : Side) (units : Nat) : Nat :=
  first (b.unitBooks (vault, outcomeId, side, units))

def bestPartialOrder (b : Book) (vault : Address) (outcomeId : Nat) (side : Side) : Nat :=
  first (b.partialBooks (vault, outcomeId, side))

/-- The orders that one step of `_matchOrders` looks at. -/
def heads (b : Book) (vault : Address) (outcomeId groupUnits : Nat) : Nat × Nat :=
  let bidId := if groupUnits = 0 then b.bestPartialOrder vault outcomeId .bid
    else b.bestOrderForUnits vault outcomeId .bid groupUnits
  let askId := if groupUnits = 0 then b.bestPartialOrder vault outcomeId .ask
    else b.bestOrderForUnits vault outcomeId .ask groupUnits
  if groupUnits = 0 ∧ bidId ≠ 0 ∧ askId ≠ 0 ∧ (b.orders bidId).remainingUnits = (b.orders askId).remainingUnits then
    let equalUnits := (b.orders bidId).remainingUnits
    (b.bestOrderForUnits vault outcomeId .bid equalUnits, b.bestOrderForUnits vault outcomeId .ask equalUnits)
  else (bidId, askId)

/-! ## Locked payments -/

/-- `_spendBid` -/
def spendBid (b : Book) (id gross : Nat) : Except Err Book := do
  let locked ← checkedSub .Panic (b.orders id).lockedPayment gross
  let total ← checkedSub .Panic b.totalLockedPayment gross
  .ok { b.setOrder id { b.orders id with lockedPayment := locked } with totalLockedPayment := total }

/-- `o.remainingUnits -= uint128(units)` -/
def reduce (b : Book) (id units : Nat) : Except Err Book := do
  let remaining ← checkedSub .Panic (b.orders id).remainingUnits (units % 2 ^ 128)
  .ok (b.setOrder id { b.orders id with remainingUnits := remaining })

end Book

end Cpredict
