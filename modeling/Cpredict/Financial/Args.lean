import Cpredict.Indexer.Scan
import Cpredict.Lib.OrderedMap

/-!
# The arguments of events

The arguments of a decoded log, by their names, and how the normalizer reads them: `addr`, `amount` and `hex` throw
when the argument is missing or of another type.
-/

namespace Cpredict.Financial

open Outcome Indexer

/-- What the normalizer throws, by its message, and what the decoder throws. -/
inductive FinancialErr
  | undecodableLog
  | missingAddress
  | invalidAddress
  | missingInteger
  | missingBytes32
  | invalidBatchEvent
  | noCanonicalTimestamp
  | orderFundsWithoutCreation
  | orderReleaseWithoutCreation
  | orderDeferredWithoutCreation
  | orderWithdrawalWithoutAsk
  | unknownListing
  | invalidLegacyState
  | invalidFact
deriving DecidableEq

/-- A share of an outcome that an event has used. -/
structure Used where
  outcomeId : Nat
  units : Nat
deriving DecidableEq

/-- The values that arguments have: a wide integer is a `bigint`, a narrow one a `number`, and a persisted one a
`decimal`. -/
inductive ArgValue
  | address (a : Address)
  | bytes32 (h : Bytes32)
  | bigint (n : Nat)
  | number (n : Nat)
  | decimal (n : Int)
  | text (s : String)
  | bool (b : Bool)
  | bigints (ns : List Nat)
  | decimals (ns : List Nat)
  | used (parts : List Used)
deriving DecidableEq

/-- `jsonSafe` of a value. -/
def ArgValue.jsonSafe : ArgValue → ArgValue
  | .bigint n => .decimal n
  | .bigints ns => .decimals ns
  | v => v

/-- `Number(v) === n` -/
def ArgValue.numberIs (n : Nat) : ArgValue → Bool
  | .bigint m => m = n
  | .number m => m = n
  | .decimal m => m = n
  | .bool b => (if b then 1 else 0) = n
  | _ => false

abbrev Args := OrderedMap String ArgValue

namespace Args

variable (a : Args) (k : String)

def addr : Except FinancialErr Address :=
  match a.get k with
  | some (.address x) => .ok x
  | some (.bytes32 _) | some (.decimal _) | some (.text _) => .error .invalidAddress
  | _ => .error .missingAddress

/-- The zero address is null. -/
def nullableAddr : Except FinancialErr (Option Address) := do
  let x ← a.addr k
  .ok (if x = 0 then none else some x)

/-- The amount of a value, if it has one. -/
def amountOf : Option ArgValue → Except FinancialErr Nat
  | some (.bigint n) => .ok n
  | some (.number n) => .ok n
  | some (.decimal (.ofNat n)) => .ok n
  | _ => .error .missingInteger

def amount : Except FinancialErr Nat := amountOf (a.get k)

def hex : Except FinancialErr Bytes32 :=
  match a.get k with
  | some (.bytes32 h) => .ok h
  | _ => .error .missingBytes32

/-- `Number(args.k) === n` -/
def numberIs (n : Nat) : Bool := (a.get k).any (ArgValue.numberIs n)

/-- `{ ...args, ...more }` -/
def spread (more : List (String × ArgValue)) : Args := more.foldl (fun a x => a.set x.1 x.2) a

def jsonSafe : Args := ⟨OrderedMap.entries a |>.map fun x => (x.1, x.2.jsonSafe)⟩

def of (fields : List (String × ArgValue)) : Args := spread .empty fields

end Args

/-- The names of the events that are told apart; the others of the table change nothing. -/
inductive EventName
  | MarketCreated | ListingCreated | ListingFilled | ListingCancelled | TerminalListingReturned
  | OrderCreated | BidExcessReturned | OrderReleased | OrderSharesDeferred | OrderSharesWithdrawn | TradeExecuted
  | FeeAccrued | FeeClaimed | BondLocked | BondCredited | BondFundedToTimeoutMarket | BondClaimed
  | Transfer | UserOperationEvent | TransferSingle | TransferBatch
  | MarketInitialized | MarketMetadataUpdated | EconomicSnapshotCreated | PrimaryPurchased | MarketResolved
  | MarketVoided | WinnerClaimed | PrincipalRefunded | LosingPositionBurned | EarlyBirdClaimed
  | TimeoutBonusClaimed | TimeoutBonusFunded | FinalRemainderAssigned | other
deriving DecidableEq

structure Decoded where
  event : IndexedEvent
  name : EventName
  args : Args
deriving DecidableEq

end Cpredict.Financial
