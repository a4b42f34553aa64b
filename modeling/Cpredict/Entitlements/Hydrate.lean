import Cpredict.Core.BondEscrow

/-!
# hydrateEntitlements

What the service displays as the rights of an account: candidates from the account's history, each brought up to date by
reads of the chain at one block. A read may fail, and a market is read once for all its candidates.

`OnchainRightsReader` is the reader of the service: its answers are functions of the state at the block it reads.
-/

namespace Cpredict

namespace Entitlements

open Core

/-! ## ledger-contracts.ts, entitlements.ts -/

inductive EntitlementKind
  | holding | escrow | winner | earlyBird | refund | timeoutBonus | bond | fees
deriving DecidableEq

inductive EntitlementStatus
  | conditional | claimable | executing | claimed | unknown
deriving DecidableEq

structure Entitlement where
  id : String
  market : Option Address
  kind : EntitlementKind
  outcomeId : Option Nat
  listingId : Option Bytes32
  units : Option Nat
  amount : Option Nat
  status : EntitlementStatus
  reason : Option String
deriving DecidableEq

structure MarketRights where
  state : Nat
  voidReason : Nat
  winningOutcome : Nat
  balances : List Nat
  winnerPool : Nat
  winningUnits : Nat
  earlyPool : Nat
  earlyScore : Nat
  ownerEarlyScore : Nat
  timeoutFunded : Bool
  timeoutPool : Nat
  timeoutTotalUnits : Nat
  ownerTimeoutUnits : Nat
deriving DecidableEq

structure ListingRights where
  units : Nat
  terminal : Bool
  active : Bool
  pending : Bool
deriving DecidableEq

structure BondRights where
  amount : Nat
  settled : Bool
  terminal : Bool
  returnable : Bool
deriving DecidableEq

/-- The answers of a reader, none where the read fails. The first argument tells the reads of a run apart: it counts the
candidates before the one that makes the read. -/
structure RightsReader where
  market : Nat → Address → Address → Option MarketRights
  listing : Nat → Bytes32 → Address → Option ListingRights
  bond : Nat → Address → Address → Option BondRights
  credit : Nat → EntitlementKind → Address → Option Nat

def shareOfPool (units total pool : Nat) : Option Nat :=
  if total = 0 ∨ total < units then none else if units = total then some pool else some (pool * units / total)

/-! ## One candidate -/

/-- The `catch` of the loop. -/
def Entitlement.failed (e : Entitlement) : Entitlement :=
  { e with status := .unknown, reason := some "chain_read_unavailable", amount := none }

def hydrateCredit (amount : Nat) (e : Entitlement) : Entitlement :=
  { e with amount := some amount, status := if 0 < amount then .claimable else .conditional }

def hydrateListing (listing : ListingRights) (e : Entitlement) : Entitlement :=
  { e with
    units := some listing.units
    status := if listing.units = 0 then .claimed else .claimable
    reason :=
      if listing.pending = true then some "withdraw_deferred_escrow"
      else if listing.terminal = true then some "return_terminal_listing"
      else some "cancel_listing_to_recover_shares" }

/-- `slashed` -/
def BondRights.slashed (bond : BondRights) : Bool := bond.terminal && !bond.returnable

def hydrateBond (bond : BondRights) (e : Entitlement) : Entitlement :=
  { e with
    amount := some (if bond.slashed = true then 0 else bond.amount)
    status :=
      if bond.settled = true then .claimed
      else if bond.terminal = true ∧ bond.slashed = false then .claimable
      else .conditional
    reason :=
      if bond.slashed = true then
        if bond.settled = true then some "bond_slashed_into_timeout_pool" else some
          "bond_slashed_pending_timeout_funding"
      else if bond.settled = true then some "settled_see_aggregate_credit_or_timeout_pool"
      else if bond.returnable = true then some "settle_and_claim_bond"
      else some "settle_bond_before_claiming_credit" }

/-- The amount and the status that every right on a market gets, but a holding. -/
def Entitlement.rated (e : Entitlement) (eligible : Bool) (amount : Option Nat) : Entitlement :=
  { e with
    amount := amount
    status := if amount = none then .unknown else if eligible = true then .claimable else .conditional }

/-- A right on a market, none for a row that is dropped. -/
def hydrateMarket (m : MarketRights) (e : Entitlement) : Option Entitlement :=
  match e.kind with
  | .holding =>
    some { e with
      units := some (m.balances.getD (e.outcomeId.getD 0) 0)
      status := .conditional
      reason :=
        if m.state = 1 ∧ e.outcomeId.getD 0 ≠ m.winningOutcome then some "losing_outcome_terminal" else none }
  | .winner =>
    let units := m.balances.getD m.winningOutcome 0
    let eligible := decide (m.state = 1 ∧ 0 < units)
    some ({ e with units := some units }.rated eligible
      (if eligible = true then shareOfPool units m.winningUnits m.winnerPool else some 0))
  | .refund =>
    let units := m.balances.sum
    let eligible := decide (m.state = 2 ∧ 0 < units)
    some ({ e with
      units := some units
      reason := if m.voidReason = 3 then some "principal_first_then_timeout_compensation" else none }.rated eligible
      (some (if eligible = true then units else 0)))
  | .earlyBird =>
    if m.state ≠ 1 then none
    else
      let eligible := decide (m.state = 1 ∧ 0 < m.ownerEarlyScore ∧ 0 < m.earlyPool)
      some (e.rated eligible (if eligible = true then shareOfPool m.ownerEarlyScore m.earlyScore
        m.earlyPool else some 0))
  | .timeoutBonus =>
    let held := m.balances.sum
    let units := if 0 < m.ownerTimeoutUnits then m.ownerTimeoutUnits else held
    if m.state ≠ 2 ∨ m.voidReason ≠ 3 then none
    else if units = 0 then none
    else
      let eligible := decide (m.timeoutFunded = true ∧ 0 < m.ownerTimeoutUnits)
      some ({ e with
        units := some units
        reason :=
          if m.ownerTimeoutUnits = 0 then
            if m.timeoutFunded = true then some "refund_before_timeout_compensation"
            else some "refund_and_funding_before_timeout_compensation"
          else if m.timeoutFunded = true then none
          else some "waiting_for_timeout_bond_funding" }.rated eligible
        (if m.timeoutFunded = true then shareOfPool units m.timeoutTotalUnits m.timeoutPool else some 0))
  | .escrow | .bond | .fees => some (e.rated false none)

/-! ## The loop -/

/-- `marketReads`: the reads of markets that have been made. -/
abbrev MarketReads := List (Address × Option MarketRights)

/-- `read`: the reads made so far with that of the market, and its answer. -/
def readMarket (owner : Address) (reader : RightsReader) (turn : Nat) (reads : MarketReads) (m : Address) :
    MarketReads × Option MarketRights :=
  match reads.lookup m with
  | some answer => (reads, answer)
  | none => ((m, reader.market turn m owner) :: reads, reader.market turn m owner)

/-- One turn of the loop: the row that it pushes, if any. -/
def hydrateOne (owner : Address) (reader : RightsReader) (turn : Nat) (reads : MarketReads) (candidate : Entitlement) :
    MarketReads × Option Entitlement :=
  if candidate.status = .claimed then (reads, some candidate)
  else
    let e := { candidate with reason := none }
    match e.kind, e.market, e.listingId with
    | .fees, none, _ | .bond, none, _ =>
      (reads, some ((reader.credit turn e.kind owner).elim e.failed fun amount => hydrateCredit amount e))
    | .escrow, _, some listingId =>
      (reads, some ((reader.listing turn listingId owner).elim e.failed fun listing => hydrateListing listing e))
    | .bond, some m, _ => (reads, some ((reader.bond turn m owner).elim e.failed fun bond => hydrateBond bond e))
    | _, some m, _ =>
      let (reads, answer) := readMarket owner reader turn reads m
      (reads, answer.elim (some e.failed) fun rights => hydrateMarket rights e)
    | _, none, _ => (reads, some e)

/-- What the turns of the loop push. -/
def hydrateRows (owner : Address) (reader : RightsReader) : Nat → MarketReads → List Entitlement →
    List (Option Entitlement)
  | _, _, [] => []
  | turn, reads, candidate :: rest =>
    let (reads, row) := hydrateOne owner reader turn reads candidate
    row :: hydrateRows owner reader (turn + 1) reads rest

def hydrateEntitlements (owner : Address) (candidates : List Entitlement) (reader : RightsReader) : List Entitlement :=
  (hydrateRows owner reader 0 [] candidates).reduceOption

/-! ## OnchainRightsReader -/

/-- The number of a state in the contract's enumeration. -/
def stateCode : MarketState → Nat
  | .open => 0
  | .resolved => 1
  | .voided => 2

/-- The number of a reason in the contract's enumeration. -/
def reasonCode : VoidReason → Nat
  | .none => 0
  | .creator => 1
  | .noWinningSupply => 2
  | .timeout => 3

/-- `publicMarketState` of a deployment of version time-v2, which throws where `assertMarketState` does. -/
def publicMarketState (state voidReason : Nat) : Option (Nat × Nat) :=
  if 2 < state ∨ (if state = 2 then voidReason < 1 ∨ 3 < voidReason else voidReason ≠ 0) then none
  else some (state, voidReason)

namespace OnchainRightsReader

def market (v : Vault) (owner : Address) : Option MarketRights := do
  if v.init.outcomeCount < 2 ∨ 32 < v.init.outcomeCount then none
  else
    let (state, voidReason) ← publicMarketState (stateCode v.marketState) (reasonCode v.voidReason)
    some {
      state := state
      voidReason := voidReason
      winningOutcome := v.winningOutcome
      balances := (List.range v.init.outcomeCount).map fun id => v.shares.balanceOf id owner
      winnerPool := v.remainingWinnerPool
      winningUnits := v.remainingWinningUnits
      earlyPool := v.remainingEarlyBirdPool
      earlyScore := v.remainingEarlyBirdScore
      ownerEarlyScore := v.earlyBirdScore owner
      timeoutFunded := v.timeoutBonusFunded
      timeoutPool := v.remainingTimeoutBonusPool
      timeoutTotalUnits := v.remainingTimeoutBonusUnits
      ownerTimeoutUnits := v.timeoutBonusUnits owner }

def bond (w : Core) (m owner : Address) : Option BondRights := do
  if (w.escrow.bondOf m).creator ≠ owner then none
  else
    let (state, voidReason) ← publicMarketState (stateCode (w.vaults m).marketState)
      (reasonCode (w.vaults m).voidReason)
    some {
      amount := (w.escrow.bondOf m).amount
      settled := (w.escrow.bondOf m).settled
      terminal := state != 0
      returnable := state != 0 && !(state == 2 && voidReason == 3 && decide (0 < (w.vaults m).totalPrincipal)) }

def credit (w : Core) (kind : EntitlementKind) (owner : Address) : Nat :=
  if kind = .fees then w.feeVault.credits.creditOf owner else w.escrow.credits.creditOf owner

/-- The reader at one block. What it answers about the orders of the marketplace is `listing`. -/
def reader (w : Core) (listing : Bytes32 → Address → Option ListingRights) : RightsReader where
  market := fun _ m owner => market (w.vaults m) owner
  listing := fun _ listingId owner => listing listingId owner
  bond := fun _ m owner => bond w m owner
  credit := fun _ kind owner => some (credit w kind owner)

end OnchainRightsReader

end Entitlements

end Cpredict
