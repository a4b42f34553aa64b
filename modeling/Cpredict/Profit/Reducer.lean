import Cpredict.Types
import Cpredict.Lib.Table
import Mathlib.Data.List.Sort
import Mathlib.Data.Finset.Basic

/-!
# computePnl

The reducer of profit and loss of an account, over the facts of the ledger. The facts are sorted in the order of the
chain and those with an identity that was seen before are skipped. What a fact does to the lots and bonds of the
account does not depend on the options: the options decide which of the notes that it takes (`missing`, `record`)
get into the report.
-/

namespace Cpredict

namespace Profit

inductive FactKind
  | marketCreated | marketInitialized | marketMetadata | economicSnapshot | primaryBuy | orderCreated
  | orderReleased | orderSharesDeferred | orderFundsReturned | listingCreated | listingFilled
  | listingCancelled | listingReturned | marketResolved | marketVoided | winnerClaimed | earlyBirdClaimed
  | refunded | timeoutFunded | timeoutClaimed | losingBurned | remainderAssigned | shareTransfer
  | paymentTransfer | bondLocked | bondCredited | bondTimeoutFunded | bondClaimed | feeAccrued | feeClaimed
  | userOperation | coverageGap
deriving DecidableEq

/-- What `feeCategory` says of `extra.feeKind`. -/
inductive FeeCategory
  | creator
  | protocol
  | unknown
deriving DecidableEq

/-- A part of `extra.consumed`, as `integer` reads its two fields. What is not an object has neither. -/
structure Part where
  outcomeId : Option Nat
  units : Option Nat
deriving DecidableEq

/-- What the reducer reads of `extra`: `reason` if it is a string, `sellerProceeds` if it is an integer, whether
`escrowed` is not `false`, and `consumed` if it is an array. -/
structure Extra where
  reason : Option String
  sellerProceeds : Option Nat
  escrowed : Bool
  consumed : Option (List Part)
  feeKind : FeeCategory
deriving DecidableEq

structure LedgerFact where
  id : String
  kind : FactKind
  blockNumber : Nat
  transactionIndex : Nat
  logIndex : Nat
  factIndex : Nat
  timestamp : Nat
  market : Option Address
  owner : Option Address
  counterparty : Option Address
  outcomeId : Option Nat
  units : Option Nat
  amount : Option Nat
  extra : Extra
deriving DecidableEq

/-- Where a fact stands on the chain. -/
def LedgerFact.position (f : LedgerFact) : List Nat := [f.blockNumber, f.transactionIndex, f.logIndex, f.factIndex]

/-- The comparator of the sort: the first difference of the positions. -/
def financialOrder (a b : LedgerFact) : Int :=
  if a.blockNumber < b.blockNumber then -1
  else if b.blockNumber < a.blockNumber then 1
  else if (a.transactionIndex : Int) - b.transactionIndex ≠ 0 then (a.transactionIndex : Int) - b.transactionIndex
  else if (a.logIndex : Int) - b.logIndex ≠ 0 then (a.logIndex : Int) - b.logIndex
  else (a.factIndex : Int) - b.factIndex

def sortFacts (facts : List LedgerFact) : List LedgerFact := facts.insertionSort fun a b => financialOrder a b ≤ 0

/-- The window is `since` (`from`) up to `before` (`to`). -/
structure PnlOptions where
  coverageComplete : Bool
  since : Option Nat
  before : Option Nat
  markets : Option (Finset Address)

/-! ## Lots -/

structure LotKey where
  market : Address
  outcomeId : Nat
deriving DecidableEq

structure Lot where
  key : LotKey
  units : Nat
  escrow : Nat
  cost : Int
  complete : Bool
  lossSettled : Bool
deriving DecidableEq

def Lot.fresh (k : LotKey) : Lot := ⟨k, 0, 0, 0, true, false⟩

structure Disposal where
  cost : Int
  complete : Bool
  reason : Option String
deriving DecidableEq

namespace Lot

/-- Whether a disposal is covered by the units that it may take: those in escrow, or those that are not. -/
def sufficient (lot : Lot) (units : Nat) (escrow : Bool) : Bool :=
  decide (units ≤ lot.units ∧ (units : Int) ≤ if escrow then (lot.escrow : Int) else (lot.units : Int) - lot.escrow)

/-- The cost of the units that go: all of it with the last unit, else their share of it. -/
def share (lot : Lot) (available : Nat) : Int :=
  if lot.units = 0 then 0 else if available = lot.units then lot.cost else (lot.cost * available).tdiv lot.units

/-- What `dispose` reports. -/
def disposal (lot : Lot) (units : Nat) (escrow : Bool) : Disposal :=
  let complete := lot.sufficient units escrow && lot.complete
  ⟨lot.share (min units lot.units), complete,
    if complete then none else if lot.sufficient units escrow then some "unknown_acquisition_cost" else some
      "share_balance_gap"⟩

/-- What `dispose` leaves of the lot. -/
def dispose (lot : Lot) (units : Nat) (escrow : Bool) : Lot :=
  let available := min units lot.units
  let remaining := lot.units - available
  let locked := if escrow then lot.escrow - available else lot.escrow
  { lot with
    units := remaining
    cost := lot.cost - lot.share available
    escrow := min locked remaining
    complete := if remaining = 0 then true else lot.complete
    lossSettled := if remaining = 0 then false else lot.lossSettled }

/-- `acquire` before a loss is settled. -/
def acquire (lot : Lot) (units : Nat) (cost : Option Int) : Lot :=
  { lot with units := lot.units + units, cost := lot.cost + cost.getD 0, complete := lot.complete &&
    cost.isSome, lossSettled := false }

/-- The loss of a lot of an outcome that has lost. -/
def loss (lot : Lot) :
    Disposal := ⟨lot.cost, lot.complete, if lot.complete then none else some "unknown_acquisition_cost"⟩

def settle (lot : Lot) : Lot := { lot with cost := 0, lossSettled := true }

def lock (lot : Lot) (units : Nat) : Lot :=
  { lot with escrow := lot.escrow + units, complete := lot.complete && decide (lot.escrow + units ≤ lot.units) }

def unlock (lot : Lot) (units : Nat) : Lot :=
  { lot with escrow := lot.escrow - units, complete := lot.complete && decide (units ≤ lot.escrow) }

end Lot

/-! ## What a fact does -/

structure Bond where
  amount : Nat
  settled : Bool
deriving DecidableEq

/-- What the reducer knows of the account, whatever its options are. -/
structure Holdings where
  lots : List Lot
  bonds : Address → Option Bond
  resolved : Address → Option Nat
  bondLocked : Int
  bondCredited : Nat
  bondClaimed : Nat
  bondSlashed : Nat

/-- A call of `missing` or of `record`, for the fact at hand. -/
inductive Note
  | missing (reason : String)
  | record (proceeds : Nat) (disposal : Disposal) (outcomeId : Option Nat)
deriving DecidableEq

namespace Holdings

def empty : Holdings := ⟨[], fun _ => none, fun _ => none, 0, 0, 0, 0⟩

/-- `getLot`: a lot that is new is put after the others. -/
def «open» (h : Holdings) (k : LotKey) : Holdings := { h with lots := Table.insertNew Lot.key (Lot.fresh k) h.lots }

def getLot (h : Holdings) (k : LotKey) : Lot := (Table.find Lot.key k h.lots).getD (Lot.fresh k)

def change (h : Holdings) (k : LotKey) (g : Lot → Lot) : Holdings := { h with lots := Table.update Lot.key k g h.lots }

def dispose (k : LotKey) (units : Nat) (escrow : Bool) (h : Holdings) : Disposal × Holdings × List Note :=
  let lot := h.getLot k
  (lot.disposal units escrow, h.change k fun lot => lot.dispose units escrow,
    if lot.sufficient units escrow then [] else [.missing "share_balance_gap"])

/-- A lot of an outcome that has lost is written off. -/
def writeOff (k : LotKey) (h : Holdings) : Holdings × List Note :=
  (h.change k Lot.settle, [.record 0 (h.getLot k).loss (some k.outcomeId)])

def acquire (k : LotKey) (units : Nat) (cost : Option Int) (h : Holdings) : Holdings × List Note :=
  let h := h.change k fun lot => lot.acquire units cost
  match h.resolved k.market with
  | some winner => if winner ≠ k.outcomeId then h.writeOff k else (h, [])
  | none => (h, [])

section

variable (owner : Address) (f : LedgerFact)

def mine : Bool := decide (f.owner = some owner)

def other : Bool := decide (f.counterparty = some owner)

def onListingCreated (k : LotKey) (units : Nat) (h : Holdings) : Holdings × List Note :=
  let lot := h.getLot k
  (h.change k fun lot => lot.lock units, if lot.units < lot.escrow + units then [.missing "escrow_balance_gap"] else [])

def onListingClosed (k : LotKey) (units : Nat) (h : Holdings) : Holdings × List Note :=
  let lot := h.getLot k
  (h.change k fun lot => lot.unlock units, if lot.escrow < units then [.missing "escrow_balance_gap"] else [])

/-- A fill by the account of its own listing: only the fees leave it. -/
def onSelfFill (k : LotKey) (units value : Nat) (h : Holdings) : Holdings × List Note :=
  let lot := h.getLot k
  let proceeds := f.extra.sellerProceeds
  (h.change k fun lot => { lot with escrow := lot.escrow - units },
    (if lot.escrow < units then [.missing "escrow_balance_gap"] else []) ++
      [.record (proceeds.getD 0) ⟨value, proceeds.isSome, if proceeds.isSome then none else some "seller_net_missing"⟩
        f.outcomeId])

/-- The account sells. -/
def onSale (k : LotKey) (units : Nat) (h : Holdings) : Holdings × List Note :=
  let (d, h, notes) := h.dispose k units f.extra.escrowed
  let proceeds := f.extra.sellerProceeds
  (h, notes ++ [.record (proceeds.getD 0)
    ⟨d.cost, d.complete && proceeds.isSome, if proceeds.isSome then d.reason else some "seller_net_missing"⟩
      f.outcomeId])

def onListingFilled (k : LotKey) (units value : Nat) (h : Holdings) : Holdings × List Note :=
  if mine owner f && other owner f then onSelfFill f k units value h
  else
    let (h, sold) := if other owner f then onSale f k units h else (h, [])
    let (h, bought) := if mine owner f then h.acquire k units (some value) else (h, [])
    (h, sold ++ bought)

/-- A transfer moves the cost with the shares; it is no loss of a trade. -/
def onShareTransfer (k : LotKey) (units : Nat) (h : Holdings) : Holdings × List Note :=
  if mine owner f && other owner f then (h, [])
  else
    let (h, given) := if mine owner f then
        let (_, h, notes) := h.dispose k units false
        (h, notes)
      else (h, [])
    let (h, taken) := if other owner f then h.acquire k units none else (h, [])
    (h, given ++ taken)

/-- The lots of the losing outcomes are written off, each that is held and has not been before. -/
def onMarketResolved (market : Address) (outcomeId : Nat) (h : Holdings) : Holdings × List Note :=
  let h := { h with resolved := Function.update h.resolved market (some outcomeId) }
  (h.lots.map Lot.key).foldl (fun (acc : Holdings × List Note) k =>
    let holding := acc.1.getLot k
    if k.market = market ∧ k.outcomeId ≠ outcomeId ∧ 0 < holding.units ∧ holding.lossSettled = false then
      let (h, notes) := acc.1.writeOff k
      (h, acc.2 ++ notes)
    else acc) (h, [])

/-- What the loop over the consumed parts collects. -/
structure Burn where
  cost : Int
  burned : Nat
  complete : Bool
  reason : Option String
  holdings : Holdings
  notes : List Note

def Burn.part (market : Address) (b : Burn) (p : Part) : Burn :=
  match p.outcomeId, p.units with
  | some outcome, some quantity =>
    let k : LotKey := ⟨market, outcome⟩
    let (d, h, notes) := (b.holdings.open k).dispose k quantity false
    ⟨b.cost + d.cost, b.burned + quantity, b.complete && d.complete, b.reason <|> d.reason, h, b.notes ++ notes⟩
  | _, _ => { b with complete := false }

def consumed : List Part :=
  match f.extra.consumed with
  | some parts => parts
  | none => if f.outcomeId.isSome then [⟨f.outcomeId, f.units⟩] else []

/-- Shares are burned for a payout, a refund, or for nothing after a loss that was taken before. -/
def onBurn (market : Address) (units value : Nat) (h : Holdings) : Holdings × List Note :=
  let b := (consumed f).foldl (Burn.part market) ⟨0, 0, true, none, h, []⟩
  let d : Disposal := if b.burned ≠ units then ⟨b.cost, false, some "burn_movement_missing"⟩ else ⟨b.cost,
    b.complete, b.reason⟩
  (b.holdings, b.notes ++
    if f.kind ≠ .losingBurned then [.record value d f.outcomeId]
    else if 0 < d.cost ∨ d.complete = false then [.missing "terminal_loss_history_missing"] else [])

def onBondLocked (market : Address) (value : Nat) (h : Holdings) : Holdings :=
  { h with bonds := Function.update h.bonds market (some ⟨value, false⟩), bondLocked := h.bondLocked + value }

/-- The bond of the market is settled, if there is one. -/
def settleBond (market : Address) (h : Holdings) : Holdings :=
  match h.bonds market with
  | some bond => { h with
      bonds := Function.update h.bonds market (some { bond with settled := true })
      bondLocked := h.bondLocked - bond.amount }
  | none => h

def onBondCredited (market : Address) (value : Nat) (h : Holdings) : Holdings :=
  if (h.bonds market).any Bond.settled then h else settleBond market { h with bondCredited := h.bondCredited + value }

def onBondTimeoutFunded (market : Address) (value : Nat) (h : Holdings) : Holdings :=
  if (h.bonds market).any fun bond => !bond.settled then settleBond market
    { h with bondSlashed := h.bondSlashed + value } else h

/-- The lot of a fact that names a market and an outcome. -/
def lotKey : Option LotKey := (f.market.bind fun market => f.outcomeId.map fun outcomeId => ⟨market, outcomeId⟩)

/-- A handler that needs the lot of the fact. -/
def withLot (g : LotKey → Holdings → Holdings × List Note) (h : Holdings) : Holdings × List Note :=
  match lotKey f with
  | some k => g k h
  | none => (h, [])

/-- A handler that needs the market of the fact. -/
def withMarket (g : Address → Holdings → Holdings × List Note) (h : Holdings) : Holdings × List Note :=
  match f.market with
  | some market => g market h
  | none => (h, [])

/-- A handler for the facts of the owner. -/
def whenMine (g : Holdings → Holdings × List Note) (h : Holdings) : Holdings × List Note :=
  if mine owner f then g h else (h, [])

/-- The body of the loop. -/
def step (h : Holdings) : Holdings × List Note :=
  let value := f.amount.getD 0
  let units := f.units.getD 0
  let h := (lotKey f).elim h h.open
  match f.kind with
  | .coverageGap => (h, if mine owner f || other owner f then [.missing (f.extra.reason.getD "event_gap")] else [])
  | .primaryBuy => whenMine owner f (withLot f fun k => acquire k units (some value)) h
  | .listingCreated => whenMine owner f (withLot f fun k => onListingCreated k units) h
  | .listingCancelled | .listingReturned => whenMine owner f (withLot f fun k => onListingClosed k units) h
  | .listingFilled => withLot f (fun k => onListingFilled owner f k units value) h
  | .shareTransfer => withLot f (fun k => onShareTransfer owner f k units) h
  | .marketResolved => withLot f (fun k => onMarketResolved k.market k.outcomeId) h
  | .winnerClaimed | .refunded | .losingBurned =>
      whenMine owner f (withMarket f fun market => onBurn f market units value) h
  | .earlyBirdClaimed | .timeoutClaimed => (h, if mine owner f then [.record value ⟨0, true, none⟩ f.outcomeId] else [])
  | .bondLocked => whenMine owner f (withMarket f fun market h => (onBondLocked market value h, [])) h
  | .bondCredited => whenMine owner f (withMarket f fun market h => (onBondCredited market value h, [])) h
  | .bondTimeoutFunded => withMarket f (fun market h => (onBondTimeoutFunded market value h, [])) h
  | .bondClaimed => whenMine owner f (fun h => ({ h with bondClaimed := h.bondClaimed + value }, [])) h
  | _ => (h, [])

end

end Holdings

/-! ## What is reported of it -/

structure PnlEntry where
  factId : String
  market : Address
  outcomeId : Option Nat
  kind : FactKind
  timestamp : Nat
  amount : Option Int
  proceeds : Nat
  allocatedCost : Int
  complete : Bool
  reason : Option String
deriving DecidableEq

structure Report where
  reasons : List String
  entries : List PnlEntry
  creatorIncome : Nat
  creatorClaimed : Nat
  paymentIn : Nat
  paymentOut : Nat
  gasCost : Nat

section

variable (names : Address → String) (o : PnlOptions) (owner : Address) (f : LedgerFact)

def relevantMarket : Bool := o.markets.all fun markets => f.market.any fun market => decide (market ∈ markets)

/-- The filter by time and market. -/
def included : Bool :=
  o.since.all (fun t => decide (t ≤ f.timestamp)) && o.before.all (fun t => decide (f.timestamp < t)) &&
    relevantMarket o f

/-- The text of a reason: the market by its name. -/
def reasonText (reason : String) (market : Option Address) : String := reason ++ ":" ++ market.elim "account" names

/-- A set keeps its elements in the order in which they were added. -/
def addReason (text : String) (r : Report) :
    Report := if text ∈ r.reasons then r else { r with reasons := r.reasons ++ [text] }

def missing (reason : String) (r : Report) : Report :=
  if relevantMarket o f then addReason (reasonText names reason f.market) r else r

/-- The entry of a record. -/
def entry (market : Address) (proceeds : Nat) (d : Disposal) (outcomeId : Option Nat) : PnlEntry :=
  ⟨f.id, market, outcomeId, f.kind, f.timestamp, if d.complete then some (proceeds - d.cost) else none, proceeds,
    d.cost, d.complete,
    d.reason⟩

def record (proceeds : Nat) (d : Disposal) (outcomeId : Option Nat) (r : Report) : Report :=
  match f.market with
  | none => r
  | some market =>
    if included o f = false then r
    else
      let r := if d.complete then r else missing names o f (d.reason.getD "unknown_cost") r
      { r with entries := r.entries ++ [entry f market proceeds d outcomeId] }

def take (r : Report) : Note → Report
  | .missing reason => missing names o f reason r
  | .record proceeds d outcomeId => record names o f proceeds d outcomeId r

/-- The sums that do not depend on what the account holds. -/
def flows (r : Report) : Report :=
  let value := f.amount.getD 0
  let mine := Holdings.mine owner f
  let other := Holdings.other owner f
  if included o f = false then r
  else match f.kind with
    | .feeAccrued => if mine && decide (f.extra.feeKind = .creator) then { r with creatorIncome :=
        r.creatorIncome + value } else r
    | .feeClaimed => if mine then { r with creatorClaimed := r.creatorClaimed + value } else r
    | .paymentTransfer =>
      let r := if mine && !other then { r with paymentOut := r.paymentOut + value } else r
      if other && !mine then { r with paymentIn := r.paymentIn + value } else r
    | .userOperation => if mine then { r with gasCost := r.gasCost + value } else r
    | _ => r

end

structure State where
  seen : List String
  holdings : Holdings
  report : Report

def State.initial (o : PnlOptions) : State :=
  ⟨[], .empty, ⟨if o.coverageComplete then [] else ["history_coverage_incomplete"], [], 0, 0, 0, 0, 0⟩⟩

section

variable (names : Address → String) (o : PnlOptions) (owner : Address)

/-- A fact that is neither seen before nor after the end of the window. -/
def State.apply (st : State) (f : LedgerFact) : State :=
  let after := st.holdings.step owner f
  { st with holdings := after.1, report := flows o owner f (after.2.foldl (take names o f) st.report) }

def State.advance (st : State) (f : LedgerFact) : State :=
  if f.id ∈ st.seen then st
  else
    let st := { st with seen := f.id :: st.seen }
    if o.before.any fun t => decide (t ≤ f.timestamp) then st else st.apply names o owner f

structure PnlLot where
  market : Address
  outcomeId : Nat
  units : Nat
  escrowUnits : Nat
  knownCost : Int
  costComplete : Bool
deriving DecidableEq

structure Pnl where
  owner : Address
  realizedNet : Option Int
  knownRealizedNet : Int
  complete : Bool
  missingReasons : List String
  lots : List PnlLot
  entries : List PnlEntry
  creatorIncome : Nat
  creatorClaimed : Nat
  bondLocked : Int
  bondCredited : Nat
  bondClaimed : Nat
  bondSlashed : Nat
  paymentIn : Nat
  paymentOut : Nat
  gasCost : Nat
deriving DecidableEq

def selectedLots (st : State) : List Lot := st.holdings.lots.filter fun l => o.markets.all fun markets =>
    decide (l.key.market ∈ markets)

/-- The reasons after the loop: a lot that is held at an unknown cost is one. -/
def finalReasons (st : State) : List String :=
  (selectedLots o st).foldl (fun reasons l =>
    if 0 < l.units ∧ l.complete = false then
      let text := reasonText names "unknown_acquisition_cost" (some l.key.market)
      if text ∈ reasons then reasons else reasons ++ [text]
    else reasons) st.report.reasons

def netOf (entries : List PnlEntry) : Int := (entries.map fun e => e.amount.getD 0).sum

/-- The totals of `computePnl`. -/
def State.finish (st : State) : Pnl :=
  let reasons := finalReasons names o st
  let complete := reasons.isEmpty
  { owner
    realizedNet := if complete then some (netOf st.report.entries) else none
    knownRealizedNet := netOf st.report.entries
    complete
    missingReasons := reasons.insertionSort fun a b => a ≤ b
    lots := ((selectedLots o st).filter fun l => decide (0 < l.units)).map fun l =>
      ⟨l.key.market, l.key.outcomeId, l.units, l.escrow, l.cost, l.complete⟩
    entries := st.report.entries
    creatorIncome := st.report.creatorIncome
    creatorClaimed := st.report.creatorClaimed
    bondLocked := st.holdings.bondLocked
    bondCredited := st.holdings.bondCredited
    bondClaimed := st.holdings.bondClaimed
    bondSlashed := st.holdings.bondSlashed
    paymentIn := st.report.paymentIn
    paymentOut := st.report.paymentOut
    gasCost := st.report.gasCost }

/-- The words of the schemas: an address that is not zero, an unsigned word, a signed amount of up to 78 digits. -/
def isAddress (a : Address) : Bool := decide (a ≠ 0)

def isUint (v : Int) : Bool := decide (0 ≤ v ∧ v < 2 ^ 256)

def isSignedAmount (v : Int) : Bool := decide (-10 ^ 78 < v ∧ v < 10 ^ 78)

def PnlLot.valid (l : PnlLot) : Bool :=
  isAddress l.market && isUint l.outcomeId && isUint l.units && isUint l.escrowUnits && isUint l.knownCost

def PnlEntry.valid (e : PnlEntry) : Bool :=
  isAddress e.market && e.outcomeId.all (fun n => isUint n) && isUint e.timestamp && e.amount.all isSignedAmount &&
    isUint e.proceeds &&
    isUint e.allocatedCost

def Pnl.valid (p : Pnl) : Bool :=
  isAddress p.owner && p.realizedNet.all isSignedAmount && isSignedAmount p.knownRealizedNet &&
    p.lots.all PnlLot.valid &&
    p.entries.all PnlEntry.valid && isUint p.creatorIncome && isUint p.creatorClaimed && isUint p.bondLocked &&
      isUint p.bondCredited &&
    isUint p.bondClaimed && isUint p.bondSlashed && isUint p.paymentIn && isUint p.paymentOut && isUint p.gasCost

/-- `pnlSchema.parse`, which throws at what does not fit. -/
def Pnl.parse (p : Pnl) : Option Pnl := if p.valid then some p else none

def reduce (input : List LedgerFact) : State := (sortFacts input).foldl (State.advance names o owner) (State.initial o)

def computePnl (input : List LedgerFact) : Option Pnl := ((reduce names o owner input).finish names o owner).parse

end

end Profit

end Cpredict
