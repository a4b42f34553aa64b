import Cpredict.Financial.Balances
import Cpredict.Lib.Collation
import Cpredict.Profit.Order

/-!
# The identities of facts

A fact is known by its log and its index in it: `ledger_facts` has them as its primary key, and the profit reducer
skips an `id` that it has seen. An event that escrows the shares of an ask, or gives them back, has two facts with the
index 0; every other event numbers its facts apart (`onEvent_emits`), and what is left of a transfer has the index of
its entry. So the facts of a scan have identities of their own just when it sees no ask come or go
(`facts_identified`).
-/

namespace Cpredict.Financial

open Outcome Indexer HexText

/-! ## Keys and texts -/

/-- The transaction and the index of a log, and the index of a fact in it. -/
abbrev FactId := (Bytes32 × Nat) × Nat

def logKey (e : IndexedEvent) : Bytes32 × Nat := (e.transactionHash, e.logIndex)

def LedgerFact.identity (f : LedgerFact) : FactId := ((f.transactionHash, f.logIndex), f.factIndex)

def Movement.identity (m : Movement) : FactId := (logKey m.event, m.index)

/-- `${transactionHash}:${logIndex}:${factIndex}` -/
def FactId.text (i : FactId) : String :=
  String.ofList ('0' :: 'x' :: ((hexText 64 i.1.1).map fun d => Nat.digitChar d.val) ++
    ':' :: (Nat.toDigits 10 i.1.2 ++ ':' :: Nat.toDigits 10 i.2))

/-- `id` -/
def LedgerFact.id (f : LedgerFact) : String := f.identity.text

/-! ## ledger_facts -/

/-- The columns of a fact; its key is the one of the row. -/
structure FactRow where
  blockNumber : Nat
  transactionIndex : Nat
  occurredAt : Nat
  kind : FactKind
  market : Option Address
  owner : Option Address
  counterparty : Option Address
  fact : LedgerFact
deriving DecidableEq

/-- The row that an insert of a fact puts. -/
def FactRow.of (f : LedgerFact) : FactRow :=
  ⟨f.blockNumber, f.transactionIndex, f.timestamp, f.kind, f.market, f.owner, f.counterparty, f⟩

/-- `INSERT INTO ledger_facts … ON CONFLICT … DO UPDATE`: a row that is there gets the fact, its owner, counterparty
and market. -/
def upsert (rows : OrderedMap FactId FactRow) (f : LedgerFact) : OrderedMap FactId FactRow :=
  rows.set f.identity <| match rows.get f.identity with
    | some row => { row with fact := f, owner := f.owner, counterparty := f.counterparty, market := f.market }
    | none => .of f

/-- The loop of `project`. -/
def storeFacts (rows : OrderedMap FactId FactRow) (facts : List LedgerFact) : OrderedMap FactId FactRow :=
  facts.foldl upsert rows

/-! ## What the profit reducer reads -/

/-- The same kind, as the reducer has it. -/
def FactKind.toProfit : FactKind → Profit.FactKind
  | .marketCreated => .marketCreated
  | .marketInitialized => .marketInitialized
  | .marketMetadata => .marketMetadata
  | .economicSnapshot => .economicSnapshot
  | .primaryBuy => .primaryBuy
  | .orderCreated => .orderCreated
  | .orderReleased => .orderReleased
  | .orderSharesDeferred => .orderSharesDeferred
  | .orderFundsReturned => .orderFundsReturned
  | .listingCreated => .listingCreated
  | .listingFilled => .listingFilled
  | .listingCancelled => .listingCancelled
  | .listingReturned => .listingReturned
  | .marketResolved => .marketResolved
  | .marketVoided => .marketVoided
  | .winnerClaimed => .winnerClaimed
  | .earlyBirdClaimed => .earlyBirdClaimed
  | .refunded => .refunded
  | .timeoutFunded => .timeoutFunded
  | .timeoutClaimed => .timeoutClaimed
  | .losingBurned => .losingBurned
  | .remainderAssigned => .remainderAssigned
  | .shareTransfer => .shareTransfer
  | .paymentTransfer => .paymentTransfer
  | .bondLocked => .bondLocked
  | .bondCredited => .bondCredited
  | .bondTimeoutFunded => .bondTimeoutFunded
  | .bondClaimed => .bondClaimed
  | .feeAccrued => .feeAccrued
  | .feeClaimed => .feeClaimed
  | .userOperation => .userOperation
  | .coverageGap => .coverageGap

/-- A fact as the reducer reads it, however it reads `extra`. -/
def LedgerFact.toProfit (readExtra : Args → Profit.Extra) (f : LedgerFact) : Profit.LedgerFact where
  id := f.id
  kind := f.kind.toProfit
  blockNumber := f.blockNumber
  transactionIndex := f.transactionIndex
  logIndex := f.logIndex
  factIndex := f.factIndex
  timestamp := f.timestamp
  market := f.market
  owner := f.owner
  counterparty := f.counterparty
  outcomeId := f.outcomeId
  units := f.units
  amount := f.amount
  extra := readExtra f.extra

/-! ## The property and its condition -/

/-- The facts have identities of their own; so each is stored with its kind, and the reducer skips none. -/
structure Identified (facts : List LedgerFact) : Prop where
  identities : (facts.map LedgerFact.identity).Nodup
  ids : (facts.map LedgerFact.id).Nodup
  kept : ∀ rows : OrderedMap FactId FactRow, (∀ f ∈ facts, rows.get f.identity = none) →
    ∀ f ∈ facts, (storeFacts rows facts).get f.identity = some (.of f)
  used : ∀ readExtra names options owner, ∀ earlier f later,
    Profit.sortFacts (facts.map (LedgerFact.toProfit readExtra)) = earlier ++ f :: later →
      f.id ∉ (earlier.foldl (Profit.State.advance names options owner) (.initial options)).seen

/-- Units of an order are given back, one of those that are asks. -/
def ReturnsAsk (isAsk : Nat → Prop) (a : Args) : Prop :=
  ∃ orderId units, a.amount "orderId" = .ok orderId ∧ isAsk orderId ∧ a.amount "returnedUnits" = .ok units ∧ 0 < units

/-- An order that is known to the scan, and is an ask. -/
def FinancialContext.IsAsk (c : FinancialContext) (orderId : Nat) : Prop :=
  ∃ order, c.orders orderId = some order ∧ order.numberIs "side" 1 = true

/-- The event has two facts with one index. -/
def Doubles (c : FinancialContext) (d : Decoded) : Prop :=
  (d.event.address = c.deployment.marketplace ∧ c.deployment.orderbook = true) ∧
    (d.name = .OrderCreated ∧ d.args.numberIs "side" 1 = true ∨
      d.name = .OrderReleased ∧ ReturnsAsk c.IsAsk d.args)

section

variable (decodeEventLog : IndexedEvent → Except FinancialErr (Option (EventName × Args))) (events : List IndexedEvent)
  (c : FinancialContext)

/-- A log of the marketplace. -/
def Logged (name : EventName) (a : Args) : Prop :=
  ∃ e ∈ events, e.address = c.deployment.marketplace ∧ decodeEventLog e = .ok (some (name, a))

/-- The orderbook logs an ask, or that units of one are given back; it is an ask by its creation, in these logs or
in what was known before. -/
def MovesAsk : Prop :=
  c.deployment.orderbook = true ∧
    ((∃ a, Logged decodeEventLog events c .OrderCreated a ∧ a.numberIs "side" 1 = true) ∨
      ∃ a, Logged decodeEventLog events c .OrderReleased a ∧ ReturnsAsk (fun orderId => c.IsAsk orderId ∧
        ∀ a', Logged decodeEventLog events c .OrderCreated a' → a'.amount "orderId" ≠ .ok orderId) a)

end

/-! ## What an event adds -/

section

variable {c : FinancialContext} {timestamps : Nat → Option Nat} {e : IndexedEvent} {a : Args} {s s₁ s' : Ledger}
  {f : Fields} {fs : List Fields} {is js : List Nat}

/-- The facts that are added are of the log `e`, with the indices `is`; the movements stay those of their logs. -/
structure Emits (e : IndexedEvent) (is : List Nat) (s s' : Ledger) : Prop where
  output : ∃ fs, s'.output = s.output ++ fs ∧ fs.map LedgerFact.identity = is.map (Prod.mk (logKey e))
  movements : s'.movements.map Movement.identity = s.movements.map Movement.identity

theorem Emits.none (e : IndexedEvent) (s : Ledger) : Emits e [] s s := ⟨⟨[], by simp, rfl⟩, rfl⟩

theorem Emits.trans (h : Emits e is s s₁) (h' : Emits e js s₁ s') : Emits e (is ++ js) s s' := by
  obtain ⟨fs, ho, hfs⟩ := h.output
  obtain ⟨fs', ho', hfs'⟩ := h'.output
  refine ⟨⟨fs ++ fs', by rw [ho', ho, List.append_assoc], ?_⟩, h'.movements.trans h.movements⟩
  rw [List.map_append, hfs, hfs', List.map_append]

theorem add_emits (h : s.add timestamps e f = .ok s') : Emits e [f.factIndex] s s' := by
  obtain ⟨t, -, -, rfl⟩ := Ledger.add_eq_ok.mp h
  exact ⟨⟨[Ledger.fact e t f], rfl, rfl⟩, rfl⟩

theorem addAll_emits (h : s.addAll timestamps e fs = .ok s') : Emits e (fs.map Fields.factIndex) s s' := by
  obtain ⟨t, -, rfl⟩ := Ledger.addAll_eq_ok h
  refine ⟨⟨_, rfl, ?_⟩, rfl⟩
  rw [List.map_map, List.map_map]
  rfl

theorem coverage_emits {market owner : Address} {units : Nat} {used : List Used}
    (h : s.coverage timestamps e market owner units used = .ok s') : Emits e [] s s' ∨ Emits e [999] s s' := by
  unfold Ledger.coverage at h
  split at h
  · exact .inr (add_emits h)
  · exact .inl (Except.ok.inj h ▸ .none e s)

theorem consumeLoop_identity (fits : Movement → Bool) (needed : Nat) (ms : List Movement) :
    (consumeLoop fits needed ms).2.map Movement.identity = ms.map Movement.identity := by
  induction ms generalizing needed with
  | nil => rfl
  | cons m ms ih =>
    by_cases hs : fits m = false ∨ m.remaining = 0
    · rw [consumeLoop_skip hs, List.map_cons, List.map_cons, ih]
    · rw [consumeLoop_take hs]
      split
      · rfl
      · rw [List.map_cons, List.map_cons, ih]
        rfl

/-- An event that moves shares has its facts, and a gap after them if there is one. -/
theorem settle_emits {market owner : Address} {source target : Option Address} {outcome : Option Nat} {units : Nat}
    {g : List Used → List Fields} (h : s.settle timestamps e market owner source target units outcome g = .ok s')
    (hg : ∀ used, (g used).map Fields.factIndex = is) : Emits e is s s' ∨ Emits e (is ++ [999]) s s' := by
  simp only [Ledger.settle, Ledger.consume, bind_eq_ok] at h
  obtain ⟨s₁, ha, hc⟩ := h
  have hadd := addAll_emits ha
  rw [hg] at hadd
  have hfirst : Emits e is s s₁ := ⟨hadd.output, hadd.movements.trans (consumeLoop_identity _ _ _)⟩
  rcases coverage_emits hc with hgap | hgap
  · exact .inl (List.append_nil is ▸ hfirst.trans hgap)
  · exact .inr (hfirst.trans hgap)

/-- The facts that are added have indices of their own. -/
def Numbered (e : IndexedEvent) (s s' : Ledger) : Prop := ∃ is, is.Nodup ∧ Emits e is s s'

theorem Numbered.none (e : IndexedEvent) (s : Ledger) : Numbered e s s := ⟨[], List.nodup_nil, .none e s⟩

theorem add_numbered (h : s.add timestamps e f = .ok s') : Numbered e s s' :=
  ⟨_, List.nodup_singleton _, add_emits h⟩

theorem settle_numbered (is : List Nat) {market owner : Address} {source target : Option Address}
    {outcome : Option Nat} {units : Nat} {g : List Used → List Fields}
    (h : s.settle timestamps e market owner source target units outcome g = .ok s')
    (hg : ∀ used, (g used).map Fields.factIndex = is) (hn : (is ++ [999]).Nodup) : Numbered e s s' := by
  rcases settle_emits h hg with he | he
  · exact ⟨is, hn.of_append_left, he⟩
  · exact ⟨_, hn, he⟩

/-! ## The handlers -/

theorem onMarketCreated_numbered (h : onMarketCreated timestamps e a s = .ok s') : Numbered e s s' := by
  simp only [onMarketCreated, bind_eq_ok] at h
  obtain ⟨_, _, _, _, _, _, h⟩ := h
  exact add_numbered h

/-- The creation of an ask is a fact, and so is the listing of its shares. -/
theorem onOrderCreated_emits (h : onOrderCreated c timestamps e a s = .ok s') :
    ∃ is, Emits e is s s' ∧ (is.Nodup ↔ ¬a.numberIs "side" 1 = true) := by
  simp only [onOrderCreated, bind_eq_ok] at h
  obtain ⟨_, _, _, _, _, _, _, _, _, _, _, _, s₁, hadd, h⟩ := h
  by_cases hside : a.numberIs "side" 1 = true
  · rw [if_pos hside] at h
    rcases settle_emits h fun _ => rfl with hs | hs
    · exact ⟨_, (add_emits hadd).trans hs, by simp [hside]⟩
    · exact ⟨_, (add_emits hadd).trans hs, by simp [hside]⟩
  · rw [if_neg hside] at h
    exact ⟨_, Except.ok.inj h ▸ add_emits hadd, by simp [hside]⟩

theorem onBidExcessReturned_numbered (h : onBidExcessReturned c timestamps e a s = .ok s') : Numbered e s s' := by
  simp only [onBidExcessReturned, bind_eq_ok] at h
  obtain ⟨orderId, _, h⟩ := h
  cases horder : c.orders orderId with
  | none => rw [horder] at h; cases h
  | some order =>
    rw [horder] at h
    simp only [bind_eq_ok] at h
    obtain ⟨_, _, _, _, _, _, _, _, h⟩ := h
    exact add_numbered h

/-- The release of an order is a fact, and so are the shares of an ask that it gives back. -/
theorem onOrderReleased_emits (h : onOrderReleased c timestamps e a s = .ok s') :
    ∃ is, Emits e is s s' ∧ (is.Nodup ↔ ¬ReturnsAsk c.IsAsk a) := by
  simp only [onOrderReleased, bind_eq_ok] at h
  obtain ⟨orderId, hid, h⟩ := h
  cases horder : c.orders orderId with
  | none => rw [horder] at h; cases h
  | some order =>
    rw [horder] at h
    simp only [bind_eq_ok] at h
    obtain ⟨_, _, _, _, _, _, units, hunits, _, _, _, _, s₁, hadd, h⟩ := h
    have hreturns : ReturnsAsk c.IsAsk a ↔ order.numberIs "side" 1 = true ∧ 0 < units := by
      constructor
      · rintro ⟨orderId', units', hid', ⟨order', horder', hside⟩, hunits', hpos⟩
        obtain rfl := Except.ok.inj (hid.symm.trans hid')
        obtain rfl := Except.ok.inj (hunits.symm.trans hunits')
        obtain rfl := Option.some.inj (horder.symm.trans horder')
        exact ⟨hside, hpos⟩
      · rintro ⟨hside, hpos⟩
        exact ⟨orderId, units, hid, ⟨order, horder, hside⟩, hunits, hpos⟩
    rw [hreturns]
    by_cases hask : order.numberIs "side" 1 = true ∧ 0 < units
    · rw [if_pos hask] at h
      rcases settle_emits h fun _ => rfl with hs | hs
      · exact ⟨_, (add_emits hadd).trans hs, by simp [hask]⟩
      · exact ⟨_, (add_emits hadd).trans hs, by simp [hask]⟩
    · rw [if_neg hask] at h
      exact ⟨_, Except.ok.inj h ▸ add_emits hadd, by simp [hask]⟩

theorem onOrderSharesDeferred_numbered (h : onOrderSharesDeferred c timestamps e a s = .ok s') : Numbered e s s' := by
  simp only [onOrderSharesDeferred, bind_eq_ok] at h
  obtain ⟨orderId, _, h⟩ := h
  cases horder : c.orders orderId with
  | none => rw [horder] at h; cases h
  | some order =>
    rw [horder] at h
    simp only [bind_eq_ok] at h
    obtain ⟨_, _, _, _, _, _, _, _, h⟩ := h
    exact add_numbered h

/-- The transfer to a recipient has an index of its own. -/
theorem onOrderSharesWithdrawn_numbered (h : onOrderSharesWithdrawn c timestamps e a s = .ok s') :
    Numbered e s s' := by
  simp only [onOrderSharesWithdrawn, bind_eq_ok] at h
  obtain ⟨orderId, _, h⟩ := h
  cases horder : (c.orders orderId).filter fun order => order.numberIs "side" 1 with
  | none => rw [horder] at h; cases h
  | some order =>
    rw [horder] at h
    simp only [bind_eq_ok] at h
    obtain ⟨_, _, owner, _, recipient, _, _, _, _, _, h⟩ := h
    by_cases hother : owner ≠ recipient
    · exact settle_numbered [0, 1] h (fun _ => by rw [if_pos hother]; rfl) (by decide)
    · exact settle_numbered [0] h (fun _ => by rw [if_neg hother]; rfl) (by decide)

theorem onTradeExecuted_numbered (h : onTradeExecuted c timestamps e a s = .ok s') : Numbered e s s' := by
  simp only [onTradeExecuted, bind_eq_ok] at h
  obtain ⟨_, _, _, _, _, _, _, _, _, _, _, _, _, _, _, _, _, _, _, _, h⟩ := h
  exact settle_numbered [0] h (fun _ => rfl) (by decide)

theorem onListingCreated_numbered {listingId : Bytes32} {listing : LedgerListing}
    (h : onListingCreated c timestamps e a listingId listing s = .ok s') : Numbered e s s' := by
  simp only [onListingCreated, bind_eq_ok] at h
  obtain ⟨_, _, h⟩ := h
  exact settle_numbered [0] h (fun _ => rfl) (by decide)

theorem onListingFilled_numbered {listingId : Bytes32} {listing : LedgerListing}
    (h : onListingFilled c timestamps e a listingId listing s = .ok s') : Numbered e s s' := by
  simp only [onListingFilled, bind_eq_ok] at h
  obtain ⟨_, _, _, _, _, _, h⟩ := h
  exact settle_numbered [0] h (fun _ => rfl) (by decide)

theorem onListingClosed_numbered {kind : FactKind} {listingId : Bytes32} {listing : LedgerListing}
    (h : onListingClosed c timestamps e a kind listingId listing s = .ok s') : Numbered e s s' := by
  simp only [onListingClosed, bind_eq_ok] at h
  obtain ⟨_, _, h⟩ := h
  exact settle_numbered [0] h (fun _ => rfl) (by decide)

theorem onFee_numbered {kind : FactKind} (h : onFee c timestamps e a kind s = .ok s') : Numbered e s s' := by
  simp only [onFee, bind_eq_ok] at h
  obtain ⟨_, _, _, _, _, _, h⟩ := h
  exact add_numbered h

theorem onBond_numbered {kind : FactKind} (h : onBond timestamps e a kind s = .ok s') : Numbered e s s' := by
  simp only [onBond, bind_eq_ok] at h
  obtain ⟨_, _, _, _, _, _, h⟩ := h
  exact add_numbered h

theorem onTransfer_numbered (h : onTransfer c timestamps e a s = .ok s') : Numbered e s s' := by
  simp only [onTransfer, bind_eq_ok] at h
  obtain ⟨_, _, _, _, h⟩ := h
  refine branch_ok h (.none e s) fun h => ?_
  obtain ⟨_, _, h⟩ := bind_eq_ok.mp h
  exact add_numbered h

theorem onUserOperation_numbered (h : onUserOperation c timestamps e a s = .ok s') : Numbered e s s' := by
  simp only [onUserOperation, bind_eq_ok] at h
  obtain ⟨_, _, h⟩ := h
  refine branch_ok h (.none e s) fun h => ?_
  obtain ⟨_, _, h⟩ := bind_eq_ok.mp h
  exact add_numbered h

theorem onPrimaryPurchased_numbered (h : onPrimaryPurchased timestamps e a s = .ok s') : Numbered e s s' := by
  simp only [onPrimaryPurchased, bind_eq_ok] at h
  obtain ⟨_, _, _, _, _, _, _, _, _, _, h⟩ := h
  exact settle_numbered [0] h (fun _ => rfl) (by decide)

theorem onBurned_numbered {kind : FactKind} (h : onBurned timestamps e a kind s = .ok s') : Numbered e s s' := by
  simp only [onBurned, bind_eq_ok] at h
  obtain ⟨_, _, _, _, _, _, _, _, h⟩ := h
  exact settle_numbered [0] h (fun _ => rfl) (by decide)

theorem onMarket_numbered {name : EventName} (h : onMarket c timestamps e a name s = .ok s') : Numbered e s s' := by
  unfold onMarket at h
  cases name with
  | PrimaryPurchased => exact onPrimaryPurchased_numbered h
  | WinnerClaimed | PrincipalRefunded | LosingPositionBurned => exact onBurned_numbered h
  | EconomicSnapshotCreated => exact add_numbered h
  | MarketInitialized | MarketMetadataUpdated | MarketResolved | MarketVoided | TimeoutBonusFunded =>
    obtain ⟨_, _, h⟩ := bind_eq_ok.mp h
    exact add_numbered h
  | EarlyBirdClaimed | FinalRemainderAssigned =>
    simp only [bind_eq_ok] at h
    obtain ⟨_, _, _, _, h⟩ := h
    exact add_numbered h
  | TimeoutBonusClaimed =>
    simp only [bind_eq_ok] at h
    obtain ⟨_, _, _, _, _, _, h⟩ := h
    exact add_numbered h
  | _ => exact Except.ok.inj h ▸ .none e s

/-! ## The loop -/

/-- The event logs a transfer of shares. -/
def Decoded.IsTransfer (d : Decoded) : Prop := d.name = .TransferSingle ∨ d.name = .TransferBatch

variable {d : Decoded} {ds : List Decoded}

theorem onEvent_numbered (hc : d.name ≠ .OrderCreated) (hr : d.name ≠ .OrderReleased)
    (h : onEvent c timestamps d s = .ok s') : Numbered d.event s s' := by
  obtain ⟨e, name, a⟩ := d
  have hother : ∀ name, (if e.address = c.deployment.bondEscrow then .ok s
      else if name = EventName.Transfer ∧ e.address = c.deployment.paymentToken then onTransfer c timestamps e a s
      else if name = .UserOperationEvent ∧ e.address = c.deployment.entryPoint then onUserOperation c timestamps e a s
      else if e.address ∈ c.markets then onMarket c timestamps e a name s
      else .ok s) = .ok s' → Numbered e s s' := by
    intro name h
    split_ifs at h
    · exact Except.ok.inj h ▸ .none e s
    · exact onTransfer_numbered h
    · exact onUserOperation_numbered h
    · exact onMarket_numbered h
    · exact Except.ok.inj h ▸ .none e s
  have hnone := Numbered.none e s
  unfold onEvent at h
  cases name with
  | OrderCreated => exact absurd rfl hc
  | OrderReleased => exact absurd rfl hr
  | MarketCreated => exact branch_ok h hnone onMarketCreated_numbered
  | BidExcessReturned => exact branch_ok h hnone onBidExcessReturned_numbered
  | OrderSharesDeferred => exact branch_ok h hnone onOrderSharesDeferred_numbered
  | OrderSharesWithdrawn => exact branch_ok h hnone onOrderSharesWithdrawn_numbered
  | TradeExecuted => exact branch_ok h hnone onTradeExecuted_numbered
  | ListingCreated => exact branch_ok h hnone fun h => withListing_ok h fun _ _ => onListingCreated_numbered
  | ListingFilled => exact branch_ok h hnone fun h => withListing_ok h fun _ _ => onListingFilled_numbered
  | ListingCancelled | TerminalListingReturned =>
    exact branch_ok h hnone fun h => withListing_ok h fun _ _ => onListingClosed_numbered
  | FeeAccrued | FeeClaimed => exact branch_ok h hnone onFee_numbered
  | BondLocked | BondCredited | BondFundedToTimeoutMarket | BondClaimed => exact branch_ok h hnone onBond_numbered
  | _ => exact hother _ h

theorem onEvent_transfer (ht : d.IsTransfer) (h : onEvent c timestamps d s = .ok s') : s' = s := by
  obtain ⟨e, name, a⟩ := d
  rcases ht with rfl | rfl <;>
  · simp only [onEvent, reduceCtorEq, false_and, if_false, onMarket, ite_self, Except.ok.injEq] at h
    exact h.symm

/-- A transfer of shares has no fact of its own; every other event has facts with indices of their own, unless two of
them are the order and its shares. -/
theorem onEvent_emits (h : onEvent c timestamps d s = .ok s') :
    ∃ is, Emits d.event is s s' ∧ (is.Nodup ↔ ¬Doubles c d) ∧ (d.IsTransfer → is = []) := by
  by_cases ht : d.IsTransfer
  · obtain rfl := onEvent_transfer ht h
    refine ⟨[], .none _ _, ⟨fun _ hd => ?_, fun _ => List.nodup_nil⟩, fun _ => rfl⟩
    rcases hd.2 with ⟨hname, -⟩ | ⟨hname, -⟩ <;> simp [Decoded.IsTransfer, hname] at ht
  by_cases horder : d.name = .OrderCreated ∨ d.name = .OrderReleased
  · obtain ⟨e, name, a⟩ := d
    by_cases hbook : e.address = c.deployment.marketplace ∧ c.deployment.orderbook = true
    · rcases horder with rfl | rfl
      · simp only [onEvent, hbook, and_self, if_true] at h
        obtain ⟨is, he, hn⟩ := onOrderCreated_emits h
        exact ⟨is, he, by simp [hn, Doubles, hbook], fun h => absurd h ht⟩
      · simp only [onEvent, hbook, and_self, if_true] at h
        obtain ⟨is, he, hn⟩ := onOrderReleased_emits h
        exact ⟨is, he, by simp [hn, Doubles, hbook], fun h => absurd h ht⟩
    · have hs : s' = s := by
        rcases horder with rfl | rfl <;>
        · simp only [onEvent, if_neg hbook, Except.ok.injEq] at h
          exact h.symm
      subst hs
      exact ⟨[], .none _ _, ⟨fun _ hd => hbook hd.1, fun _ => List.nodup_nil⟩, fun h => absurd h ht⟩
  · obtain ⟨is, hn, he⟩ := onEvent_numbered (fun hc => horder (.inl hc)) (fun hr => horder (.inr hr)) h
    exact ⟨is, he, ⟨fun _ hd => horder (hd.2.imp And.left And.left), fun _ => hn⟩, fun h => absurd h ht⟩

/-- The facts of the loop are of events that are no transfers; they have identities of their own if no event
doubles one. -/
theorem events_emit (hn : (ds.map fun d => logKey d.event).Nodup)
    (h : ds.foldlM (fun s d => onEvent c timestamps d s) s = .ok s') :
    (∃ fs, s'.output = s.output ++ fs ∧ (∀ f ∈ fs, ∃ d ∈ ds, ¬d.IsTransfer ∧ f.identity.1 = logKey d.event) ∧
        ((fs.map LedgerFact.identity).Nodup ↔ ∀ d ∈ ds, ¬Doubles c d)) ∧
      s'.movements.map Movement.identity = s.movements.map Movement.identity := by
  induction ds generalizing s with
  | nil =>
    obtain rfl := Except.ok.inj h
    exact ⟨⟨[], by simp, by simp, by simp⟩, rfl⟩
  | cons d ds ih =>
    rw [List.foldlM_cons] at h
    obtain ⟨s₁, h₁, h⟩ := bind_eq_ok.mp h
    rw [List.map_cons, List.nodup_cons] at hn
    obtain ⟨is, he, his, ht⟩ := onEvent_emits h₁
    obtain ⟨fs, ho, hfs⟩ := he.output
    obtain ⟨⟨fs', ho', hof, hnodup⟩, hm⟩ := ih hn.2 h
    have hone : ∀ f ∈ fs, f.identity.1 = logKey d.event := by
      intro f hf
      have hmem := List.mem_map_of_mem (f := LedgerFact.identity) hf
      rw [hfs] at hmem
      obtain ⟨i, -, hi⟩ := List.mem_map.mp hmem
      rw [← hi]
    refine ⟨⟨fs ++ fs', by rw [ho', ho, List.append_assoc], fun f hf => ?_, ?_⟩, hm.trans he.movements⟩
    · rcases List.mem_append.mp hf with hf | hf
      · refine ⟨d, List.mem_cons_self, fun hd => ?_, hone f hf⟩
        rw [ht hd, List.map_nil, List.map_eq_nil_iff] at hfs
        rw [hfs] at hf
        cases hf
      · obtain ⟨d', hd', h⟩ := hof f hf
        exact ⟨d', List.mem_cons_of_mem _ hd', h⟩
    · have hapart : ∀ i ∈ fs.map LedgerFact.identity, ∀ j ∈ fs'.map LedgerFact.identity, i ≠ j := by
        intro i hi j hj hij
        obtain ⟨f, hf, rfl⟩ := List.mem_map.mp hi
        obtain ⟨f', hf', rfl⟩ := List.mem_map.mp hj
        obtain ⟨d', hd', -, hkey⟩ := hof f' hf'
        refine hn.1 (List.mem_map.mpr ⟨d', hd', ?_⟩)
        rw [← hkey, ← hij, hone f hf]
      rw [List.map_append, List.nodup_append, hnodup, List.forall_mem_cons, hfs,
        List.nodup_map_iff (Prod.mk_right_injective _), his]
      rw [hfs] at hapart
      exact ⟨fun h => ⟨h.1, h.2.1⟩, fun h => ⟨h.1, h.2, hapart⟩⟩

/-! ## The transfers -/

theorem movementsOf_identity {markets : Finset Address} {ms : List Movement} (h : movementsOf markets d = .ok ms) :
    (ms.map Movement.identity).Nodup ∧ ∀ m ∈ ms, d.IsTransfer ∧ m.event = d.event := by
  obtain ⟨e, name, a⟩ := d
  have hnone : (([] : List Movement).map Movement.identity).Nodup ∧
      ∀ m ∈ ([] : List Movement), Decoded.IsTransfer ⟨e, name, a⟩ ∧ m.event = e := by simp
  unfold movementsOf at h
  by_cases hm : e.address ∉ markets
  · rw [if_pos hm] at h
    exact Except.ok.inj h ▸ hnone
  rw [if_neg hm] at h
  cases name with
  | TransferSingle =>
    simp only [bind_eq_ok] at h
    obtain ⟨_, _, _, _, _, _, _, _, h⟩ := h
    obtain rfl := Except.ok.inj h
    simp [Decoded.IsTransfer]
  | TransferBatch =>
    simp only at h
    split at h
    · rename_i ids values _ _
      simp only [bind_eq_ok] at h
      obtain ⟨-, -, h⟩ := h
      split at h
      · exact Except.ok.inj h ▸ hnone
      · simp only [bind_eq_ok] at h
        obtain ⟨source, -, target, -, h⟩ := h
        obtain rfl := Except.ok.inj h
        refine ⟨?_, fun m hm => ?_⟩
        · have hindices : ((ids.zip values).mapIdx fun i x =>
              (⟨e, i, e.address, source, target, x.1, x.2⟩ : Movement)).map Movement.identity =
                ((ids.zip values).zipIdx.map Prod.snd).map (Prod.mk (logKey e)) := by
            rw [List.mapIdx_eq_zipIdx_map, List.map_map, List.map_map]
            rfl
          rw [hindices, List.zipIdx_map_snd]
          exact (List.nodup_range' ..).map (Prod.mk_right_injective _)
        · obtain ⟨i, hi, rfl⟩ := List.mem_mapIdx.mp hm
          exact ⟨.inr rfl, rfl⟩
    · cases h
  | _ => exact Except.ok.inj h ▸ hnone

theorem allMovements_identity {markets : Finset Address} {ms : List Movement}
    (hn : (ds.map fun d => logKey d.event).Nodup) (h : allMovements markets ds = .ok ms) :
    (ms.map Movement.identity).Nodup ∧ ∀ m ∈ ms, ∃ d ∈ ds, d.IsTransfer ∧ m.event = d.event := by
  simp only [allMovements, bind_eq_ok, Except.ok.injEq] at h
  obtain ⟨mss, h, rfl⟩ := h
  induction ds generalizing mss with
  | nil =>
    obtain rfl := Except.ok.inj h
    simp
  | cons d ds ih =>
    rw [List.mapM_cons] at h
    simp only [bind_eq_ok] at h
    obtain ⟨ms, hms, mss', hmss, hp⟩ := h
    obtain rfl := Except.ok.inj hp
    rw [List.map_cons, List.nodup_cons] at hn
    obtain ⟨hd, hof⟩ := movementsOf_identity hms
    obtain ⟨hds, hof'⟩ := ih hn.2 mss' hmss
    rw [List.flatten_cons]
    refine ⟨?_, fun m hm => ?_⟩
    · rw [List.map_append, List.nodup_append]
      refine ⟨hd, hds, fun i hi j hj hij => ?_⟩
      obtain ⟨m, hm, rfl⟩ := List.mem_map.mp hi
      obtain ⟨m', hm', rfl⟩ := List.mem_map.mp hj
      obtain ⟨d', hd', -, he⟩ := hof' m' hm'
      refine hn.1 (List.mem_map.mpr ⟨d', hd', ?_⟩)
      rw [← he, ← (hof m hm).2]
      exact (congrArg Prod.fst hij).symm
    · rcases List.mem_append.mp hm with hm | hm
      · exact ⟨d, List.mem_cons_self, hof m hm⟩
      · obtain ⟨d', hd', h⟩ := hof' m hm
        exact ⟨d', List.mem_cons_of_mem _ hd', h⟩

/-- What is left of a transfer becomes a fact with its identity. -/
theorem rest_identity {ms : List Movement}
    (h : ms.foldlM (fun s m => s.add timestamps m.event
      { kind := .shareTransfer, market := some m.market, owner := m.source, counterparty := m.target,
        outcomeId := some m.outcome
        units := some m.remaining, factIndex := m.index, extra := .of [("source", .text "ERC1155")] }) s = .ok s') :
    ∃ fs, s'.output = s.output ++ fs ∧ fs.map LedgerFact.identity = ms.map Movement.identity := by
  induction ms generalizing s with
  | nil => exact ⟨[], by simp [← Except.ok.inj h], rfl⟩
  | cons m ms ih =>
    rw [List.foldlM_cons] at h
    obtain ⟨s₁, h₁, h⟩ := bind_eq_ok.mp h
    obtain ⟨t, -, -, rfl⟩ := Ledger.add_eq_ok.mp h₁
    obtain ⟨fs, ho, hfs⟩ := ih h
    refine ⟨_ :: fs, by rw [ho, List.append_assoc]; rfl, ?_⟩
    rw [List.map_cons, hfs]
    rfl

/-! ## The orders of a scan -/

variable {c' : FinancialContext} {orderId : Nat}

/-- The log creates the order. -/
def Creates (c : FinancialContext) (orderId : Nat) (d : Decoded) : Prop :=
  (d.name = .OrderCreated ∧ d.event.address = c.deployment.marketplace) ∧ d.args.amount "orderId" = .ok orderId

theorem collectOrder_orders (orderId : Nat) (h : collectOrder c d = .ok c') :
    Creates c orderId d ∧ c'.orders orderId = some d.args ∨
      ¬Creates c orderId d ∧ c'.orders orderId = c.orders orderId := by
  unfold collectOrder at h
  by_cases hd : d.name = .OrderCreated ∧ d.event.address = c.deployment.marketplace
  · rw [if_pos hd] at h
    obtain ⟨id, hid, h⟩ := bind_eq_ok.mp h
    obtain rfl := Except.ok.inj h
    by_cases hsame : orderId = id
    · subst hsame
      exact .inl ⟨⟨hd, hid⟩, Function.update_self ..⟩
    · exact .inr ⟨fun hc => hsame (Except.ok.inj (hc.2.symm.trans hid)), Function.update_of_ne hsame ..⟩
  · rw [if_neg hd] at h
    exact Except.ok.inj h ▸ .inr ⟨fun hc => hd hc.1, rfl⟩

/-- An order is known by the last log that creates it, or as it was. -/
theorem collectOrders (h : ds.foldlM collectOrder c = .ok c') :
    (∃ d ∈ ds, Creates c orderId d ∧ c'.orders orderId = some d.args) ∨
      (∀ d ∈ ds, ¬Creates c orderId d) ∧ c'.orders orderId = c.orders orderId := by
  induction ds generalizing c with
  | nil => exact Except.ok.inj h ▸ .inr ⟨by simp, rfl⟩
  | cons d ds ih =>
    rw [List.foldlM_cons] at h
    obtain ⟨c₁, h₁, h⟩ := bind_eq_ok.mp h
    have hcreates : ∀ x, Creates c₁ orderId x ↔ Creates c orderId x := fun x => by
      rw [Creates, Creates, collectOrder_deployment h₁]
    rcases ih h with ⟨x, hx, hc, ho⟩ | ⟨hnone, ho⟩
    · exact .inl ⟨x, List.mem_cons_of_mem _ hx, (hcreates x).mp hc, ho⟩
    · rcases collectOrder_orders orderId h₁ with ⟨hc, ho'⟩ | ⟨hc, ho'⟩
      · exact .inl ⟨d, List.mem_cons_self, hc, ho.trans ho'⟩
      · refine .inr ⟨List.forall_mem_cons.mpr ⟨hc, fun x hx hcx => ?_⟩, ho.trans ho'⟩
        exact hnone x hx ((hcreates x).mpr hcx)

theorem collectAll_orders (orderId : Nat) (h : collectAll c ds = .ok c') :
    (∃ d ∈ ds, Creates c orderId d ∧ c'.orders orderId = some d.args) ∨
      (∀ d ∈ ds, ¬Creates c orderId d) ∧ c'.orders orderId = c.orders orderId := by
  obtain ⟨c₁, h₁, h⟩ := bind_eq_ok.mp h
  obtain ⟨hdep, horders⟩ := collects_keep h₁
  have hcreates : ∀ x, Creates c₁ orderId x ↔ Creates c orderId x := fun x => by rw [Creates, Creates, hdep]
  simp only [← hcreates, ← horders]
  exact collectOrders h

/-- An event doubles an identity just when the logs move an ask. -/
theorem doubles_iff (hds : decodeAll decodeEventLog events = .ok ds) (hc : collectAll c ds = .ok c') :
    (∃ d ∈ ds, Doubles c' d) ↔ MovesAsk decodeEventLog events c := by
  have hdep := collectAll_deployment hc
  have hlogged : ∀ name a, Logged decodeEventLog events c name a ↔
      ∃ d ∈ ds, d.name = name ∧ d.event.address = c.deployment.marketplace ∧ d.args = a := by
    intro name a
    constructor
    · rintro ⟨e, he, hm, hdec⟩
      exact ⟨⟨e, name, a⟩, (mem_decodeAll hds).mpr ⟨he, hdec⟩, rfl, hm, rfl⟩
    · rintro ⟨d, hd, rfl, hm, rfl⟩
      obtain ⟨he, hdec⟩ := (mem_decodeAll hds).mp hd
      exact ⟨d.event, he, hm, hdec⟩
  constructor
  · rintro ⟨d, hd, ⟨hm, hbook⟩, hdouble⟩
    rw [hdep] at hm hbook
    refine ⟨hbook, ?_⟩
    rcases hdouble with ⟨hname, hside⟩ | ⟨hname, orderId, units, hid, ⟨order, horder, hside⟩, hunits, hpos⟩
    · exact .inl ⟨d.args, (hlogged _ _).mpr ⟨d, hd, hname, hm, rfl⟩, hside⟩
    · rcases collectAll_orders orderId hc with ⟨d', hd', hcr, ho⟩ | ⟨hnone, ho⟩
      · obtain rfl := Option.some.inj (ho.symm.trans horder)
        exact .inl ⟨d'.args, (hlogged _ _).mpr ⟨d', hd', hcr.1.1, hcr.1.2, rfl⟩, hside⟩
      · refine .inr ⟨d.args, (hlogged _ _).mpr ⟨d, hd, hname, hm, rfl⟩, orderId, units, hid,
          ⟨⟨order, ho ▸ horder, hside⟩, fun a' ha' hid' => ?_⟩, hunits, hpos⟩
        obtain ⟨d', hd', hname', hm', rfl⟩ := (hlogged _ _).mp ha'
        exact hnone d' hd' ⟨⟨hname', hm'⟩, hid'⟩
  · rintro ⟨hbook, ⟨a, ha, hside⟩ | ⟨a, ha, orderId, units, hid, ⟨⟨order, horder, hside⟩, hfresh⟩, hunits, hpos⟩⟩
    · obtain ⟨d, hd, hname, hm, rfl⟩ := (hlogged _ _).mp ha
      exact ⟨d, hd, ⟨hdep ▸ hm, hdep ▸ hbook⟩, .inl ⟨hname, hside⟩⟩
    · obtain ⟨d, hd, hname, hm, rfl⟩ := (hlogged _ _).mp ha
      refine ⟨d, hd, ⟨hdep ▸ hm, hdep ▸ hbook⟩, .inr ⟨hname, orderId, units, hid, ⟨order, ?_, hside⟩, hunits, hpos⟩⟩
      rcases collectAll_orders orderId hc with ⟨d', hd', hcr, -⟩ | ⟨-, ho⟩
      · exact absurd hcr.2 (hfresh _ ((hlogged _ _).mpr ⟨d', hd', hcr.1.1, hcr.1.2, rfl⟩))
      · exact ho.trans horder

end

/-! ## What follows from the identities -/

/-- Two texts that are cut at the first of a character. -/
theorem cut_inj {b : Char} {x x' z z' : List Char} (h : b ∉ x) (h' : b ∉ x') (he : x ++ b :: z = x' ++ b :: z') :
    x = x' ∧ z = z' := by
  induction x generalizing x' with
  | nil =>
    cases x' with
    | nil => exact ⟨rfl, (List.cons.inj he).2⟩
    | cons d x' => exact absurd (List.cons.inj he).1 fun hd => h' (hd ▸ List.mem_cons_self)
  | cons d x ih =>
    cases x' with
    | nil => exact absurd (List.cons.inj he).1 fun hd => h (hd ▸ List.mem_cons_self)
    | cons d' x' =>
      obtain ⟨rfl, htail⟩ := List.cons.inj he
      obtain ⟨rfl, rfl⟩ := ih (fun hm => h (List.mem_cons_of_mem _ hm)) (fun hm => h' (List.mem_cons_of_mem _ hm))
        htail
      exact ⟨rfl, rfl⟩

theorem text_injective : Function.Injective FactId.text := by
  have hhex : ∀ n, ':' ∉ '0' :: 'x' :: (hexText 64 n).map fun d => Nat.digitChar d.val := by
    intro n hmem
    rcases List.mem_cons.mp hmem with h | hmem
    · exact absurd h (by decide)
    rcases List.mem_cons.mp hmem with h | hmem
    · exact absurd h (by decide)
    obtain ⟨d, -, hd⟩ := List.mem_map.mp hmem
    revert d
    decide
  have hdigit : Function.Injective fun d : Fin 16 => Nat.digitChar d.val := by
    unfold Function.Injective
    decide
  have hdec : ∀ n, ':' ∉ Nat.toDigits 10 n := fun n hmem =>
    absurd (Nat.isDigit_of_mem_toDigits (by decide) (by decide) hmem) (by decide)
  have hvalue : ∀ n, Nat.ofDigitChars 10 (Nat.toDigits 10 n) 0 = n := fun n =>
    Nat.ofDigitChars_toDigits (by decide) (by decide)
  rintro ⟨⟨hash, log⟩, index⟩ ⟨⟨hash', log'⟩, index'⟩ he
  obtain ⟨hfirst, hrest⟩ := cut_inj (hhex hash) (hhex hash') (String.ofList_injective he)
  obtain ⟨hlog, hindex⟩ := cut_inj (hdec log) (hdec log') hrest
  have hhash := hexText_injective 64 (hdigit.list_map (List.cons.inj (List.cons.inj hfirst).2).2)
  rw [hhash, ← hvalue log, hlog, hvalue, ← hvalue index, hindex, hvalue]

section

variable {rows : OrderedMap FactId FactRow} {facts : List LedgerFact} {f : LedgerFact} {k : FactId}

theorem storeFacts_other (h : ∀ f ∈ facts, f.identity ≠ k) : (storeFacts rows facts).get k = rows.get k := by
  induction facts generalizing rows with
  | nil => rfl
  | cons f facts ih =>
    rw [List.forall_mem_cons] at h
    exact (ih h.2).trans (OrderedMap.get_set_of_ne _ _ h.1.symm)

/-- Every fact is stored as it was inserted. -/
theorem storeFacts_get (hn : (facts.map LedgerFact.identity).Nodup) (hnew : ∀ f ∈ facts, rows.get f.identity = none)
    (hf : f ∈ facts) : (storeFacts rows facts).get f.identity = some (.of f) := by
  induction facts generalizing rows with
  | nil => cases hf
  | cons g facts ih =>
    rw [List.map_cons, List.nodup_cons] at hn
    rw [List.forall_mem_cons] at hnew
    have hother : ∀ f ∈ facts, f.identity ≠ g.identity := fun f hf he =>
      hn.1 (he ▸ List.mem_map_of_mem hf)
    rcases List.mem_cons.mp hf with rfl | hf
    · refine (storeFacts_other hother).trans ?_
      rw [upsert, hnew.1, OrderedMap.get_set_self]
    · exact ih hn.2 (fun f hf => (OrderedMap.get_set_of_ne _ _ (hother f hf)).trans (hnew.2 f hf)) hf

end

section

variable {names : Address → String} {options : Profit.PnlOptions} {owner : Address}

/-- What the reducer has seen are ids of earlier facts. -/
theorem mem_seen {l : List Profit.LedgerFact} {st : Profit.State} {i : String}
    (h : i ∈ (l.foldl (Profit.State.advance names options owner) st).seen) : i ∈ st.seen ∨ ∃ g ∈ l, g.id = i := by
  induction l generalizing st with
  | nil => exact .inl h
  | cons g l ih =>
    rcases ih h with h | ⟨x, hx, hi⟩
    · have hone : i ∈ st.seen ∨ i = g.id := by
        unfold Profit.State.advance at h
        split_ifs at h
        · exact .inl h
        · exact (List.mem_cons.mp h).symm
        · exact (List.mem_cons.mp h).symm
      exact hone.imp_right fun h => ⟨g, List.mem_cons_self, h.symm⟩
    · exact .inr ⟨x, List.mem_cons_of_mem _ hx, hi⟩

end

theorem identified_iff {facts : List LedgerFact} : Identified facts ↔ (facts.map LedgerFact.identity).Nodup := by
  refine ⟨Identified.identities, fun hn => ?_⟩
  have hids : (facts.map LedgerFact.id).Nodup := by
    have h := hn.map text_injective
    rwa [List.map_map] at h
  refine ⟨hn, hids, fun rows hnew f hf => storeFacts_get hn hnew hf, ?_⟩
  intro readExtra names options owner earlier f later hsort hseen
  have hperm := Profit.sortFacts_perm (facts.map (LedgerFact.toProfit readExtra))
  have hsorted : ((earlier ++ f :: later).map Profit.LedgerFact.id).Nodup := by
    rw [← hsort, (hperm.map _).nodup_iff, List.map_map]
    exact hids
  rw [List.map_append, List.map_cons, List.nodup_append] at hsorted
  rcases mem_seen hseen with h | ⟨g, hg, hi⟩
  · cases h
  · exact hsorted.2.2 _ (List.mem_map_of_mem hg) _ List.mem_cons_self hi

/-! ## The facts of a scan -/

variable {decodeEventLog : IndexedEvent → Except FinancialErr (Option (EventName × Args))} {events : List IndexedEvent}
  {blocks : List CanonicalBlock} {c : FinancialContext} {facts : List LedgerFact}

theorem identities_nodup_iff (hn : (events.map logKey).Nodup)
    (h : normalizeFinancialFacts decodeEventLog events blocks c = .ok facts) :
    (facts.map LedgerFact.identity).Nodup ↔ ¬MovesAsk decodeEventLog events c := by
  simp only [normalizeFinancialFacts, scan, bind_eq_ok, Except.ok.injEq] at h
  obtain ⟨s, ⟨ds, hds, c', hc, ms, hms, s₁, h₁, hr⟩, rfl⟩ := h
  have hsorted : MovesAsk decodeEventLog (events.insertionSort (eventLe · ·)) c ↔ MovesAsk decodeEventLog events c := by
    simp only [MovesAsk, Logged, List.mem_insertionSort]
  have hkeys : (ds.map fun d => logKey d.event).Nodup := by
    have hevents := ((List.perm_insertionSort (eventLe · · = true) events).map logKey).nodup_iff.mpr hn
    have hsub := (decodeAll_sublist hds).map logKey
    rw [List.map_map] at hsub
    exact hsub.nodup hevents
  obtain ⟨⟨fs, ho, hof, hnodup⟩, hm⟩ := events_emit hkeys h₁
  obtain ⟨fs', ho', hrest⟩ := rest_identity hr
  obtain ⟨hmoves, hof'⟩ := allMovements_identity hkeys hms
  have hsub : (fs'.map LedgerFact.identity).Sublist (ms.map Movement.identity) := by
    rw [hrest]
    exact hm ▸ List.filter_sublist.map _
  have hapart : ∀ i ∈ fs.map LedgerFact.identity, ∀ j ∈ fs'.map LedgerFact.identity, i ≠ j := by
    intro i hi j hj hij
    obtain ⟨f, hf, rfl⟩ := List.mem_map.mp hi
    obtain ⟨m, hm, rfl⟩ := List.mem_map.mp (hsub.subset hj)
    obtain ⟨d, hd, ht, hkey⟩ := hof f hf
    obtain ⟨d', hd', ht', he⟩ := hof' m hm
    have hsame : logKey d.event = logKey d'.event := by
      rw [← hkey, hij, ← he]
      rfl
    exact ht (List.inj_on_of_nodup_map hkeys hd hd' hsame ▸ ht')
  rw [((List.perm_insertionSort (factLe · · = true) s.output).map _).nodup_iff, ho', ho, List.nil_append,
    List.map_append, List.nodup_append, hnodup, ← hsorted, ← doubles_iff hds hc]
  push Not
  exact ⟨fun h => h.1, fun h => ⟨h, hsub.nodup hmoves, hapart⟩⟩

/-- **The identities of facts.** The facts of logs with keys of their own have identities of their own, and so are
stored each with its kind and used each by the reducer, if and only if no ask is escrowed or given back in them. -/
theorem facts_identified (hn : (events.map logKey).Nodup)
    (h : normalizeFinancialFacts decodeEventLog events blocks c = .ok facts) :
    Identified facts ↔ ¬MovesAsk decodeEventLog events c :=
  identified_iff.trans (identities_nodup_iff hn h)

/-! ## An ask, and the withdrawal of its shares -/

namespace Sample

/-- The purchase, the ask, the bid and their trade. -/
def askScan : Scan := scanOf 1 [0, 0, 1, 1, 2, 3, 3]

def askFacts : List LedgerFact := (askScan.facts decodeLog).toOption.getD []

def plainExtra (_ : Args) : Profit.Extra := ⟨none, none, true, none, .unknown⟩

/-- The release of an ask after its last fill; its shares were deferred, and go to somebody else. -/
def withdrawalLogs : List (Address × EventName × Args) :=
  [(addr 90, .OrderReleased, .of [("orderId", .bigint 1), ("owner", .address Sample.alice),
    ("returnedUnits", .bigint 0), ("returnedPayment", .bigint 0)]),
   (addr 90, .OrderSharesDeferred, .of [("orderId", .bigint 1), ("owner", .address Sample.alice),
    ("units", .bigint 500000)]),
   transfer (addr 90) Sample.bob 0 500000,
   (addr 90, .OrderSharesWithdrawn, .of [("orderId", .bigint 1), ("owner", .address Sample.alice),
    ("recipient", .address Sample.bob), ("units", .bigint 500000)])]

def decodeWithdrawal (event : IndexedEvent) : Except FinancialErr (Option (EventName × Args)) :=
  .ok ((withdrawalLogs[event.logIndex]?).map Prod.snd)

def withdrawal : Scan where
  events := withdrawalLogs.mapIdx fun i x => ⟨1, 3, 103, 904, 0, i, x.1, [], [], .confirmed⟩
  blocks := [⟨1, 3, 103, 102, 36, .confirmed⟩]
  context :=
    { deployment, markets := {Sample.market}, listings := fun _ => none, trackedAccounts := ∅
      orders := fun orderId => if orderId = 1 then
        some (.of [("vault", .address Sample.market), ("outcomeId", .number 0), ("side", .number 1),
          ("unitPrice", .bigint 500000)]) else none }

def withdrawalFacts : List LedgerFact := (withdrawal.facts decodeWithdrawal).toOption.getD []

end Sample

/-- The ask of the sample: its creation and its listing have one identity. The row keeps the kind of the order with
the fact of the listing, and the reducer skips the listing. -/
theorem ask_identified_once : (Sample.askScan.events.map logKey).Nodup ∧
    Sample.askScan.facts Sample.decodeLog = .ok Sample.askFacts ∧ ¬Identified Sample.askFacts ∧
    Sample.askFacts.map LedgerFact.kind =
      [.primaryBuy, .orderCreated, .listingCreated, .orderCreated, .listingFilled] ∧
    ((storeFacts .empty Sample.askFacts).get ((901, 3), 0)).map (fun row => (row.kind, row.fact.kind)) =
      some (.orderCreated, .listingCreated) ∧
    (Profit.reduce (fun _ => "") ⟨true, none, none, none⟩ Sample.alice
      (Sample.askFacts.map (LedgerFact.toProfit Sample.plainExtra))).seen.length = 4 :=
  ⟨by decide +kernel, rfl, fun h => absurd h.identities (by decide +kernel), by decide +kernel, by decide +kernel,
    by decide +kernel⟩

/-- The shares of an ask that are withdrawn by another are two facts, with identities of their own. -/
theorem facts_identified_sample : (Sample.withdrawal.events.map logKey).Nodup ∧
    Sample.withdrawal.facts Sample.decodeWithdrawal = .ok Sample.withdrawalFacts ∧
    Sample.withdrawalFacts.map (fun f => (f.kind, f.factIndex)) =
      [(.orderReleased, 0), (.orderSharesDeferred, 0), (.listingReturned, 0), (.shareTransfer, 1)] ∧
    Identified Sample.withdrawalFacts := by
  have hkeys : (Sample.withdrawal.events.map logKey).Nodup := by decide +kernel
  have hfacts : Sample.withdrawal.facts Sample.decodeWithdrawal = .ok Sample.withdrawalFacts := rfl
  refine ⟨hkeys, hfacts, by decide +kernel, (facts_identified hkeys hfacts).mpr ?_⟩
  have hlogs : ∀ x ∈ Sample.withdrawalLogs.map Prod.snd,
      x.1 ≠ .OrderCreated ∧ (x.1 = .OrderReleased → x.2.get "returnedUnits" = some (.bigint 0)) := by decide +kernel
  have hlogged : ∀ name a, Logged Sample.decodeWithdrawal Sample.withdrawal.events Sample.withdrawal.context name a →
      (name, a) ∈ Sample.withdrawalLogs.map Prod.snd := by
    rintro name a ⟨e, -, -, hdec⟩
    obtain ⟨x, hx, hxa⟩ := Option.map_eq_some_iff.mp (Except.ok.inj hdec)
    exact hxa ▸ List.mem_map_of_mem (List.mem_of_getElem? hx)
  rintro ⟨-, ⟨a, ha, -⟩ | ⟨a, ha, orderId, units, -, -, hunits, hpos⟩⟩
  · exact (hlogs _ (hlogged _ _ ha)).1 rfl
  · rw [Args.amount, (hlogs _ (hlogged _ _ ha)).2 rfl] at hunits
    obtain rfl := Except.ok.inj hunits
    exact absurd hpos (lt_irrefl 0)

end Cpredict.Financial
