import Cpredict.Book.Escrow
import Cpredict.Financial.Shares
import Cpredict.Protocol.Shares

/-!
# The facts and the shares on the chain

The facts of scans, one after the other, without a gap among them, move as many shares as the transfers that the
scans have seen (`scans_same`). If these are the transfers that the vaults have logged, the facts alone tell every
balance (`facts_tell_shares`).
-/

namespace Cpredict.Financial

open Outcome Indexer Transfers Tally

/-- What one call of `project` normalizes. -/
structure Scan where
  events : List IndexedEvent
  blocks : List CanonicalBlock
  context : FinancialContext

section

variable (decodeEventLog : IndexedEvent → Except FinancialErr (Option (EventName × Args)))

def Scan.facts (x : Scan) : Except FinancialErr (List LedgerFact) :=
  normalizeFinancialFacts decodeEventLog x.events x.blocks x.context

def Scan.movements (x : Scan) : Except FinancialErr (List Movement) := loggedMovements decodeEventLog x.events x.context

end

variable {decodeEventLog : IndexedEvent → Except FinancialErr (Option (EventName × Args))} {mp : Address}
  {scans : List Scan}
  {fss : List (List LedgerFact)} {mss : List (List Movement)}

/-- The facts of all scans move as many shares as the transfers that they have seen. -/
theorem scans_same (ht : Typed decodeEventLog) (hmp : ∀ x ∈ scans, x.context.deployment.marketplace = mp)
    (hf : scans.mapM (Scan.facts decodeEventLog) = .ok fss) (hm : scans.mapM (Scan.movements decodeEventLog) = .ok mss)
    (hg : ∀ fs ∈ fss, ∀ f ∈ fs, f.kind ≠ .coverageGap) :
    Same (fss.flatten.flatMap (LedgerFact.shareMoves mp)) (mss.flatten.map Movement.move) := by
  induction scans generalizing fss mss with
  | nil =>
    obtain rfl := Except.ok.inj hf
    obtain rfl := Except.ok.inj hm
    exact .refl _
  | cons x scans ih =>
    rw [List.mapM_cons] at hf hm
    simp only [bind_eq_ok] at hf hm
    obtain ⟨fs, hfs, fss', hf, hp⟩ := hf
    obtain ⟨ms, hms, mss', hm, hq⟩ := hm
    obtain rfl := Except.ok.inj hp
    obtain rfl := Except.ok.inj hq
    obtain ⟨ms', hms', hsame⟩ := facts_same ht hfs (hg fs List.mem_cons_self)
    obtain rfl := Except.ok.inj (hms.symm.trans hms')
    rw [hmp x List.mem_cons_self] at hsame
    rw [List.flatten_cons, List.flatten_cons, List.flatMap_append, List.map_append]
    exact hsame.append (ih (fun y hy => hmp y (List.mem_cons_of_mem _ hy)) hf hm
      fun fs hfs => hg fs (List.mem_cons_of_mem _ hfs))

/-- **The facts tell the shares.** However the history of the chain is divided into scans, if the scans have seen
the transfers that the vaults have logged, and no fact is a gap, then every account has as many shares of each
outcome as the facts move to it less those they move from it. -/
theorem facts_tell_shares {D : Cpredict.Deployment} {w : Core} (hw : Core.Arises D w) (ht : Typed decodeEventLog)
    (hmp : ∀ x ∈ scans, x.context.deployment.marketplace = mp)
    (hf : scans.mapM (Scan.facts decodeEventLog) = .ok fss) (hm : scans.mapM (Scan.movements decodeEventLog) = .ok mss)
    (hall : mss.flatten.map Movement.move = shareMoves w.log) (hg : ∀ fs ∈ fss, ∀ f ∈ fs, f.kind ≠ .coverageGap)
    (market : Address) (o : Nat) {a : Address} (ha : a ≠ 0) :
    (w.vaults market).shares.balanceOf o a +
        tally (sent (market, o) a) (fss.flatten.flatMap (LedgerFact.shareMoves mp)) =
      tally (received (market, o) a) (fss.flatten.flatMap (LedgerFact.shareMoves mp)) := by
  have hsame := scans_same ht hmp hf hm hg
  rw [hall] at hsame
  exact hsame.received_add (hw.inOrder.ledgered.balance market o ha)

/-! ## The trade and the claim of the sample market -/

namespace Sample

def deployment : Financial.Deployment where
  factory := addr 1
  marketplace := addr 90
  feeVault := addr 7
  bondEscrow := addr 6
  paymentToken := addr 2
  entryPoint := addr 15
  orderbook := true
  legacy := false

/-- The traded shares of the sample orderbook; then the market is resolved, and the winner claims. -/
def settled : List Cpredict.Sample.Act :=
  Sample.traded ++ [.wait 4000, .core Sample.creator (.resolve Sample.market 0 0),
    .core Sample.alice (.claimWinningsFor Sample.market Sample.alice)]

theorem settled_arises : Core.Arises Cpredict.Sample.deployment (Sample.acted settled).core :=
  .orderbook True _ (Sample.acted_reachable settled) rfl

def transfer (source target : Address) (outcomeId units : Nat) : Address × EventName × Args :=
  (Sample.market, .TransferSingle, .of [("from", .address source), ("to", .address target), ("id", .bigint outcomeId),
    ("value", .bigint units)])

def order (orderId : Nat) (owner : Address) (side units lockedPayment : Nat) : Address × EventName × Args :=
  (addr 90, .OrderCreated, .of [("orderId", .bigint orderId), ("vault", .address Sample.market),
    ("owner", .address owner),
    ("outcomeId", .number 0), ("side", .number side), ("units", .bigint units),
    ("lockedPayment", .bigint lockedPayment)])

/-- The logs of the first block: a purchase, an ask, a bid, and their trade. -/
def tradeLogs : List (Address × EventName × Args) :=
  [transfer 0 Sample.alice 0 3000000,
   (Sample.market, .PrimaryPurchased, .of [("buyer", .address Sample.alice), ("outcomeId", .bigint 0),
     ("filledUnits", .bigint 3000000),
    ("payment", .bigint 3000000), ("earlyBirdWeight", .number 3)]),
   transfer Sample.alice (addr 90) 0 2000000, order 1 Sample.alice 1 2000000 0, order 2 Sample.bob 0 1500000 900000,
   transfer (addr 90) Sample.bob 0 1500000,
   (addr 90, .TradeExecuted, .of [("orderId", .bigint 1), ("vault", .address Sample.market),
     ("buyer", .address Sample.bob),
    ("seller", .address Sample.alice), ("outcomeId", .number 0), ("units", .bigint 1500000), ("gross", .bigint 750000),
    ("platformFee", .bigint 0), ("creatorFee", .bigint 7500), ("escrowed", .bool true),
    ("remainingAskUnits", .bigint 500000)])]

/-- The logs of the second block: the resolution, and a claim of the winner. -/
def claimLogs : List (Address × EventName × Args) :=
  [(Sample.market, .MarketResolved, .of [("winningOutcome", .bigint 0), ("winnerPool", .bigint 2700000),
    ("earlyBirdPool", .bigint 48000)]),
   transfer Sample.alice 0 0 1000000,
   (Sample.market, .WinnerClaimed, .of [("owner", .address Sample.alice), ("burnedUnits", .bigint 1000000),
     ("payout", .bigint 900000)])]

def logsOf (blockNumber : Nat) : List (Address × EventName × Args) := if blockNumber = 1 then tradeLogs else claimLogs

def decodeLog (event : IndexedEvent) : Except FinancialErr (Option (EventName × Args)) :=
  .ok (((logsOf event.blockNumber)[event.logIndex]?).map Prod.snd)

theorem decodeLog_mem {event : IndexedEvent} {x : EventName × Args} (h : decodeLog event = .ok (some x)) :
    x ∈ (tradeLogs ++ claimLogs).map Prod.snd := by
  obtain ⟨y, hy, rfl⟩ := Option.map_eq_some_iff.mp (Except.ok.inj h)
  refine List.mem_map_of_mem ?_
  have hmem := List.mem_of_getElem? hy
  unfold logsOf at hmem
  split at hmem
  · exact List.mem_append_left _ hmem
  · exact List.mem_append_right _ hmem

theorem decodeLog_typed : Typed decodeLog where
  trade := by
    have htrade : ∀ x ∈ (tradeLogs ++ claimLogs).map Prod.snd, x.1 = .TradeExecuted →
      x.2.get "escrowed" = some (.bool true) := by
      decide +kernel
    exact fun e a h => ⟨true, htrade _ (decodeLog_mem h) rfl⟩
  listing := by
    have hlisting : ∀ x ∈ (tradeLogs ++ claimLogs).map Prod.snd, x.1 ≠ .ListingFilled := by decide +kernel
    exact fun e a h => absurd rfl (hlisting _ (decodeLog_mem h))

/-- A scan of one block, by the transactions of its logs. -/
def scanOf (blockNumber : Nat) (transactions : List Nat) : Scan where
  events := (transactions.zip (logsOf blockNumber)).mapIdx fun i x =>
    ⟨1, blockNumber, 100 + blockNumber, 900 + x.1, x.1, i, x.2.1, [], [], .confirmed⟩
  blocks := [⟨1, blockNumber, 100 + blockNumber, 99 + blockNumber, 12 * blockNumber, .confirmed⟩]
  context := ⟨deployment, {Sample.market}, fun _ => none, fun _ => none, ∅⟩

def history : List Scan := [scanOf 1 [0, 0, 1, 1, 2, 3, 3], scanOf 2 [0, 1, 1]]

/-- What the two scans tell. -/
def told : List (List LedgerFact) := (history.mapM (Scan.facts decodeLog)).toOption.getD []

theorem history_facts : history.mapM (Scan.facts decodeLog) = .ok told := rfl

theorem told_kinds : told.flatten.map LedgerFact.kind =
    [.primaryBuy, .orderCreated, .listingCreated, .orderCreated, .listingFilled, .marketResolved, .winnerClaimed] := by
  decide +kernel

theorem history_movements : ∃ mss, history.mapM (Scan.movements decodeLog) = .ok mss ∧
    mss.flatten.map Movement.move = shareMoves (Sample.acted settled).core.log :=
  ⟨_, rfl, by decide +kernel⟩

theorem history_marketplace : ∀ x ∈ history, x.context.deployment.marketplace = deployment.marketplace := by
  simp [history, scanOf]

/-- No fact of the scans is a gap. -/
theorem told_whole : ∀ fs ∈ told, ∀ f ∈ fs, f.kind ≠ .coverageGap := by
  intro fs hfs f hf hgap
  have hmem := List.mem_map_of_mem (f := LedgerFact.kind) (List.mem_flatten_of_mem hfs hf)
  rw [told_kinds, hgap] at hmem
  simp at hmem

end Sample

/-- The facts of a purchase, a listing, its trade and a claim, in two scans, tell the shares that the buyer of the
listing has. -/
theorem facts_tell_shares_sample : Sample.history.mapM (Scan.facts Sample.decodeLog) = .ok Sample.told ∧
    Sample.told.flatten.map LedgerFact.kind =
      [.primaryBuy, .orderCreated, .listingCreated, .orderCreated, .listingFilled, .marketResolved, .winnerClaimed] ∧
    ((Sample.acted Sample.settled).core.vaults Sample.market).shares.balanceOf 0 Sample.bob = 1500000 ∧
    ((Sample.acted Sample.settled).core.vaults Sample.market).shares.balanceOf 0 Sample.bob +
        tally (sent (Sample.market, 0) Sample.bob) (Sample.told.flatten.flatMap (LedgerFact.shareMoves (addr 90))) =
      tally (received (Sample.market, 0) Sample.bob)
        (Sample.told.flatten.flatMap (LedgerFact.shareMoves (addr 90))) := by
  obtain ⟨mss, hm, hall⟩ := Sample.history_movements
  exact ⟨Sample.history_facts, Sample.told_kinds, by decide +kernel, facts_tell_shares Sample.settled_arises
    Sample.decodeLog_typed
    Sample.history_marketplace Sample.history_facts hm hall Sample.told_whole Sample.market 0
      (a := Sample.bob) (by decide)⟩

end Cpredict.Financial
