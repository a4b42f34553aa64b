import Cpredict.Indexer.OrderbookRefinement
import Cpredict.Lib.Abi

/-!
# The pages of the order book

The pages of a listing are, one after the other, the orders of the contract (`Refines.listing`). The total of a page
is that of the contract if an order comes after the cursor; on a page without items it is zero
(`orderbook_page_total`).
-/

namespace Cpredict

open Finset

namespace Indexer

/-- The table has the events of the orderbook, and what the chain has run is behind them. -/
structure Refines (D : Deployment) (q : Prop) (decodeEventLog : IndexedEvent → Option BookEvent) (chainId : Nat)
    (W : World) (events : List IndexedEvent) (rows : List OrderbookRow) : Prop where
  reachable : World.Reachable D q W
  mined : Mined D decodeEventLog chainId W.core.log events
  rows : (ownRows rows chainId D.marketplace).Perm (minedRows D decodeEventLog events)

section

variable {D : Deployment} {q : Prop} {W : World} {decodeEventLog : IndexedEvent → Option BookEvent} {chainId : Nat}
  {events : List IndexedEvent} {rows : List OrderbookRow} {market owner : Option Address} {c : Created}

theorem creations_about {log : Cpredict.Log} (hc : c ∈ creations log) :
    c ∈ (historyOf log c.orderId).filterMap createdArgs := by
  obtain ⟨e, he, hce⟩ := List.mem_filterMap.mp hc
  refine List.mem_filterMap.mpr ⟨e, List.mem_filter.mpr ⟨he, ?_⟩, hce⟩
  cases e with
  | OrderCreated =>
    obtain rfl := Option.some.inj hce
    exact decide_eq_true rfl
  | _ => cases hce

/-- A created order, as the projection shows it and as the contract has it. -/
structure Agrees (b : Book) (rows : List OrderbookRow) (chainId : Nat) (marketplace : Address) (c : Created) :
    Prop where
  item : (shown rows chainId marketplace c).item = itemOf b c.orderId
  payment : (shown rows chainId marketplace c).lockedPayment = (b.orders c.orderId).lockedPayment
  vault : c.vault = (b.orders c.orderId).vault
  owner : c.owner = (b.orders c.orderId).owner

theorem Refines.agrees (h : Refines D q decodeEventLog chainId W events rows) (hc : c ∈ creations W.core.log) :
    Agrees W.book rows chainId D.marketplace c := by
  have hn := h.reachable.numbered
  have hid : c.orderId ∈ List.range' 1 (W.book.nextOrderId - 1) := by
    rw [← hn.ids]
    exact List.mem_map_of_mem hc
  have hrange := List.mem_range'_1.mp hid
  have hpos := hn.next
  obtain ⟨o₀, hl⟩ := h.reachable.recorded.life c.orderId (by omega) (by omega)
  obtain ⟨hcreated, hpolicy, hshow⟩ := hl.shows
  have hmem := creations_about hc
  rw [hcreated] at hmem
  have hceq : c = creationOf c.orderId o₀ := List.mem_singleton.mp hmem
  have hshown : shown rows chainId D.marketplace c = ⟨creationOf c.orderId o₀, lastOf (historyOf W.core.log c.orderId),
      some (W.book.orderAllowsPartialFills c.orderId)⟩ := by
    unfold shown
    rw [lastStatus_eq h.mined h.rows, fillPolicy_eq h.mined h.rows hpolicy, ← hceq]
  have ht := hl.terms
  refine ⟨?_, ?_, ?_, ?_⟩
  · rw [hshown]
    unfold itemOf
    rw [← hshow.units, ← hshow.payment, ← hshow.active, ht.vault, ht.owner, ht.outcomeId, ht.side, ht.unitPrice,
      ht.expiresAt, ht.autoMatch]
    rfl
  · rw [hshown]
    exact hshow.payment
  · rw [ht.vault, hceq]
    rfl
  · rw [ht.owner, hceq]
    rfl

/-- The rows of `projected`, by id. -/
abbrev shownRows (W : World) (rows : List OrderbookRow) (chainId : Nat) (marketplace : Address)
    (market owner : Option Address) : List Projected :=
  ((creations W.core.log).filter fun c => picks market owner c.vault c.owner).map (shown rows chainId marketplace)

/-- What is computed of the rows from the order is computed of the ids. -/
theorem Refines.map_shown {β : Type} (h : Refines D q decodeEventLog chainId W events rows) {f : Projected → β}
    {g : Nat → β} (hfg : ∀ c ∈ creations W.core.log, f (shown rows chainId D.marketplace c) = g c.orderId) :
    (shownRows W rows chainId D.marketplace market owner).map f = (orderIds W.book market owner).map g := by
  unfold orderIds
  rw [← h.reachable.numbered.ids, List.filter_map, List.map_map, List.map_map]
  have hfilter : (creations W.core.log).filter (fun c => picks market owner c.vault c.owner) =
      (creations W.core.log).filter ((fun id => picks market owner (W.book.orders id).vault (W.book.orders id).owner) ∘
        Created.orderId) := by
    apply List.filter_congr
    intro c hc
    have ha := h.agrees hc
    rw [Function.comp_apply, ← ha.vault, ← ha.owner]
  rw [hfilter]
  apply List.map_congr_left
  intro c hc
  exact hfg c (List.mem_filter.mp hc).1

theorem Refines.keys (h : Refines D q decodeEventLog chainId W events rows) :
    (shownRows W rows chainId D.marketplace market owner).map (fun p => p.created.orderId) =
      orderIds W.book market owner := by
  rw [h.map_shown (g := id) fun _ _ => rfl, List.map_id]

theorem orderIds_ascending (b : Book) (market owner : Option Address) :
    (orderIds b market owner).Pairwise (· < ·) :=
  (List.pairwise_lt_range' 1 Nat.one_pos).filter _

theorem Refines.ascending (h : Refines D q decodeEventLog chainId W events rows) :
    Keyset.Ascending (fun p : Projected => p.created.orderId)
      (shownRows W rows chainId D.marketplace market owner) := by
  apply List.pairwise_map.mp
  rw [h.keys]
  exact orderIds_ascending _ _ _

theorem Refines.perm (h : Refines D q decodeEventLog chainId W events rows) :
    (projected rows chainId D.marketplace market owner).Perm (shownRows W rows chainId D.marketplace market owner) :=
  projected_perm h.mined h.rows market owner

/-- The rows after a cursor. -/
theorem Refines.after (h : Refines D q decodeEventLog chainId W events rows) (cursor : Nat) :
    Keyset.after (fun p => p.created.orderId) (projected rows chainId D.marketplace market owner) cursor =
      (shownRows W rows chainId D.marketplace market owner).filter fun p => cursor < p.created.orderId :=
  Keyset.sorted_eq (h.ascending.filter _) (h.perm.filter _)

/-! ## Pages -/

/-- A page of the query, as pages of the rows. -/
theorem orderbookPage_eq (rows : List OrderbookRow) (chainId : Nat) (marketplace : Address)
    (market owner : Option Address) (cursor : Nat) :
    ((orderbookPage rows chainId marketplace market owner cursor).items,
      (orderbookPage rows chainId marketplace market owner cursor).nextCursor) =
    ((Keyset.page (fun p => p.created.orderId) pageSize (projected rows chainId marketplace market owner) cursor).map
        Projected.item,
      Keyset.next (fun p => p.created.orderId) pageSize (projected rows chainId marketplace market owner) cursor) := by
  unfold orderbookPage Keyset.next Keyset.page
  simp only [List.take_take, List.length_take]
  have hmin : min pageSize (pageSize + 1) = pageSize := by omega
  have hlast : ∀ l : List Projected, (l.map Projected.item).getLast?.map OrderItem.id =
      l.getLast?.map fun p => p.created.orderId := by
    intro l
    rw [List.getLast?_map, Option.map_map]
    rfl
  rw [hmin, hlast]
  congr 1
  generalize (Keyset.after (fun p : Projected => p.created.orderId) (projected rows chainId marketplace market owner)
    cursor).length = n
  by_cases hn : pageSize < n
  · rw [if_pos (by omega), if_pos hn]
  · rw [if_neg (by omega), if_neg hn]

/-- The pages list the orders of the contract that the filters select, each once, and there are finitely many. -/
theorem Refines.listing (h : Refines D q decodeEventLog chainId W events rows) :
    (∃ ps, Listing rows chainId D.marketplace market owner 0 ps) ∧
      ∀ ps, Listing rows chainId D.marketplace market owner 0 ps →
        ps.flatten = (orderIds W.book market owner).map (itemOf W.book) := by
  have hkeys : ((projected rows chainId D.marketplace market owner).map fun p => p.created.orderId).Nodup :=
    ((h.perm.map _).nodup_iff).mpr h.ascending.nodup
  refine ⟨Keyset.pages_end hkeys (orderbookPage_eq rows chainId D.marketplace market owner) 0, fun ps hps => ?_⟩
  rw [Keyset.Pages.flatten hkeys (by decide) (orderbookPage_eq rows chainId D.marketplace market owner) hps, h.after]
  have hall : (shownRows W rows chainId D.marketplace market owner).filter (fun p => decide (0 < p.created.orderId)) =
      shownRows W rows chainId D.marketplace market owner := by
    apply List.filter_eq_self.mpr
    intro p hp
    have hid : p.created.orderId ∈ orderIds W.book market owner := by
      rw [← h.keys]
      exact List.mem_map_of_mem hp
    have hrange := List.mem_range'_1.mp (List.mem_filter.mp hid).1
    exact decide_eq_true (by omega)
  rw [hall]
  exact h.map_shown fun c hc => (h.agrees hc).item

/-! ## The total -/

theorem orderIds_all (b : Book) : orderIds b none none = List.range' 1 (b.nextOrderId - 1) :=
  List.filter_eq_self.mpr fun _ _ => by simp [picks]

theorem sum_range'_one {f : Nat → Nat} (h0 : f 0 = 0) (n : Nat) :
    ((List.range' 1 n).map f).sum = ∑ id ∈ range (n + 1), f id := by
  induction n with
  | zero => rw [sum_range_one, h0]; rfl
  | succ n ih =>
    have hlast : 1 + 1 * n = n + 1 := by omega
    rw [List.range'_concat, List.map_append, List.sum_append, ih, sum_range_succ _ (n + 1), hlast]
    simp

/-- The payments of all rows are what the contract has locked. -/
theorem Refines.payments (h : Refines D q decodeEventLog chainId W events rows) :
    ((projected rows chainId D.marketplace none none).map Projected.lockedPayment).sum = W.book.totalLockedPayment := by
  have hpos := h.reachable.numbered.next
  have hblank : W.book.orders 0 = .blank := (h.reachable.inv.custody.fresh 0 (.inl rfl)).1
  have hids : W.book.nextOrderId - 1 + 1 = W.book.nextOrderId := by omega
  have hshown : (shownRows W rows chainId D.marketplace none none).map Projected.lockedPayment =
      (orderIds W.book none none).map fun id => (W.book.orders id).lockedPayment :=
    h.map_shown fun c hc => (h.agrees hc).payment
  rw [(h.perm.map _).sum_eq, hshown, orderIds_all, h.reachable.inv.escrowed.payment,
    sum_range'_one (by rw [hblank]; rfl), hids]

/-- No row comes after a cursor that has reached the last order. -/
theorem Refines.after_nil (h : Refines D q decodeEventLog chainId W events rows) (cursor : Nat) :
    Keyset.after (fun p => p.created.orderId) (projected rows chainId D.marketplace none none) cursor = [] ↔
      ¬cursor + 1 < W.book.nextOrderId := by
  have hkeys : (shownRows W rows chainId D.marketplace none none).map (fun p => p.created.orderId) =
      List.range' 1 (W.book.nextOrderId - 1) := by rw [h.keys, orderIds_all]
  rw [h.after, List.filter_eq_nil_iff]
  constructor
  · intro hnone hlt
    have hlast : W.book.nextOrderId - 1 ∈ List.range' 1 (W.book.nextOrderId - 1) :=
      List.mem_range'_1.mpr (by omega)
    rw [← hkeys] at hlast
    obtain ⟨p, hp, hid⟩ := List.mem_map.mp hlast
    exact hnone p hp (decide_eq_true (by omega))
  · intro hlt p hp
    have hid := List.mem_map_of_mem (f := fun p : Projected => p.created.orderId) hp
    rw [hkeys] at hid
    have hrange := List.mem_range'_1.mp hid
    have hle : ¬cursor < p.created.orderId := by omega
    simpa using hle

theorem Refines.total (h : Refines D q decodeEventLog chainId W events rows) (cursor : Nat) :
    (orderbookPage rows chainId D.marketplace none none cursor).totalLockedPayment = W.book.totalLockedPayment ↔
      cursor + 1 < W.book.nextOrderId ∨ W.book.totalLockedPayment = 0 := by
  have hafter := h.after_nil cursor
  unfold orderbookPage
  simp only
  rw [h.payments]
  by_cases hlt : cursor + 1 < W.book.nextOrderId
  · rw [if_neg]
    · exact iff_of_true rfl (.inl hlt)
    · rw [List.isEmpty_iff, List.take_eq_nil_iff]
      rintro (h0 | hnil)
      · cases h0
      · exact hafter.mp hnil hlt
  · rw [if_pos]
    · constructor
      · exact fun h0 => .inr h0.symm
      · rintro (hlt' | h0)
        · exact absurd hlt' hlt
        · exact h0.symm
    · rw [hafter.mpr hlt]
      rfl

end

/-- Once the events of a run of the contract have been projected, in whatever batches, the pages list the orders of the
contract as they are there, and the total is that of the contract as long as an order comes after the cursor. -/
theorem orderbook_refined {D : Deployment} {q : Prop} {W : World} {decodeEventLog : IndexedEvent → Option BookEvent}
    {chainId : Nat} {events : List IndexedEvent} {rows₀ : List OrderbookRow} {batches : List (List IndexedEvent)}
    (h : World.Reachable D q W) (hm : Mined D decodeEventLog chainId W.core.log events)
    (hf : ∀ x ∈ rows₀, Foreign D decodeEventLog chainId events x)
    (hb : ∀ e, (∃ batch ∈ batches, e ∈ batch) ↔ e ∈ events) :
    (∀ market owner,
      (∃ ps, Listing (batches.foldl (projectOrderbook decodeEventLog D.marketplace) rows₀) chainId D.marketplace market
        owner 0 ps) ∧
      ∀ ps, Listing (batches.foldl (projectOrderbook decodeEventLog D.marketplace) rows₀) chainId D.marketplace market
        owner 0 ps → ps.flatten = (orderIds W.book market owner).map (itemOf W.book)) ∧
    (∀ id, (W.book.orders id).active = false →
      (itemOf W.book id).remainingUnits = 0 ∧ (itemOf W.book id).lockedPayment = 0) ∧
    ∀ cursor, (orderbookPage (batches.foldl (projectOrderbook decodeEventLog D.marketplace) rows₀) chainId D.marketplace
        none none cursor).totalLockedPayment = W.book.totalLockedPayment ↔
      cursor + 1 < W.book.nextOrderId ∨ W.book.totalLockedPayment = 0 := by
  have hr : Refines D q decodeEventLog chainId W events
      (batches.foldl (projectOrderbook decodeEventLog D.marketplace) rows₀) := ⟨h, hm, table_perm hm hf hb⟩
  exact ⟨fun market owner => hr.listing, fun id hi => h.inv.escrowed.orders.inactive id hi, hr.total⟩

/-! ## A sample order book -/

namespace Sample

open Cpredict.Sample (deployment acted bid)

/-- `DefaultAllowPartialFillsUpdated(bool)` -/
def DEFAULT_UPDATED : Bytes32 := 0xf59adf9be83fc23e542492c8322db0cc91368303fa77b156b0f8ad86c668682a

/-- `OrderFillPolicySnapshotted(uint256,bool)` -/
def SNAPSHOTTED : Bytes32 := 0xb68a54054285e3e704dea93eee579faffcf066a262c1017c6a21a0c56a026f38

/-- `OrderCreated(uint256,address,address,uint8,uint8,uint256,uint256,uint64,bool,uint256)` -/
def CREATED : Bytes32 := 0x475acc1cd607abbab4d1c30a3dd4b8506ea6aa40ad869f676f1ba6ae3ca6b1e6

/-- The topics and the data of the events that the sample has. -/
def encoded : BookEvent → List Bytes32 × Bytes
  | .DefaultAllowPartialFillsUpdated allowed => ([DEFAULT_UPDATED], Abi.word allowed.toNat)
  | .OrderFillPolicySnapshotted id allowed => ([SNAPSHOTTED, id], Abi.word allowed.toNat)
  | .OrderCreated id vault owner outcomeId side units unitPrice expiresAt autoMatch lockedPayment =>
    ([CREATED, id, vault.word, owner.word],
      [outcomeId, if side = .ask then 1 else 0, units, unitPrice, expiresAt, autoMatch.toNat, lockedPayment].flatMap
        Abi.word)
  | _ => ([], [])

/-- The decoder, on these events. -/
def decoded (e : IndexedEvent) : Option BookEvent :=
  let field := fun i => (Abi.wordAt e.data (32 * i)).getD 0
  match e.topics with
  | [topic] => if topic = DEFAULT_UPDATED then some (.DefaultAllowPartialFillsUpdated (decide (field 0 = 1))) else none
  | [topic, id] => if topic = SNAPSHOTTED then some (.OrderFillPolicySnapshotted id (decide (field 0 = 1))) else none
  | [topic, id, vault, owner] =>
    if topic = CREATED then
      some (.OrderCreated id (addr vault) (addr owner) (field 0) (if field 1 = 1 then .ask else .bid)
        (field 2) (field 3)
        (field 4) (decide (field 5 = 1)) (field 6))
    else none
  | _ => none

/-- An entry of the log in a block; what the orderbook has not emitted comes from the token. -/
def indexed (x : LogEntry × Nat) : IndexedEvent :=
  let e := ((bookEvent x.1.event).map encoded).getD ([], [])
  { chainId := 8453, blockNumber := 100, blockHash := 100, transactionHash := 7, transactionIndex := 0, logIndex := x.2
    address := if (bookEvent x.1.event).isSome = true then deployment.marketplace else deployment.paymentToken
    topics := e.1, data := e.2, confirmationStatus := .confirmed }

/-- Alice offers shares and Bob bids for some. -/
def events : List IndexedEvent := (acted bid).core.log.zipIdx.map indexed

/-- The table after the events have been delivered twice. -/
def table : List OrderbookRow := [events, events].foldl (projectOrderbook decoded deployment.marketplace) []

/-- An event as the node gives it, checked. -/
def emitted (x : LogEntry × Nat) : Bool :=
  match bookEvent x.1.event with
  | some b => decide ((indexed x).address = deployment.marketplace ∧ decoded (indexed x) = some b)
  | none => decide ((indexed x).address ≠ deployment.marketplace)

theorem emits_of_emitted {x : LogEntry × Nat} (h : emitted x = true) : Emits deployment decoded x.1 (indexed x) := by
  unfold emitted at h
  cases hx : x.1.event with
  | book b =>
    rw [hx] at h
    have hb := of_decide_eq_true h
    refine ⟨fun b' hb' => ?_, fun hne => absurd hx (hne b)⟩
    rw [hx] at hb'
    cases hb'
    exact hb
  | _ =>
    rw [hx] at h
    have hne := of_decide_eq_true h
    exact ⟨fun b hb => by (rw [hx] at hb; cases hb), fun _ => .inl hne⟩

theorem emits_indexed {log : Cpredict.Log} (h : ∀ x ∈ log.zipIdx, emitted x = true) :
    List.Forall₂ (Emits deployment decoded) log (log.zipIdx.map indexed) := by
  have hfst : log.zipIdx.map Prod.fst = log := List.zipIdx_map_fst 0 log
  have hboth : List.Forall₂ (Emits deployment decoded) (log.zipIdx.map Prod.fst) (log.zipIdx.map indexed) := by
    rw [List.forall₂_map_left_iff, List.forall₂_map_right_iff, List.forall₂_same]
    exact fun x hx => emits_of_emitted (h x hx)
  rwa [hfst] at hboth

theorem mined : Mined deployment decoded 8453 (acted bid).core.log events where
  emits := emits_indexed (by decide +kernel)
  chain := fun e he => by
    obtain ⟨x, -, rfl⟩ := List.mem_map.mp he
    rfl
  ascending := by decide +kernel
  keys := by decide +kernel

end Sample

/-- The listing of the sample has Alice's and Bob's order, and its total is what Bob has locked. -/
theorem orderbook_refined_sample :
    (∃ ps, Listing Sample.table 8453 Cpredict.Sample.deployment.marketplace none none 0 ps ∧
      ps.flatten.map (fun i => (i.id, i.remainingUnits, i.lockedPayment, i.active)) =
        [(1, 2000000, 0, true), (2, 1500000, 900000, true)]) ∧
      (orderbookPage Sample.table 8453 Cpredict.Sample.deployment.marketplace none none 0).totalLockedPayment =
        900000 := by
  have hforeign : ∀ x ∈ ([] : List OrderbookRow),
      Foreign Cpredict.Sample.deployment Sample.decoded 8453 Sample.events x := fun x hx => absurd hx List.not_mem_nil
  have hbatches : ∀ e, (∃ batch ∈ [Sample.events, Sample.events], e ∈ batch) ↔ e ∈ Sample.events := by simp
  obtain ⟨hlist, -, htotal⟩ := orderbook_refined (Cpredict.Sample.acted_reachable Cpredict.Sample.bid) Sample.mined
    hforeign hbatches
  obtain ⟨⟨ps, hps⟩, hflat⟩ := hlist none none
  unfold Sample.table
  refine ⟨⟨ps, hps, ?_⟩, ?_⟩
  · rw [hflat ps hps]
    decide +kernel
  · rw [(htotal 0).mpr (.inl (by decide +kernel))]
    decide +kernel

/-- A page without items has no total: with the last id as cursor it is zero, although Bob's payment is locked. -/
theorem orderbook_page_total :
    World.Reachable Cpredict.Sample.deployment True (Cpredict.Sample.acted Cpredict.Sample.bid) ∧
      Mined Cpredict.Sample.deployment Sample.decoded 8453 (Cpredict.Sample.acted Cpredict.Sample.bid).core.log
        Sample.events ∧
      (orderbookPage Sample.table 8453 Cpredict.Sample.deployment.marketplace none none 2).totalLockedPayment = 0 ∧
      (Cpredict.Sample.acted Cpredict.Sample.bid).book.totalLockedPayment = 900000 :=
  ⟨Cpredict.Sample.acted_reachable Cpredict.Sample.bid, Sample.mined, by decide +kernel, by decide +kernel⟩

end Indexer

end Cpredict
