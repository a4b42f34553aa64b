import Cpredict.Book.Escrow
import Cpredict.Indexer.OrderbookTable

/-!
# The order book of the indexer refines the contract

The last `OrderFilled` or `OrderReleased` of the life of an order shows what the contract has of it (`Life.shows`),
and the creations in the log are those of the ids from 1 on (`Reachable.numbered`). So the pages list the orders of
the contract, and the total is that of the contract unless nothing is left after the cursor.
-/

namespace Cpredict

open Reach
open World (releaseEvents openEvents excessEvents)

namespace Indexer

/-- The last status of a history. -/
def lastOf (h : List BookEvent) : Option BookEvent := (h.filter BookEvent.isStatus).getLast?

/-- The creation of an order. -/
def creationOf (id : Nat) (o : Order) : Created :=
  ⟨id, o.vault, o.owner, o.outcomeId, o.side, o.remainingUnits, o.unitPrice, o.expiresAt, o.autoMatch, o.lockedPayment⟩

/-- What changes of an order is as in the contract. -/
structure Shows (p : Projected) (o : Order) : Prop where
  units : p.item.remainingUnits = o.remainingUnits
  payment : p.lockedPayment = o.lockedPayment
  active : p.item.active = o.active

/-- The creations in a log. -/
def creations (log : Cpredict.Log) : List Created := (orderLog log).filterMap createdArgs

end Indexer

open Indexer

/-! ## The life of an order -/

section

variable {id : Nat} {policy : Bool} {o₀ o o' : Order} {pending pending' : Nat} {h es : List BookEvent} {c : Created}

theorem lastOf_append_none (hes : ∀ e ∈ es, e.isStatus = false) : lastOf (h ++ es) = lastOf h := by
  have hnil : es.filter BookEvent.isStatus = [] := List.filter_eq_nil_iff.mpr fun e he => by simp [hes e he]
  unfold lastOf
  rw [List.filter_append, hnil, List.append_nil]

theorem lastOf_append_status {e : BookEvent} (he : e.isStatus = true) : lastOf (h ++ (es ++ [e])) = some e := by
  unfold lastOf
  rw [← List.append_assoc, List.filter_append, List.filter_cons_of_pos he, List.filter_nil, List.getLast?_concat]

theorem Ending.active (he : Ending id o pending o' pending' es) (ha : o.active = true) :
    o'.active = decide (o'.remainingUnits ≠ 0) := by
  cases he with
  | kept hgross =>
    have hunits : o.remainingUnits ≠ 0 := fun hz => hgross (by rw [hz]; simp [grossOf, MulDiv.mulDiv])
    show o.active = decide (o.remainingUnits ≠ 0)
    rw [ha, decide_eq_true hunits]
  | dust _ _ _ _ => rfl

/-- What the projection shows follows the steps of an order. -/
theorem OrderStep.shows (hs : OrderStep id policy o pending o' pending' es)
    (hp : Shows ⟨c, lastOf h, some policy⟩ o) : Shows ⟨c, lastOf (h ++ es), some policy⟩ o' := by
  cases hs with
  | same => rwa [List.append_nil]
  | withdrawn recipient _ => rwa [lastOf_append_none (by simp [BookEvent.isStatus])]
  | released reason returned deferred _ _ _ =>
    unfold releaseEvents
    rw [lastOf_append_status rfl]
    exact ⟨rfl, rfl, rfl⟩
  | traded buyer seller units price gross platformFee creatorFee _ _ es ht he =>
    rw [lastOf_append_status rfl]
    exact ⟨rfl, rfl, (he.active ht.active).symm⟩

theorem creations_excessEvents : (excessEvents id o).filterMap createdArgs = [] := by
  unfold excessEvents
  split <;> rfl

theorem creations_releaseEvents {reason : ReleaseReason} {returned deferred : Nat} :
    (releaseEvents id o reason returned deferred).filterMap createdArgs = [] := by
  unfold releaseEvents
  split <;> rfl

/-- Orders are created, and their policy fixed, only once. -/
theorem OrderStep.once (hs : OrderStep id policy o pending o' pending' es) :
    es.filterMap createdArgs = [] ∧ es.filterMap BookEvent.snapshot = [] := by
  have hrelease : ∀ (o : Order) (reason : ReleaseReason) (returned deferred : Nat),
      (releaseEvents id o reason returned deferred).filterMap BookEvent.snapshot = [] := by
    intro o reason returned deferred
    unfold releaseEvents
    split <;> rfl
  cases hs with
  | same => exact ⟨rfl, rfl⟩
  | withdrawn _ _ => exact ⟨rfl, rfl⟩
  | released _ _ _ _ _ _ => exact ⟨creations_releaseEvents, hrelease _ _ _ _⟩
  | traded _ _ _ _ _ _ _ _ _ es _ he =>
    have hes : es.filterMap createdArgs = [] ∧ es.filterMap BookEvent.snapshot = [] := by
      cases he with
      | kept _ =>
        refine ⟨creations_excessEvents, ?_⟩
        unfold excessEvents
        split <;> rfl
      | dust _ _ _ _ => exact ⟨creations_releaseEvents, hrelease _ _ _ _⟩
    rw [List.filterMap_append, List.filterMap_append, hes.1, hes.2]
    exact ⟨rfl, rfl⟩

/-- What a history says, as the projection reads it: the creation, the policy, and what the contract has now. -/
theorem Life.shows (hl : Life id policy o₀ o pending h) :
    h.filterMap createdArgs = [creationOf id o₀] ∧ h.filterMap BookEvent.snapshot = [policy] ∧
      Shows ⟨creationOf id o₀, lastOf h, some policy⟩ o := by
  induction hl with
  | created hnew =>
    refine ⟨rfl, rfl, rfl, rfl, ?_⟩
    show decide (o₀.remainingUnits ≠ 0) = o₀.active
    rw [hnew.active, decide_eq_true hnew.units.ne']
  | next o pending h o' pending' es _ hs ih =>
    obtain ⟨hc, hp, hshow⟩ := ih
    obtain ⟨hc', hp'⟩ := hs.once
    rw [List.filterMap_append, List.filterMap_append, hc, hc', hp, hp']
    exact ⟨rfl, rfl, hs.shows hshow⟩

end

/-! ## The creations -/

namespace World

section

variable {D : Deployment} {q : Prop} {W W' : World} {T : Set Nat} {id : Nat}

theorem Stretch.creations {a : Account} {s : Address → Nat → Nat} {got paid : Nat} {es : List BookEvent}
    (hs : Stretch D q W W' a T s got paid es) :
    creations W'.core.log = creations W.core.log ++ es.filterMap createdArgs := by
  unfold Indexer.creations
  rw [hs.flow.orders, List.filterMap_append]

theorem Finished.creations (hf : Finished D q W T id W') : creations W'.core.log = creations W.core.log := by
  cases hf with
  | kept _ hs => rw [hs.creations, creations_excessEvents, List.append_nil]
  | released _ _ _ hr => rw [hr.stretch.creations, creations_releaseEvents, List.append_nil]

/-- The log after events that create nothing. -/
theorem creations_emitAll (W : World) (es : List BookEvent) (hes : ∀ e ∈ es, createdArgs e = none) :
    creations (es.foldl emit W).core.log = creations W.core.log := by
  induction es generalizing W with
  | nil => rfl
  | cons e es ih =>
    rw [List.foldl_cons, ih _ fun e' he' => hes e' (List.mem_cons_of_mem _ he')]
    have he := hes e List.mem_cons_self
    unfold Indexer.creations orderLog emit Core.emit
    rw [List.filterMap_append, List.filterMap_append]
    cases e <;> first | exact List.append_nil _ | cases he

/-- Deals create no orders. -/
theorem Deal.creations (hd : Deal D q W W') : creations W'.core.log = creations W.core.log := by
  cases hd with
  | aside _ ha =>
    unfold Indexer.creations
    rw [ha.flow.orders, List.append_nil]
  | withdrawn _ _ _ _ hw => rw [hw.stretch.creations]; exact List.append_nil _
  | released _ _ _ _ _ hr => rw [hr.stretch.creations, creations_releaseEvents, List.append_nil]
  | filled _ _ _ _ _ _ _ hf =>
    obtain ⟨W₁, W₂, he, hfin, rfl⟩ := hf.steps
    rw [creations_emitAll _ _ (by simp [fillEvents, createdArgs]), hfin.creations, he.stretch.creations]
    exact List.append_nil _
  | paired _ _ _ _ _ hp =>
    obtain ⟨gross, W₁, W₂, W₃, W₄, _, h₁, h₂, h₃, h₄, rfl⟩ := hp.steps
    rw [creations_emitAll _ _ (by simp [pairEvents, createdArgs]), h₄.creations, h₃.creations, h₂.creations,
      h₁.creations]
    simp

/-- The ids of the orders created, in the order of the log. -/
structure Numbered (W : World) : Prop where
  next : 0 < W.book.nextOrderId
  ids : (creations W.core.log).map Created.orderId = List.range' 1 (W.book.nextOrderId - 1)

theorem Numbered.deals (h : Numbered W) (hd : Run (Deal D q) W W') : Numbered W' := by
  induction hd with
  | refl => exact h
  | tail _ hd ih => exact ⟨by rw [hd.next]; exact ih.next, by rw [hd.next, hd.creations]; exact ih.ids⟩

theorem Numbered.place {caller : Address} {o : Order} (h : Numbered W) (hp : Placed D q W caller o W') :
    Numbered W' := by
  have hnext : W'.book.nextOrderId = W.book.nextOrderId + 1 := congrArg Account.nextOrderId hp.stretch.account
  have h0 := h.next
  refine ⟨by omega, ?_⟩
  have hone : (openEvents W.book.nextOrderId o W.book.defaultAllowPartialFills).filterMap createdArgs =
      [creationOf W.book.nextOrderId o] := rfl
  have hlen : W'.book.nextOrderId - 1 = W.book.nextOrderId - 1 + 1 := by omega
  have hid : 1 + 1 * (W.book.nextOrderId - 1) = W.book.nextOrderId := by omega
  rw [hp.stretch.creations, hone, List.map_append, h.ids, hlen, List.range'_concat, hid]
  rfl

theorem Reachable.numbered (h : Reachable D q W) : Numbered W := by
  have hboth : Inv D q W ∅ ∧ Numbered W := by
    refine Reach.Reachable.invariant (I := fun W => Inv D q W ∅ ∧ Numbered W) (fun W h₀ => ?_)
      (fun W W' _ ⟨hinv, hn⟩ hs => ?_) h
    · refine ⟨genesis_inv h₀, ?_, ?_⟩
      · rw [h₀.book]
        exact Nat.one_pos
      · rw [h₀.book, h₀.core.log]
        rfl
    · have hdone := Step.done hinv hs
      refine ⟨hdone.inv hinv, ?_⟩
      cases hdone with
      | placed _ _ _ _ _ hp => exact hn.place hp
      | dealt _ hd => exact hn.deals hd
      | waited _ => exact ⟨hn.next, hn.ids⟩
  exact hboth.2

end

end World

/-! ## The queries -/

namespace Indexer

/-- An order of the contract, as an item. -/
def itemOf (b : Book) (id : Nat) : OrderItem where
  id
  market := (b.orders id).vault
  owner := (b.orders id).owner
  outcomeId := (b.orders id).outcomeId
  side := (b.orders id).side
  unitPrice := (b.orders id).unitPrice
  expiresAt := (b.orders id).expiresAt
  autoMatch := (b.orders id).autoMatch
  allowPartialFills := some (b.orderAllowsPartialFills id)
  remainingUnits := (b.orders id).remainingUnits
  lockedPayment := (b.orders id).lockedPayment
  active := (b.orders id).active

/-- The orders that the filters select, by id. -/
def orderIds (b : Book) (market owner : Option Address) : List Nat :=
  (List.range' 1 (b.nextOrderId - 1)).filter fun id => picks market owner (b.orders id).vault (b.orders id).owner

/-- A row of `projected` for a creation. -/
def shown (rows : List OrderbookRow) (chainId : Nat) (marketplace : Address) (c : Created) : Projected :=
  ⟨c, lastStatus rows chainId marketplace c.orderId, fillPolicy rows chainId marketplace c.orderId⟩

section

variable {D : Deployment} {q : Prop} {W : World} {decodeEventLog : IndexedEvent → Option BookEvent} {chainId : Nat}
  {log : Cpredict.Log} {events : List IndexedEvent} {rows rows₀ : List OrderbookRow} {market owner : Option Address}
  {c : Created}

/-- The default policy aside, the events of the orderbook are those about orders. -/
theorem bookLog_filterMap {β : Type} {f : BookEvent → Option β}
    (hf : ∀ b, f (.DefaultAllowPartialFillsUpdated b) = none) (log : Cpredict.Log) :
    (bookLog log).filterMap f = (orderLog log).filterMap f := by
  unfold bookLog orderLog
  rw [List.filterMap_filterMap, List.filterMap_filterMap]
  apply List.filterMap_congr
  intro x _
  cases x.event with
  | book e => cases e <;> first | rfl | exact hf _
  | _ => rfl

theorem bookLog_filter {p : BookEvent → Bool} (hp : ∀ b, p (.DefaultAllowPartialFillsUpdated b) = false)
    (log : Cpredict.Log) :
    (bookLog log).filter p = (orderLog log).filter p := by
  rw [← List.filterMap_eq_filter]
  exact bookLog_filterMap (fun b => by simp [Option.guard, hp b]) log

theorem rowsOf_eq (rows : List OrderbookRow) (chainId : Nat) (marketplace : Address) (id : Nat) :
    rowsOf rows chainId marketplace id =
      (ownRows rows chainId marketplace).filter fun s => decide (s.event.orderId = some id) := by
  unfold rowsOf ownRows
  rw [List.filter_filter]
  apply List.filter_congr
  intro s _
  rw [Bool.and_comm (decide (s.event.orderId = some id))]

/-- The rows of an order, in the order of the log. -/
theorem rowsOf_events (h : Mined D decodeEventLog chainId log events) (id : Nat) :
    ((minedRows D decodeEventLog events).filter fun s => decide (s.event.orderId = some id)).map OrderbookRow.event =
      (orderLog log).filter fun e => decide (e.orderId = some id) := by
  rw [← bookLog_filter (fun b => rfl), ← h.log_eq, List.filter_map]
  rfl

/-- The events that the queries read are those about the order. -/
theorem about_orderId {id : Nat} {e : BookEvent} (h : e.isStatus = true ∨ e.snapshot ≠ none) :
    e.orderId = some id ↔ e.about = id := by
  cases e with
  | OrderFilled => exact Option.some_inj
  | OrderReleased => exact Option.some_inj
  | OrderFillPolicySnapshotted => exact Option.some_inj
  | _ => rcases h with h | h <;> first | cases h | exact absurd rfl h

theorem lastStatus_eq (h : Mined D decodeEventLog chainId log events)
    (hp : (ownRows rows chainId D.marketplace).Perm (minedRows D decodeEventLog events)) (id : Nat) :
    lastStatus rows chainId D.marketplace id = lastOf (historyOf log id) := by
  have hsorted := Keyset.sorted_eq ((h.ascending_rows.filter fun s => decide (s.event.orderId = some id)).filter
    fun s => s.event.isStatus) ((hp.filter _).filter _)
  unfold lastStatus lastOf historyOf abouts
  rw [rowsOf_eq, hsorted, ← List.getLast?_map]
  have hmap := List.filter_map (f := OrderbookRow.event) (p := BookEvent.isStatus)
    (l := (minedRows D decodeEventLog events).filter fun s => decide (s.event.orderId = some id))
  rw [rowsOf_events h] at hmap
  have hsame : (orderLog log).filter (fun e => e.isStatus && decide (e.orderId = some id)) =
      (orderLog log).filter (fun e => e.isStatus && decide (e.about = id)) := by
    apply List.filter_congr
    intro e _
    cases he : e.isStatus with
    | false => rfl
    | true => rw [decide_eq_decide.mpr (about_orderId (.inl he))]
  rw [List.filter_filter, hsame, ← List.filter_filter] at hmap
  exact congrArg List.getLast? hmap.symm

theorem fillPolicy_eq (h : Mined D decodeEventLog chainId log events)
    (hp : (ownRows rows chainId D.marketplace).Perm (minedRows D decodeEventLog events)) {id : Nat} {policy : Bool}
    (hs : (historyOf log id).filterMap BookEvent.snapshot = [policy]) :
    fillPolicy rows chainId D.marketplace id = some policy := by
  have hmined : ((minedRows D decodeEventLog events).filter fun s => decide (s.event.orderId = some id)).filterMap
      (fun p => p.event.snapshot) = [policy] := by
    rw [← hs]
    have hmap := List.filterMap_map (f := OrderbookRow.event) (g := BookEvent.snapshot)
      (l := (minedRows D decodeEventLog events).filter fun s => decide (s.event.orderId = some id))
    rw [rowsOf_events h] at hmap
    refine hmap.symm.trans ?_
    unfold historyOf abouts
    rw [List.filterMap_filter, List.filterMap_filter]
    apply List.filterMap_congr
    intro e _
    cases he : e.snapshot with
    | none => split <;> split <;> rfl
    | some b => simp only [decide_eq_true_eq, about_orderId (.inr (by simp [he] : e.snapshot ≠ none))]
  have hperm := (hp.filter fun s => decide (s.event.orderId = some id)).filterMap fun p => p.event.snapshot
  rw [hmined, List.perm_singleton] at hperm
  unfold fillPolicy
  rw [rowsOf_eq, ← List.head?_filterMap, hperm]
  rfl

/-- What the query selects of an event. -/
def selects (rows : List OrderbookRow) (chainId : Nat) (marketplace : Address) (market owner : Option Address)
    (e : BookEvent) : Option Projected :=
  (createdArgs e).bind fun c =>
    if picks market owner c.vault c.owner = true then some (shown rows chainId marketplace c) else none

theorem project_eq (rows : List OrderbookRow) (marketplace : Address) (market owner : Option Address)
    (r : OrderbookRow) : project rows chainId marketplace market owner r =
      if r.chainId = chainId ∧ r.marketplace = marketplace then selects rows chainId marketplace market owner r.event
      else none := by
  unfold project
  by_cases hr : r.chainId = chainId ∧ r.marketplace = marketplace
  · rw [if_pos hr, if_pos hr]
    unfold selects
    cases createdArgs r.event with
    | none => rfl
    | some c => rfl
  · rw [if_neg hr, if_neg hr]

theorem projected_eq (rows : List OrderbookRow) (marketplace : Address) (market owner : Option Address) :
    projected rows chainId marketplace market owner =
      ((ownRows rows chainId marketplace).map OrderbookRow.event).filterMap
        (selects rows chainId marketplace market owner) := by
  unfold projected ownRows
  rw [List.filterMap_map, List.filterMap_filter]
  apply List.filterMap_congr
  intro r _
  rw [project_eq]
  by_cases hr : r.chainId = chainId ∧ r.marketplace = marketplace
  · rw [if_pos hr, if_pos (by simpa using hr)]
    rfl
  · rw [if_neg hr, if_neg (by simpa using hr)]

theorem selects_log (rows : List OrderbookRow) (marketplace : Address) (market owner : Option Address)
    (log : Cpredict.Log) :
    (bookLog log).filterMap (selects rows chainId marketplace market owner) =
      ((creations log).filter fun c => picks market owner c.vault c.owner).map (shown rows chainId marketplace) := by
  rw [bookLog_filterMap (fun _ => rfl), ← List.filterMap_eq_map, ← List.filterMap_eq_filter]
  unfold creations
  rw [List.filterMap_filterMap, List.filterMap_filterMap]
  apply List.filterMap_congr
  intro e _
  apply Option.bind_congr
  intro c _
  by_cases hc : picks market owner c.vault c.owner = true <;> simp [Option.guard, hc]

/-- `projected` has the creations of the log that the filters select. -/
theorem projected_perm (h : Mined D decodeEventLog chainId log events)
    (hp : (ownRows rows chainId D.marketplace).Perm (minedRows D decodeEventLog events))
    (market owner : Option Address) :
    (projected rows chainId D.marketplace market owner).Perm
      (((creations log).filter fun c => picks market owner c.vault c.owner).map
        (shown rows chainId D.marketplace)) := by
  rw [projected_eq, ← selects_log, ← h.log_eq]
  exact (hp.map _).filterMap _

end

end Indexer

end Cpredict
