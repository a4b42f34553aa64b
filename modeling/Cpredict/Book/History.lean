import Cpredict.Book.Invariant

/-!
# The life of an order

What may happen to one order, as a transition system of its own: it trades, is released, and its deferred shares are
withdrawn (`OrderStep`). A `Life` starts with the creation and goes on with such steps, and its events are those of the
log about the order. Every deal of the orderbook is a step, or nothing, in the life of every order (`Deal.orderStep`),
so every order has a life in every reachable state (`Reachable.life`).
-/

namespace Cpredict

open Tally MulDiv Reach
open World (releaseEvents openEvents excessEvents)

/-! ## The events about an order -/

/-- The order that an event is about. Trades are logged once more under the orders filled. -/
def BookEvent.about : BookEvent → Nat
  | .OrderFillPolicySnapshotted id _ => id
  | .OrderCreated id .. => id
  | .OrderReleased id .. => id
  | .OrderFilled id .. => id
  | .BidExcessReturned id .. => id
  | .OrderSharesDeferred id .. => id
  | .OrderSharesWithdrawn id .. => id
  | .TradeExecuted .. => 0
  | .OrdersMatched .. => 0
  | .DefaultAllowPartialFillsUpdated _ => 0

/-- The events about an order. -/
def abouts (id : Nat) (es : List BookEvent) : List BookEvent := es.filter fun e => decide (e.about = id)

/-- What the log says about an order. -/
def historyOf (log : Log) (id : Nat) : List BookEvent := abouts id (orderLog log)

@[simp] theorem abouts_append (id : Nat) (xs ys : List BookEvent) :
    abouts id (xs ++ ys) = abouts id xs ++ abouts id ys :=
  List.filter_append ..

theorem abouts_self {id : Nat} {es : List BookEvent} (h : ∀ e ∈ es, e.about = id) : abouts id es = es :=
  List.filter_eq_self.mpr fun e he => by simpa using h e he

theorem abouts_other {id : Nat} {es : List BookEvent} (h : ∀ e ∈ es, e.about ≠ id) : abouts id es = [] :=
  List.filter_eq_nil_iff.mpr fun e he => by simpa using h e he

namespace BookEvent

/-- The units that an order has sold or bought. -/
def tradedUnits : BookEvent → Nat
  | .OrderFilled _ _ _ units _ _ _ _ _ _ => units
  | _ => 0

/-- The units that a release returned. -/
def returnedUnits : BookEvent → Nat
  | .OrderReleased _ _ _ units _ => units
  | _ => 0

/-- The units that a release deferred. -/
def deferredUnits : BookEvent → Nat
  | .OrderSharesDeferred _ _ units => units
  | _ => 0

/-- Deferred units that the owner took. -/
def withdrawnUnits : BookEvent → Nat
  | .OrderSharesWithdrawn _ _ _ units => units
  | _ => 0

end BookEvent

/-! ## The steps of one order -/

/-- How a trade ends for the order: it goes on with its reserve, or what is left of it is dust. -/
inductive Ending (id : Nat) (o : Order) (pending : Nat) : Order → Nat → List BookEvent → Prop
  | kept : grossOf o.remainingUnits o.unitPrice ≠ 0 → Ending id o pending o.relock pending (excessEvents id o)
  | dust (returned deferred : Nat) : returned + deferred = o.askUnits → returned = 0 ∨ deferred = 0 →
    Ending id o pending o.close deferred (releaseEvents id o .dust returned deferred)

/-- A trade of an order: its units, its price, and what the price of the units is. -/
structure Tradable (o : Order) (policy : Bool) (units price gross : Nat) : Prop where
  active : o.active = true
  positive : units ≠ 0
  units_le : units ≤ o.remainingUnits
  limit : o.side = .bid → price ≤ o.unitPrice
  gross_eq : gross = grossOf units price
  whole : policy = false → units = o.remainingUnits

/-- What may happen to an order and its deferred shares, and what is logged about it. -/
inductive OrderStep (id : Nat) (policy : Bool) (o : Order) (pending : Nat) : Order → Nat → List BookEvent → Prop
  | same : OrderStep id policy o pending o pending []
  | withdrawn (recipient : Address) : pending ≠ 0 →
    OrderStep id policy o pending o 0 [.OrderSharesWithdrawn id o.owner recipient pending]
  | released (reason : ReleaseReason) (returned deferred : Nat) : o.active = true →
    returned + deferred = o.askUnits → returned = 0 ∨ deferred = 0 →
    OrderStep id policy o pending o.close deferred (releaseEvents id o reason returned deferred)
  | traded (buyer seller : Address) (units price gross platformFee creatorFee : Nat) (o' : Order) (pending' : Nat)
    (es : List BookEvent) : Tradable o policy units price gross →
      Ending id (o.traded units gross) pending o' pending' es →
    OrderStep id policy o pending o' pending'
      (es ++ [.OrderFilled id buyer seller units price gross platformFee creatorFee
      o'.remainingUnits o'.lockedPayment])

/-- A new order, as `createOrder` makes it. -/
structure Order.New (o : Order) : Prop where
  active : o.active = true
  units : 0 < o.remainingUnits
  locked : o.lockedPayment = match o.side with
    | .bid => reserve o.remainingUnits o.unitPrice
    | .ask => 0

/-- The life of an order that was created as `o₀`: what has become of it, of its deferred shares, and the events. -/
inductive Life (id : Nat) (policy : Bool) (o₀ : Order) : Order → Nat → List BookEvent → Prop
  | created : o₀.New → Life id policy o₀ o₀ 0 (openEvents id o₀ policy)
  | next (o : Order) (pending : Nat) (h : List BookEvent) (o' : Order) (pending' : Nat) (es : List BookEvent) :
    Life id policy o₀ o pending h → OrderStep id policy o pending o' pending' es →
    Life id policy o₀ o' pending' (h ++ es)

section

variable {id : Nat} {policy : Bool} {o₀ o o' : Order} {pending pending' : Nat} {h es : List BookEvent}

theorem about_excessEvents : ∀ e ∈ excessEvents id o, e.about = id := by
  unfold excessEvents
  split
  · exact List.forall_mem_nil _
  · exact fun e he => by rw [List.mem_singleton.mp he]; rfl

theorem about_releaseEvents {reason : ReleaseReason} {returned deferred : Nat} :
    ∀ e ∈ releaseEvents id o reason returned deferred, e.about = id := by
  unfold releaseEvents
  split <;> simp [BookEvent.about]

theorem about_openEvents : ∀ e ∈ openEvents id o policy, e.about = id := by
  simp [openEvents, BookEvent.about]

theorem Ending.about (he : Ending id o pending o' pending' es) : ∀ e ∈ es, e.about = id := by
  cases he with
  | kept _ => exact about_excessEvents
  | dust _ _ _ _ => exact about_releaseEvents

/-! ## What never changes of an order -/

/-- Two versions of an order: the terms are the same. -/
structure SameTerms (o o' : Order) : Prop where
  vault : o'.vault = o.vault
  owner : o'.owner = o.owner
  outcomeId : o'.outcomeId = o.outcomeId
  side : o'.side = o.side
  unitPrice : o'.unitPrice = o.unitPrice
  expiresAt : o'.expiresAt = o.expiresAt
  autoMatch : o'.autoMatch = o.autoMatch

theorem SameTerms.refl (o : Order) : SameTerms o o := ⟨rfl, rfl, rfl, rfl, rfl, rfl, rfl⟩

theorem SameTerms.trans {o₁ : Order} (h : SameTerms o o₁) (h' : SameTerms o₁ o') : SameTerms o o' :=
  ⟨h'.vault.trans h.vault, h'.owner.trans h.owner, h'.outcomeId.trans h.outcomeId, h'.side.trans h.side,
    h'.unitPrice.trans h.unitPrice, h'.expiresAt.trans h.expiresAt, h'.autoMatch.trans h.autoMatch⟩

theorem Ending.terms (he : Ending id o pending o' pending' es) : SameTerms o o' := by
  cases he with
  | kept _ => exact ⟨rfl, rfl, rfl, rfl, rfl, rfl, rfl⟩
  | dust _ _ _ _ => exact ⟨rfl, rfl, rfl, rfl, rfl, rfl, rfl⟩

theorem OrderStep.terms (hs : OrderStep id policy o pending o' pending' es) : SameTerms o o' := by
  cases hs with
  | same => exact .refl o
  | withdrawn _ _ => exact .refl o
  | released _ _ _ _ _ _ => exact ⟨rfl, rfl, rfl, rfl, rfl, rfl, rfl⟩
  | traded _ _ units _ gross _ _ _ _ _ _ he =>
    have hfirst : SameTerms o (o.traded units gross) := ⟨rfl, rfl, rfl, rfl, rfl, rfl, rfl⟩
    exact hfirst.trans he.terms

/-- Nothing happens to an id without an order. -/
theorem OrderStep.blank (hs : OrderStep id policy .blank 0 o' pending' es) : es = [] := by
  cases hs with
  | same => rfl
  | withdrawn _ h0 => exact absurd rfl h0
  | released _ _ _ ha _ _ => cases ha
  | traded _ _ _ _ _ _ _ _ _ _ ht _ => cases ht.active

theorem Life.terms (hl : Life id policy o₀ o pending h) : SameTerms o₀ o := by
  induction hl with
  | created _ => exact .refl o₀
  | next _ _ _ _ _ _ _ hs ih => exact ih.trans hs.terms

end

namespace World

open Core (Grounded held)

section

variable {D : Deployment} {q : Prop} {W W' : World} {T : Set Nat} {id x : Nat}

/-- What happens to an order between two states: a step of its life, and its policy stays. -/
structure Lives (W W' : World) (x : Nat) : Prop where
  policy : W'.book.orderAllowsPartialFills x = W.book.orderAllowsPartialFills x
  step : ∃ es, historyOf W'.core.log x = historyOf W.core.log x ++ es ∧
    OrderStep x (W.book.orderAllowsPartialFills x) (W.book.orders x) (W.book.pendingShares x) (W'.book.orders x)
      (W'.book.pendingShares x) es

/-- A change of the account and of the log that concerns other orders. -/
theorem Lives.of_other {a : Account} {s : Address → Nat → Nat} {got paid : Nat} {es : List BookEvent}
    (hs : Stretch D q W W' a T s got paid es) (ho : a.orders x = W.book.orders x)
    (hp : a.pendingShares x = W.book.pendingShares x)
    (hpol : a.orderAllowsPartialFills x = W.book.orderAllowsPartialFills x) (he : ∀ e ∈ es, e.about ≠ x) :
    Lives W W' x := by
  have hacc := hs.account
  refine ⟨(congrArg (fun a : Account => a.orderAllowsPartialFills x) hacc).trans hpol, [], ?_, ?_⟩
  · unfold historyOf
    rw [hs.flow.orders, abouts_append, abouts_other he]
  · rw [show W'.book.orders x = _ from (congrArg (fun a : Account => a.orders x) hacc).trans ho,
      show W'.book.pendingShares x = _ from (congrArg (fun a : Account => a.pendingShares x) hacc).trans hp]
    exact .same

/-- What a stretch leaves of an order and logs about it. -/
theorem Stretch.history {a : Account} {s : Address → Nat → Nat} {got paid : Nat} {es : List BookEvent}
    (hs : Stretch D q W W' a T s got paid es) (x : Nat) :
    W'.book.orders x = a.orders x ∧ W'.book.pendingShares x = a.pendingShares x ∧
      W'.book.orderAllowsPartialFills x = a.orderAllowsPartialFills x ∧
      historyOf W'.core.log x = historyOf W.core.log x ++ abouts x es := by
  refine ⟨congrArg (fun a : Account => a.orders x) hs.account,
    congrArg (fun a : Account => a.pendingShares x) hs.account,
    congrArg (fun a : Account => a.orderAllowsPartialFills x) hs.account, ?_⟩
  unfold historyOf
  rw [hs.flow.orders, abouts_append]

theorem Aside.lives (h : Inv D q W T) (ha : Aside D q W W') (x : Nat) : Lives W W' x :=
  .of_other (ha.stretch h.indexed) rfl rfl rfl (List.forall_mem_nil _)

theorem Withdrawn.lives {caller recipient : Address} (hw : Withdrawn D q W caller id recipient W') (x : Nat) :
    Lives W W' x := by
  by_cases hx : x = id
  · subst hx
    obtain ⟨ho, hp, hpol, hh⟩ := hw.stretch.history x
    rw [Account.alter_orders_self] at ho
    rw [Account.alter_pending_self] at hp
    refine ⟨hpol, _, hh, ?_⟩
    rw [ho, hp, abouts_self (by simp [BookEvent.about])]
    exact .withdrawn recipient hw.pending
  · exact .of_other hw.stretch (Account.alter_orders_of_ne hx) (Account.alter_pending_of_ne hx) rfl
      (by simpa [BookEvent.about] using Ne.symm hx)

theorem Released.lives {reason : ReleaseReason} {returned deferred : Nat}
    (hr : Released D q W T id reason W' returned deferred) (x : Nat) : Lives W W' x := by
  by_cases hx : x = id
  · subst hx
    obtain ⟨ho, hp, hpol, hh⟩ := hr.stretch.history x
    rw [Account.alter_orders_self] at ho
    rw [Account.alter_pending_self] at hp
    refine ⟨hpol, _, hh, ?_⟩
    rw [ho, hp, abouts_self about_releaseEvents]
    exact .released reason returned deferred hr.active hr.units hr.either
  · exact .of_other hr.stretch (Account.alter_orders_of_ne hx) (Account.alter_pending_of_ne hx) rfl
      fun e he => by rw [about_releaseEvents e he]; exact Ne.symm hx

/-! ## Trades -/

/-- Other orders at the end of a transit. -/
structure Elsewhere (W W' : World) (x : Nat) : Prop where
  order : W'.book.orders x = W.book.orders x
  pending : W'.book.pendingShares x = W.book.pendingShares x
  policy : W'.book.orderAllowsPartialFills x = W.book.orderAllowsPartialFills x
  history : historyOf W'.core.log x = historyOf W.core.log x

/-- The end of the transit of an order, in its life and for others. -/
theorem Finished.ending (hf : Finished D q W T id W') :
    (∃ es, historyOf W'.core.log id = historyOf W.core.log id ++ es ∧
      Ending id (W.book.orders id) (W.book.pendingShares id) (W'.book.orders id) (W'.book.pendingShares id) es) ∧
      W'.book.orderAllowsPartialFills id = W.book.orderAllowsPartialFills id ∧
      ∀ x, x ≠ id → Elsewhere W W' x := by
  cases hf with
  | kept hd hs =>
    refine ⟨?_, (hs.history id).2.2.1, fun x hx => ?_⟩
    · obtain ⟨ho, hp, _, hh⟩ := hs.history id
      rw [Account.alter_orders_self] at ho
      rw [Account.alter_pending_self] at hp
      rw [abouts_self about_excessEvents] at hh
      refine ⟨_, hh, ?_⟩
      rw [ho, hp]
      refine .kept fun hz => ?_
      simp [isDust, hz] at hd
    · obtain ⟨ho, hp, hpol, hh⟩ := hs.history x
      rw [abouts_other fun e he => by rw [about_excessEvents e he]; exact Ne.symm hx, List.append_nil] at hh
      exact ⟨ho.trans (Account.alter_orders_of_ne hx), hp.trans (Account.alter_pending_of_ne hx), hpol, hh⟩
  | released returned deferred hd hr =>
    refine ⟨?_, (hr.stretch.history id).2.2.1, fun x hx => ?_⟩
    · obtain ⟨ho, hp, _, hh⟩ := hr.stretch.history id
      rw [Account.alter_orders_self] at ho
      rw [Account.alter_pending_self] at hp
      rw [abouts_self about_releaseEvents] at hh
      refine ⟨_, hh, ?_⟩
      rw [ho, hp]
      exact .dust returned deferred hr.units hr.either
    · obtain ⟨ho, hp, hpol, hh⟩ := hr.stretch.history x
      rw [abouts_other fun e he => by rw [about_releaseEvents e he]; exact Ne.symm hx, List.append_nil] at hh
      exact ⟨ho.trans (Account.alter_orders_of_ne hx), hp.trans (Account.alter_pending_of_ne hx), hpol, hh⟩

theorem Elsewhere.lives (h : Elsewhere W W' x) : Lives W W' x := by
  refine ⟨h.policy, [], by rw [h.history, List.append_nil], ?_⟩
  rw [h.order, h.pending]
  exact .same

/-- The log after more events. -/
theorem history_emitAll (W : World) (es : List BookEvent) (hes : ∀ e ∈ es, (Event.book e).order = some e) (x : Nat) :
    historyOf (es.foldl emit W).core.log x = historyOf W.core.log x ++ abouts x es := by
  induction es generalizing W with
  | nil => simp [abouts]
  | cons e es ih =>
    rw [List.foldl_cons, ih _ fun e' he' => hes e' (List.mem_cons_of_mem _ he')]
    have he := hes e List.mem_cons_self
    have hlog : orderLog (W.emit e).core.log = orderLog W.core.log ++ [e] := by
      simp [orderLog, emit, Core.emit, he]
    unfold historyOf
    rw [hlog, abouts_append, List.append_assoc, ← abouts_append]
    rfl

theorem book_emitAll (W : World) (es : List BookEvent) : (es.foldl emit W).book = W.book := by
  induction es generalizing W with
  | nil => rfl
  | cons e es ih => exact ih _

/-- An order in transit: units and payment have been taken from it, and nothing is logged yet. -/
structure Taken (W W' : World) (x units gross : Nat) : Prop where
  order : W'.book.orders x = (W.book.orders x).traded units gross
  pending : W'.book.pendingShares x = W.book.pendingShares x
  policy : W'.book.orderAllowsPartialFills x = W.book.orderAllowsPartialFills x
  history : historyOf W'.core.log x = historyOf W.core.log x

/-- A trade of an order, from the transit to the log. -/
theorem Taken.lives {W₁ : World} {units gross : Nat} (W₂ : World) (price : Nat) (ht : Taken W W₁ x units gross)
    (hr : Tradable (W.book.orders x) (W.book.orderAllowsPartialFills x) units price gross)
    (he : ∃ es, historyOf W₂.core.log x = historyOf W₁.core.log x ++ es ∧
      Ending x (W₁.book.orders x) (W₁.book.pendingShares x) (W₂.book.orders x) (W₂.book.pendingShares x) es)
    (hp : W₂.book.orderAllowsPartialFills x = W₁.book.orderAllowsPartialFills x) (hb : W'.book = W₂.book)
    (hh : ∃ buyer seller platformFee creatorFee, historyOf W'.core.log x = historyOf W₂.core.log x ++
      [.OrderFilled x buyer seller units price gross platformFee creatorFee (W₂.book.orders x).remainingUnits
        (W₂.book.orders x).lockedPayment]) : Lives W W' x := by
  obtain ⟨es, hes, hend⟩ := he
  obtain ⟨buyer, seller, platformFee, creatorFee, hh⟩ := hh
  rw [ht.order, ht.pending] at hend
  rw [hes, ht.history, List.append_assoc] at hh
  refine ⟨by rw [hb, hp, ht.policy], _, hh, ?_⟩
  rw [hb]
  exact .traded buyer seller units price gross platformFee creatorFee _ _ es hr hend

theorem Elsewhere.trans {W₁ : World} (h : Elsewhere W W₁ x) (h' : Elsewhere W₁ W' x) : Elsewhere W W' x :=
  ⟨h'.order.trans h.order, h'.pending.trans h.pending, h'.policy.trans h.policy, h'.history.trans h.history⟩

/-- Events about other orders. -/
theorem elsewhere_emitAll (W : World) {es : List BookEvent} (hes : ∀ e ∈ es, (Event.book e).order = some e)
    (he : ∀ e ∈ es, e.about ≠ x) : Elsewhere W (es.foldl emit W) x := by
  refine ⟨by rw [book_emitAll], by rw [book_emitAll], by rw [book_emitAll], ?_⟩
  rw [history_emitAll W es hes, abouts_other he, List.append_nil]

/-- A stretch that changes other orders and logs nothing. -/
theorem Stretch.elsewhere {a : Account} {s : Address → Nat → Nat} {got paid : Nat}
    (hs : Stretch D q W W' a T s got paid []) (ho : a.orders x = W.book.orders x)
    (hp : a.pendingShares x = W.book.pendingShares x)
    (hpol : a.orderAllowsPartialFills x = W.book.orderAllowsPartialFills x) : Elsewhere W W' x := by
  obtain ⟨h₁, h₂, h₃, h₄⟩ := hs.history x
  exact ⟨h₁.trans ho, h₂.trans hp, h₃.trans hpol, by rw [h₄]; exact List.append_nil _⟩

/-- A direct fill in the life of every order. -/
theorem Filled.lives {caller : Address} {desiredUnits minUnits units gross : Nat} (h : Inv D q W ∅)
    (hf : Filled D q W caller id desiredUnits minUnits units gross W') (hx : x ≠ 0) : Lives W W' x := by
  obtain ⟨W₁, W₂, he, hfin, rfl⟩ := hf.steps
  have hid := (h.custody.created he.active).1
  have hevents : ∀ e ∈ fillEvents W caller id units gross (W₂.book.orders id), (Event.book e).order = some e := by
    simp [fillEvents, Event.order]
  obtain ⟨hend, hpol, hothers⟩ := hfin.ending
  by_cases hxid : x = id
  · subst hxid
    obtain ⟨ho, hp, hpol₁, hh⟩ := he.stretch.history x
    rw [Account.alter_orders_self] at ho
    rw [Account.alter_pending_self] at hp
    have htaken : Taken W W₁ x units gross := ⟨ho, hp, hpol₁, by rw [hh]; exact List.append_nil _⟩
    refine htaken.lives W₂ (W.book.orders x).unitPrice ⟨he.active, hf.fillable.minimum.1, he.units_le,
      fun _ => le_rfl, he.gross_eq, fun hw => ?_⟩ hend hpol (book_emitAll _ _) ?_
    · rw [hf.fillable.units_eq, (hf.fillable.whole hw).1, min_self]
    · rw [history_emitAll _ _ hevents]
      unfold fillEvents abouts
      rw [List.filter_cons_of_neg (by simp [BookEvent.about, Ne.symm hx]),
        List.filter_cons_of_pos (by simp [BookEvent.about]), List.filter_nil]
      exact ⟨_, _, _, _, rfl⟩
  · have helse : Elsewhere W W₁ x :=
      he.stretch.elsewhere (Account.alter_orders_of_ne hxid) (Account.alter_pending_of_ne hxid) rfl
    refine ((helse.trans (hothers x hxid)).trans (elsewhere_emitAll W₂ hevents ?_)).lives
    simp [fillEvents, BookEvent.about, Ne.symm hx, Ne.symm hxid]

/-- A fill of `_matchOrders` in the life of every order. -/
theorem Paired.lives {market : Address} {outcomeId bidId askId : Nat}
    (hp : Paired D q W market outcomeId bidId askId W') (hx : x ≠ 0) : Lives W W' x := by
  obtain ⟨gross, W₁, W₂, W₃, W₄, hg, h₁, h₂, h₃, h₄, rfl⟩ := hp.steps
  have hc := hp.crossing
  have hne := hc.ne
  obtain ⟨hend₃, hpol₃, hothers₃⟩ := h₃.ending
  obtain ⟨hend₄, hpol₄, hothers₄⟩ := h₄.ending
  have hunits : W.pairUnits bidId askId ≠ 0 := fun hz => hp.positive (by rw [hz]; simp [grossOf, mulDiv])
  have hevents : ∀ e ∈ W.pairEvents market outcomeId bidId askId gross (W₄.book.orders bidId) (W₄.book.orders askId),
      (Event.book e).order = some e := by simp [pairEvents, Event.order]
  have hstart : Elsewhere W W₁ x := h₁.elsewhere rfl rfl rfl
  by_cases hxb : x = bidId
  · subst hxb
    obtain ⟨ho, hpend, hpolicy, hh⟩ := h₂.history x
    rw [pairTraded_orders_bid] at ho
    have htaken : Taken W W₂ x (W.pairUnits x askId) gross :=
      ⟨ho, hpend.trans Account.alter_pending_self, hpolicy, by rw [hh, hstart.history]; exact List.append_nil _⟩
    have helse := hothers₄ x hne
    obtain ⟨es, hes, hend⟩ := hend₃
    rw [← helse.order, ← helse.pending] at hend
    refine htaken.lives W₄ (W.makerPrice x askId) ⟨hc.bid.1, hunits, min_le_left _ _,
      fun _ => hc.price.2, hg, fun hw => ?_⟩ ⟨es, by rw [helse.history, hes], hend⟩ (by rw [helse.policy, hpol₃])
      (book_emitAll _ _) ?_
    · show min _ _ = _
      rw [← hp.whole (.inl hw), min_self]
    · rw [history_emitAll _ _ hevents]
      unfold pairEvents abouts
      rw [List.filter_cons_of_pos (by simp [BookEvent.about]),
        List.filter_cons_of_neg (by simp [BookEvent.about, Ne.symm hne]),
        List.filter_cons_of_neg (by simp [BookEvent.about, Ne.symm hx]),
        List.filter_cons_of_neg (by simp [BookEvent.about, Ne.symm hx]), List.filter_nil]
      exact ⟨_, _, _, _, rfl⟩
  by_cases hxa : x = askId
  · subst hxa
    obtain ⟨ho, hpend, hpolicy, hh⟩ := h₂.history x
    rw [pairTraded_orders_ask hne] at ho
    have hpend₂ : W₂.book.pendingShares x = W.book.pendingShares x :=
      hpend.trans ((Account.alter_pending_of_ne hxb).trans Account.alter_pending_self)
    have helse := hothers₃ x hxb
    have htaken : Taken W W₃ x (W.pairUnits bidId x) gross :=
      ⟨helse.order.trans ho, helse.pending.trans hpend₂, helse.policy.trans hpolicy, by
        rw [helse.history, hh, hstart.history]; exact List.append_nil _⟩
    refine htaken.lives W₄ (W.makerPrice bidId x) ⟨hc.ask.1, hunits, min_le_right _ _,
      (fun hb => by rw [hc.ask_side] at hb; cases hb), hg, fun hw => ?_⟩ hend₄ hpol₄ (book_emitAll _ _) ?_
    · show min _ _ = _
      rw [hp.whole (.inr hw), min_self]
    · rw [history_emitAll _ _ hevents]
      unfold pairEvents abouts
      rw [List.filter_cons_of_neg (by simp [BookEvent.about, hne]),
        List.filter_cons_of_pos (by simp [BookEvent.about]),
        List.filter_cons_of_neg (by simp [BookEvent.about, Ne.symm hx]),
        List.filter_cons_of_neg (by simp [BookEvent.about, Ne.symm hx]), List.filter_nil]
      exact ⟨_, _, _, _, rfl⟩
  · have htraded : Elsewhere W₁ W₂ x := by
      refine h₂.elsewhere ?_ ?_ ?_
      · exact (Account.alter_orders_of_ne hxb).trans ((Account.alter_orders_of_ne hxa).trans hstart.order.symm)
      · exact (Account.alter_pending_of_ne hxb).trans ((Account.alter_pending_of_ne hxa).trans hstart.pending.symm)
      · exact hstart.policy.symm
    refine ((((hstart.trans htraded).trans (hothers₃ x hxb)).trans (hothers₄ x hxa)).trans
      (elsewhere_emitAll W₄ hevents ?_)).lives
    simp [pairEvents, BookEvent.about, Ne.symm hx, Ne.symm hxb, Ne.symm hxa]

/-! ## The lives of all orders -/

/-- A deal is a step in the life of every order. -/
theorem Deal.lives (h : Inv D q W ∅) (hd : Deal D q W W') (hx : x ≠ 0) : Lives W W' x := by
  cases hd with
  | aside _ ha => exact ha.lives h x
  | withdrawn _ _ _ _ hw => exact hw.lives x
  | released _ _ _ _ _ hr => exact hr.lives x
  | filled _ _ _ _ _ _ _ hf => exact hf.lives h hx
  | paired _ _ _ _ _ hp => exact hp.lives hx

/-- What the ids of orders have in a reachable state: a life, or nothing yet. -/
structure Recorded (W : World) : Prop where
  life : ∀ id, id ≠ 0 → id < W.book.nextOrderId → ∃ o₀, Life id (W.book.orderAllowsPartialFills id) o₀
    (W.book.orders id) (W.book.pendingShares id) (historyOf W.core.log id)
  unused : ∀ id, id ≠ 0 → W.book.nextOrderId ≤ id → historyOf W.core.log id = []

theorem Deal.next (hd : Deal D q W W') : W'.book.nextOrderId = W.book.nextOrderId := by
  have hfinish : ∀ {W W' : World} {T : Set Nat} {id : Nat}, Finished D q W T id W' →
      W'.book.nextOrderId = W.book.nextOrderId := by
    intro W W' T id hf
    cases hf with
    | kept _ hs => exact congrArg Account.nextOrderId hs.account
    | released _ _ _ hr => exact congrArg Account.nextOrderId hr.stretch.account
  cases hd with
  | aside _ ha =>
    obtain ⟨d, hb⟩ := ha.book
    rw [hb]
  | withdrawn _ _ _ _ hw => exact congrArg Account.nextOrderId hw.stretch.account
  | released _ _ _ _ _ hr => exact congrArg Account.nextOrderId hr.stretch.account
  | filled _ _ _ _ _ _ _ hf =>
    obtain ⟨W₁, W₂, he, hfin, rfl⟩ := hf.steps
    rw [book_emitAll]
    exact (hfinish hfin).trans (congrArg Account.nextOrderId he.stretch.account)
  | paired _ _ _ _ _ hp =>
    obtain ⟨gross, W₁, W₂, W₃, W₄, _, h₁, h₂, h₃, h₄, rfl⟩ := hp.steps
    rw [book_emitAll]
    exact (hfinish h₄).trans ((hfinish h₃).trans (congrArg Account.nextOrderId h₂.account))

/-- A life goes on. -/
theorem Lives.life {o₀ : Order} (hl : Lives W W' x) (h : Life x (W.book.orderAllowsPartialFills x) o₀ (W.book.orders x)
    (W.book.pendingShares x) (historyOf W.core.log x)) :
    Life x (W'.book.orderAllowsPartialFills x) o₀ (W'.book.orders x) (W'.book.pendingShares x)
      (historyOf W'.core.log x) := by
  obtain ⟨es, hes, hstep⟩ := hl.step
  rw [hl.policy, hes]
  exact .next _ _ _ _ _ es h hstep

/-- Nothing is logged about ids that have no order. -/
theorem Lives.unused (h : Inv D q W ∅) (hl : Lives W W' x) (hx : W.book.nextOrderId ≤ x)
    (hh : historyOf W.core.log x = []) : historyOf W'.core.log x = [] := by
  obtain ⟨es, hes, hstep⟩ := hl.step
  obtain ⟨hblank, hpend, _⟩ := h.custody.fresh x (.inr hx)
  rw [show W.book.orders x = .blank from hblank, show W.book.pendingShares x = 0 from hpend] at hstep
  rw [hes, hh, hstep.blank]
  rfl

theorem Opening.new {caller : Address} {o : Order} (h : Opening D W caller o) : o.New :=
  ⟨h.active, h.units.1, h.locked⟩

/-- Every deal keeps the records. -/
theorem Recorded.deal (h : Inv D q W ∅) (hr : Recorded W) (hd : Deal D q W W') : Recorded W' where
  life := fun id h0 hn => by
    rw [hd.next] at hn
    obtain ⟨o₀, hl⟩ := hr.life id h0 hn
    exact ⟨o₀, (hd.lives h h0).life hl⟩
  unused := fun id h0 hn => by
    rw [hd.next] at hn
    exact (hd.lives h h0).unused h hn (hr.unused id h0 hn)

/-- A new order begins its life. -/
theorem Recorded.place {caller : Address} {o : Order} (h : Inv D q W ∅) (hr : Recorded W)
    (hp : Placed D q W caller o W') : Recorded W' := by
  have hnext : W'.book.nextOrderId = W.book.nextOrderId + 1 := congrArg Account.nextOrderId hp.stretch.account
  have hother : ∀ id, id ≠ W.book.nextOrderId → Lives W W' id := fun id hid =>
    .of_other hp.stretch (Function.update_of_ne hid _ _) rfl (Function.update_of_ne hid _ _)
      fun e he => by rw [about_openEvents e he]; exact Ne.symm hid
  constructor
  · intro id h0 hn
    rw [hnext] at hn
    by_cases hid : id = W.book.nextOrderId
    · subst hid
      obtain ⟨_, hpend, _⟩ := h.custody.fresh W.book.nextOrderId (.inr le_rfl)
      obtain ⟨ho, hp', hpol, hh⟩ := hp.stretch.history W.book.nextOrderId
      have ho : W'.book.orders W.book.nextOrderId = o := ho.trans (Function.update_self _ _ _)
      have hpol : W'.book.orderAllowsPartialFills W.book.nextOrderId = W.book.defaultAllowPartialFills :=
        hpol.trans (Function.update_self _ _ _)
      have hp' : W'.book.pendingShares W.book.nextOrderId = 0 := hp'.trans hpend
      rw [hr.unused _ h0 le_rfl, List.nil_append, abouts_self about_openEvents] at hh
      rw [ho, hp', hpol, hh]
      exact ⟨o, .created hp.opening.new⟩
    · obtain ⟨o₀, hl⟩ := hr.life id h0 (by omega)
      exact ⟨o₀, (hother id hid).life hl⟩
  · intro id h0 hn
    rw [hnext] at hn
    exact (hother id (by omega)).unused h (by omega) (hr.unused id h0 (by omega))

theorem Recorded.deals (h : Inv D q W ∅) (hr : Recorded W) (hd : Run (Deal D q) W W') : Recorded W' := by
  induction hd with
  | refl => exact hr
  | tail hrun hd ih => exact ih.deal (deals_inv h hrun) hd

/-- In every reachable state every order has a life. -/
theorem Reachable.recorded (h : Reachable D q W) : Recorded W := by
  have hboth : Inv D q W ∅ ∧ Recorded W := by
    refine Reach.Reachable.invariant (I := fun W => Inv D q W ∅ ∧ Recorded W) (fun W h₀ => ?_)
      (fun W W' _ ⟨hinv, hr⟩ hs => ?_) h
    · refine ⟨genesis_inv h₀, fun id h0 hn => ?_, fun id _ _ => ?_⟩
      · rw [h₀.book] at hn
        have : id < 1 := hn
        omega
      · rw [h₀.core.log]
        rfl
    · have hdone := Step.done hinv hs
      refine ⟨hdone.inv hinv, ?_⟩
      cases hdone with
      | placed _ _ _ _ _ hp => exact hr.place hinv hp
      | dealt _ hd => exact hr.deals hinv hd
      | waited _ => exact ⟨hr.life, hr.unused⟩
  exact hboth.2

end

end World

end Cpredict
