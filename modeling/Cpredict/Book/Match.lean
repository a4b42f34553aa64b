import Cpredict.Book.Trade

/-!
# Matching

A fill of `_matchOrders` is two trades at one price: the shares leave the ask for the buyer, then the payment leaves the
bid for the seller, and both orders end their transit (`Paired`). What a step of the loop did is a `Turned`; under the
invariant a step fails only where a transfer or the fee vault does, so never with an underflow and never with
`WholeOrderRequired` (`matchStep_ends`).
-/

namespace Cpredict

open Outcome Balances MulDiv

namespace Order

variable {o : Order} {units gross : Nat}

theorem traded_ask (h : o.side = .ask) :
    o.traded units gross = { o with remainingUnits := o.remainingUnits - units } := by
  unfold traded spent
  rw [h]
  rfl

theorem traded_bid (h : o.side = .bid) : o.traded units gross =
    { o with remainingUnits := o.remainingUnits - units, lockedPayment := o.lockedPayment - gross } := by
  unfold traded spent
  rw [h]

theorem given_ask (h : o.side = .ask) (units : Nat) : o.given units = units := by
  unfold given
  rw [h]

theorem given_bid (h : o.side = .bid) (units : Nat) : o.given units = 0 := by
  unfold given
  rw [h]

theorem spent_ask (h : o.side = .ask) (gross : Nat) : o.spent gross = 0 := by
  unfold spent
  rw [h]

theorem spent_bid (h : o.side = .bid) (gross : Nat) : o.spent gross = gross := by
  unfold spent
  rw [h]

end Order

namespace World

open Core (Grounded held Flow)

/-- The two orders of a fill in `_matchOrders`. -/
structure Crossing (W : World) (market : Address) (outcomeId bidId askId : Nat) : Prop where
  bid : (W.book.orders bidId).active = true ∧ (W.book.orders bidId).key = (market, outcomeId, .bid)
  ask : (W.book.orders askId).active = true ∧ (W.book.orders askId).key = (market, outcomeId, .ask)
  crossed : (W.book.orders askId).unitPrice ≤ (W.book.orders bidId).unitPrice

/-- The price of a fill: that of the older order. -/
def makerPrice (W : World) (bidId askId : Nat) : Nat :=
  (W.book.orders (if bidId < askId then bidId else askId)).unitPrice

/-- The units of a fill. -/
def pairUnits (W : World) (bidId askId : Nat) : Nat :=
  min (W.book.orders bidId).remainingUnits (W.book.orders askId).remainingUnits

/-- The account once the ask has given its units. -/
def askTraded (W : World) (bidId askId gross : Nat) : Account :=
  W.book.account.alter askId ((W.book.orders askId).traded (W.pairUnits bidId askId) gross) (W.book.pendingShares askId)
    W.book.totalLockedPayment

/-- The account once the bid has paid as well. -/
def pairTraded (W : World) (bidId askId gross : Nat) : Account :=
  (W.askTraded bidId askId gross).alter bidId ((W.book.orders bidId).traded (W.pairUnits bidId askId) gross)
    (W.book.pendingShares bidId) (W.book.totalLockedPayment - gross)

/-- What a fill in `_matchOrders` logs at its end, with the two orders as they are then. -/
def pairEvents (W : World) (market : Address) (outcomeId bidId askId gross : Nat) (bid ask : Order) : List BookEvent :=
  let units := W.pairUnits bidId askId
  let price := W.makerPrice bidId askId
  let f := W.fees market gross
  [.OrderFilled bidId bid.owner ask.owner units price gross f.platform f.creator bid.remainingUnits bid.lockedPayment,
    .OrderFilled askId bid.owner ask.owner units price gross f.platform f.creator ask.remainingUnits ask.lockedPayment,
    .TradeExecuted askId market bid.owner ask.owner outcomeId units price gross f.platform f.creator true
      ask.remainingUnits,
    .OrdersMatched bidId askId (if bidId < askId then bidId else askId) units price]

/-- A fill in `_matchOrders`: the delivery, the payment, the end of both transits, and the log. -/
structure Paired (D : Deployment) (q : Prop) (W : World) (market : Address) (outcomeId bidId askId : Nat) (W' : World) :
    Prop where
  crossing : Crossing W market outcomeId bidId askId
  positive : grossOf (W.pairUnits bidId askId) (W.makerPrice bidId askId) ≠ 0
  whole : W.book.orderAllowsPartialFills bidId = false ∨ W.book.orderAllowsPartialFills askId = false →
    (W.book.orders bidId).remainingUnits = (W.book.orders askId).remainingUnits
  steps : ∃ gross W₁ W₂ W₃ W₄, gross = grossOf (W.pairUnits bidId askId) (W.makerPrice bidId askId) ∧
    Stretch D q W W₁ W.book.account ∅ (less (held D W.core) (W.book.orders askId) (W.pairUnits bidId askId)) 0 0 [] ∧
    Stretch D q W₁ W₂ (W.pairTraded bidId askId gross) {askId, bidId} (held D W₁.core) 0 gross [] ∧
    Finished D q W₂ {askId, bidId} bidId W₃ ∧ Finished D q W₃ ({askId, bidId} \ {bidId}) askId W₄ ∧
    W' = (W.pairEvents market outcomeId bidId askId gross (W₄.book.orders bidId) (W₄.book.orders askId)).foldl emit W₄

section

variable {D : Deployment} {q : Prop} {R : Receivers D q} {W W₁ W₂ W' : World} {market : Address}
  {outcomeId bidId askId gross : Nat}

namespace Crossing

theorem bid_side (h : Crossing W market outcomeId bidId askId) : (W.book.orders bidId).side = .bid :=
  congrArg (fun k => k.2.2) h.bid.2

theorem ask_side (h : Crossing W market outcomeId bidId askId) : (W.book.orders askId).side = .ask :=
  congrArg (fun k => k.2.2) h.ask.2

theorem ask_vault (h : Crossing W market outcomeId bidId askId) : (W.book.orders askId).vault = market :=
  congrArg Prod.fst h.ask.2

theorem ask_outcome (h : Crossing W market outcomeId bidId askId) : (W.book.orders askId).outcomeId = outcomeId :=
  congrArg (fun k => k.2.1) h.ask.2

theorem ne (h : Crossing W market outcomeId bidId askId) : bidId ≠ askId := by
  rintro rfl
  have hside := h.bid_side
  rw [h.ask_side] at hside
  cases hside

/-- The price of the older order is between the two prices. -/
theorem price (h : Crossing W market outcomeId bidId askId) :
    (W.book.orders askId).unitPrice ≤ W.makerPrice bidId askId ∧
      W.makerPrice bidId askId ≤ (W.book.orders bidId).unitPrice := by
  unfold makerPrice
  split
  · exact ⟨h.crossed, le_rfl⟩
  · exact ⟨le_rfl, h.crossed⟩

end Crossing

/-- The bid is still as it was when the ask has given its units. -/
theorem askTraded_orders_of_ne {id : Nat} (h : id ≠ askId) (gross : Nat) :
    (W.askTraded bidId askId gross).orders id = W.book.orders id := Account.alter_orders_of_ne h

theorem pairTraded_orders_bid : (W.pairTraded bidId askId gross).orders bidId =
    (W.book.orders bidId).traded (W.pairUnits bidId askId) gross := Account.alter_orders_self

theorem pairTraded_orders_ask (h : bidId ≠ askId) : (W.pairTraded bidId askId gross).orders askId =
    (W.book.orders askId).traded (W.pairUnits bidId askId) gross :=
  (Account.alter_orders_of_ne h.symm).trans Account.alter_orders_self

/-- The delivery of a fill: the ask goes into transit. -/
theorem Crossing.deliver (hc : Crossing W market outcomeId bidId askId) (h : Inv D q W ∅)
    (hs : Stretch D q W W₁ W.book.account ∅ (less (held D W.core) (W.book.orders askId) (W.pairUnits bidId askId)) 0 0
      [])
    (hg : gross = grossOf (W.pairUnits bidId askId) (W.makerPrice bidId askId)) :
    Custody D q W₁.core (W.askTraded bidId askId gross) {askId} := by
  have hspent : (W.book.orders askId).spent gross = 0 := Order.spent_ask hc.ask_side gross
  have hflow := hs.flow
  rw [← Order.given_ask hc.ask_side (W.pairUnits bidId askId)] at hflow
  have htrade := h.custody.trade askId (W.makerPrice bidId askId) hflow hc.ask.1 (min_le_right _ _)
    (fun hb => by rw [show (W.book.account.orders askId).side = .ask from hc.ask_side] at hb; cases hb)
    (Set.mem_singleton askId) (fun x hx => by simp [hx]) (by
      rw [← hg, show (W.book.account.orders askId).spent gross = 0 from hspent]
      rfl)
  rw [← hg, show (W.book.account.orders askId).spent gross = 0 from hspent, Nat.sub_zero] at htrade
  exact htrade

/-- The payment of a fill: the bid goes into transit as well. -/
theorem Crossing.settle (hc : Crossing W market outcomeId bidId askId) (h : Inv D q W ∅)
    (hs : Stretch D q W W₁ W.book.account ∅ (less (held D W.core) (W.book.orders askId) (W.pairUnits bidId askId)) 0 0
      [])
    (hg : gross = grossOf (W.pairUnits bidId askId) (W.makerPrice bidId askId))
    (hs₂ : Stretch D q W₁ W₂ (W.pairTraded bidId askId gross) {askId, bidId} (held D W₁.core) 0 gross []) :
    Inv D q W₂ {askId, bidId} := by
  refine ⟨hs₂.grounded, hs₂.indexed, ?_⟩
  rw [hs₂.account]
  have hask := hc.deliver h hs hg
  have hbid : (W.askTraded bidId askId gross).orders bidId = W.book.orders bidId := askTraded_orders_of_ne hc.ne gross
  have hspent : (W.book.orders bidId).spent gross = gross := Order.spent_bid hc.bid_side gross
  have hle : gross ≤ W.book.totalLockedPayment := by
    have hle := h.custody.spent_le_total bidId (W.makerPrice bidId askId) hc.bid.1
      (show W.pairUnits bidId askId ≤ _ from min_le_left _ _) fun _ => hc.price.2
    rwa [← hg, show (W.book.account.orders bidId).spent gross = gross from hspent] at hle
  have hnone : held D W₁.core =
      less (held D W₁.core) ((W.askTraded bidId askId gross).orders bidId)
        (((W.askTraded bidId askId gross).orders bidId).given (W.pairUnits bidId askId)) := by
    rw [hbid, Order.given_bid hc.bid_side, less_zero]
  have hflow := hs₂.flow
  rw [hnone] at hflow
  have htrade := hask.trade bidId (W.makerPrice bidId askId) hflow (by rw [hbid]; exact hc.bid.1)
    (by rw [hbid]; exact min_le_left _ _) (fun _ => by rw [hbid]; exact hc.price.2)
    (show bidId ∈ ({askId, bidId} : Set Nat) from .inr rfl)
    (fun x hx => by simp [hx]) (by
      rw [← hg, hbid, hspent]
      show W.book.totalLockedPayment - gross + gross = W.book.totalLockedPayment + 0
      omega)
  rw [← hg, hbid, hspent] at htrade
  have hpending : (W.askTraded bidId askId gross).pendingShares bidId = W.book.pendingShares bidId :=
    Account.alter_pending_of_ne hc.ne
  rw [hpending] at htrade
  exact htrade

theorem Paired.inv (h : Inv D q W ∅) (hp : Paired D q W market outcomeId bidId askId W') : Inv D q W' ∅ := by
  obtain ⟨gross, W₁, W₂, W₃, W₄, hg, h₁, h₂, h₃, h₄, rfl⟩ := hp.steps
  have hne := hp.crossing.ne
  have hinv₂ := hp.crossing.settle h h₁ hg h₂
  have hinv₃ := h₃.inv hinv₂ (.inr rfl)
  have hinv₄ := h₄.inv hinv₃ ⟨.inl rfl, fun hx => hne hx.symm⟩
  have hempty : (({askId, bidId} : Set Nat) \ {bidId}) \ {askId} = ∅ := by
    ext x
    simp only [Set.mem_sdiff, Set.mem_insert_iff, Set.mem_singleton_iff, Set.mem_empty_iff_false, iff_false]
    tauto
  rw [hempty] at hinv₄
  exact hinv₄.emitAll _

/-! ## The code of a fill -/

/-- The storage of a fill before the payment: both orders out of the books, with less units and less payment. -/
theorem settle_books {b : Book} {units : Nat} (gross : Nat) (hi : b.Indexed ∅) (hne : bidId ≠ askId)
    (hb : (b.orders bidId).side = .bid) (ha : (b.orders askId).side = .ask)
    (hub : units ≤ (b.orders bidId).remainingUnits ∧ (b.orders bidId).remainingUnits < 2 ^ 128)
    (hua : units ≤ (b.orders askId).remainingUnits ∧ (b.orders askId).remainingUnits < 2 ^ 128)
    (hl : gross ≤ (b.orders bidId).lockedPayment) (ht : gross ≤ b.totalLockedPayment) :
    ∃ b₁ b₂ b₃ b₄ b₅, b.remove bidId = .ok b₁ ∧ b₁.remove askId = .ok b₂ ∧ b₂.reduce bidId units = .ok b₃ ∧
      b₃.reduce askId units = .ok b₄ ∧ b₄.spendBid bidId gross = .ok b₅ ∧
      b₅.account = (b.account.alter askId ((b.orders askId).traded units gross) (b.pendingShares askId)
        b.totalLockedPayment).alter bidId ((b.orders bidId).traded units gross) (b.pendingShares bidId)
        (b.totalLockedPayment - gross) ∧
      b₅.Indexed {askId, bidId} := by
  obtain ⟨b₁, h₁, hre₁, hi₁⟩ := Book.remove_spec hi bidId
  obtain ⟨b₂, h₂, hre₂, hi₂⟩ := Book.remove_spec hi₁ askId
  rw [insert_empty_eq] at hi₂
  have hacc₂ : b₂.account = b.account := hre₂.account.trans hre₁.account
  have ho₂ : b₂.orders = b.orders := congrArg Account.orders hacc₂
  obtain ⟨b₃, h₃, hacc₃, hi₃⟩ := Book.reduce_spec hi₂ (show bidId ∈ _ from .inr rfl)
    (show units ≤ _ by rw [ho₂]; exact hub.1)
    (by rw [ho₂]; exact hub.2)
  rw [hacc₂, ho₂] at hacc₃
  have hbid₃ : b₃.orders bidId = { b.orders bidId with remainingUnits := (b.orders bidId).remainingUnits - units } :=
    (congrArg (fun a : Account => a.orders bidId) hacc₃).trans (Function.update_self _ _ _)
  have hask₃ : b₃.orders askId = b.orders askId :=
    (congrArg (fun a : Account => a.orders askId) hacc₃).trans (Function.update_of_ne hne.symm _ _)
  obtain ⟨b₄, h₄, hacc₄, hi₄⟩ := Book.reduce_spec hi₃ (show askId ∈ _ from .inl rfl)
    (show units ≤ _ by rw [hask₃]; exact hua.1)
    (by rw [hask₃]; exact hua.2)
  have hbid₄ : b₄.orders bidId = b₃.orders bidId :=
    (congrArg (fun a : Account => a.orders bidId) hacc₄).trans (Function.update_of_ne hne _ _)
  rw [hacc₃, hask₃] at hacc₄
  have htotal₄ : b₄.totalLockedPayment = b.totalLockedPayment := congrArg Account.totalLockedPayment hacc₄
  obtain ⟨b₅, h₅, hacc₅, hi₅⟩ := Book.spendBid_spec hi₄ (show bidId ∈ _ from .inr rfl)
    (show gross ≤ _ by rw [hbid₄, hbid₃]; exact hl) (by rw [htotal₄]; exact ht)
  refine ⟨b₁, b₂, b₃, b₄, b₅, h₁, h₂, h₃, h₄, h₅, ?_, hi₅⟩
  rw [hacc₅, hacc₄, hbid₄, hbid₃, htotal₄, Order.traded_bid hb, Order.traded_ask ha]
  -- the bid is written twice, and no pending shares change
  simp only [Account.alter, Account.setOrder, Account.setPending, Account.setTotal, Account.mk.injEq,
    true_and, and_true]
  refine ⟨?_, ?_⟩
  · rw [Function.update_comm hne, Function.update_idem]
  · have hsame : b.account.pendingShares = b.pendingShares := rfl
    rw [hsame, Function.update_eq_self, Function.update_eq_self]

/-- The rest of a fill once the shares are delivered. -/
theorem settle_ends (hc : Crossing W market outcomeId bidId askId) (h : Inv D q W ∅)
    (hw : W.book.orderAllowsPartialFills bidId = false ∨ W.book.orderAllowsPartialFills askId = false →
      (W.book.orders bidId).remainingUnits = (W.book.orders askId).remainingUnits)
    (hpos : grossOf (W.pairUnits bidId askId) (W.makerPrice bidId askId) ≠ 0)
    (hs : Stretch D q W W₁ W.book.account ∅ (less (held D W.core) (W.book.orders askId) (W.pairUnits bidId askId)) 0 0
      []) :
    Ends (settle D R W₁ market outcomeId bidId askId (if bidId < askId then bidId else askId) (W.pairUnits bidId askId)
        (W.makerPrice bidId askId) (grossOf (W.pairUnits bidId askId) (W.makerPrice bidId askId))
        (W.fees market (grossOf (W.pairUnits bidId askId) (W.makerPrice bidId askId))))
      (Paired D q W market outcomeId bidId askId) Plain := by
  have horders : W₁.book.orders = W.book.orders := congrArg Account.orders hs.account
  have hpending : W₁.book.pendingShares = W.book.pendingShares := congrArg Account.pendingShares hs.account
  have htotal : W₁.book.totalLockedPayment = W.book.totalLockedPayment :=
    congrArg Account.totalLockedPayment hs.account
  have hmarket : W.core.factory.isMarket market = true := by
    have hcreated := h.custody.created hc.ask.1
    rw [← hc.ask_vault]
    exact (h.custody.owned askId hcreated.1 hcreated.2).1
  generalize hg : grossOf (W.pairUnits bidId askId) (W.makerPrice bidId askId) = gross at hpos ⊢
  have hspent : gross ≤ (W.book.orders bidId).lockedPayment := by
    have hle := Order.spent_le (h.custody.order bidId) hc.bid.1 (show W.pairUnits bidId askId ≤ _ from min_le_left _ _)
      fun _ => hc.price.2
    rwa [hg, show (W.book.account.orders bidId).spent gross = gross from Order.spent_bid hc.bid_side gross] at hle
  obtain ⟨b₁, b₂, b₃, b₄, b₅, h₁, h₂, h₃, h₄, h₅, hacc, hi⟩ := settle_books (b := W₁.book) gross hs.indexed
    hc.ne (by rw [horders]; exact hc.bid_side) (by rw [horders]; exact hc.ask_side)
    (by rw [horders]; exact ⟨show W.pairUnits bidId askId ≤ _ from min_le_left _ _, (h.custody.order bidId).width⟩)
    (by rw [horders]; exact ⟨min_le_right _ _, (h.custody.order askId).width⟩) (by rw [horders]; exact hspent)
    (by rw [htotal]; exact hspent.trans (h.custody.locked_le bidId))
  rw [horders, hpending, htotal, hs.account] at hacc
  have hseller : (b₅.orders askId).owner ≠ D.marketplace := by
    rw [show b₅.orders askId = _ from (congrArg (fun a : Account => a.orders askId) hacc).trans
      (pairTraded_orders_ask hc.ne)]
    exact h.custody.owner_ne hc.ask.1
  unfold settle
  rw [h₁, ok_bind, h₂, ok_bind, h₃, ok_bind, h₄, ok_bind, h₅, ok_bind]
  refine Ends.bind (pay_ends (q := q) (W := { W₁ with book := b₅ }) hs.grounded hi hseller
    (hs.flow.calm.market market hmarket) (fees_le h.grounded hmarket gross)) fun W₂ _ ⟨_, hpay⟩ => ?_
  have hstretch : Stretch D q W₁ W₂ (W.pairTraded bidId askId gross) {askId, bidId} (held D W₁.core) 0 gross [] := by
    have hpay := hpay.since (W := W₁) rfl
    rw [show ({ W₁ with book := b₅ } : World).book.account = b₅.account from rfl, hacc] at hpay
    exact hpay
  have hinv₂ := hc.settle h hs hg.symm hstretch
  refine Ends.bind ((finish_ends (R := R) hinv₂ (.inr rfl)).mono (fun _ h => h) fun e he => ?_) fun W₃ _ h₃ => ?_
  · rw [he]; exact plain_of rfl
  have hinv₃ := h₃.inv hinv₂ (.inr rfl)
  refine Ends.bind ((finish_ends (R := R) hinv₃ (show askId ∈ _ from ⟨.inl rfl, fun hx => hc.ne hx.symm⟩)).mono
    (fun _ h => h) fun e he => ?_) fun W₄ _ h₄ => Ends.ok ?_
  · rw [he]; exact plain_of rfl
  rw [← hg] at hpos
  exact ⟨hc, hpos, hw, gross, W₁, W₂, W₃, W₄, hg.symm, hs, hstretch, h₃, h₄, rfl⟩

/-! ## A step of the loop -/

/-- What a step of `_matchOrders` does: nothing, the release of an order, or the fill of the two heads. -/
inductive Turned (D : Deployment) (q : Prop) (W : World) (market : Address) (outcomeId groupUnits : Nat) :
    Turn → World → Prop
  | stopped : Turned D q W market outcomeId groupUnits .stopped W
  | stale (id : Nat) (reason : ReleaseReason) (returned deferred : Nat) (W' : World) (hs : W.stale id = true)
    (hr : Released D q W ∅ id reason W' returned deferred) : Turned D q W market outcomeId groupUnits (.released id) W'
  | selfCross (bidId askId returned deferred : Nat) (W' : World)
    (hh : W.book.heads market outcomeId groupUnits = (bidId, askId))
    (hc : Crossing W market outcomeId bidId askId)
    (ho : (W.book.orders bidId).owner = (W.book.orders askId).owner)
    (hr : Released D q W ∅ (max bidId askId) .selfCross W' returned deferred) :
    Turned D q W market outcomeId groupUnits (.released (max bidId askId)) W'
  | rejected (bidId askId returned deferred : Nat) (W' : World)
    (hh : W.book.heads market outcomeId groupUnits = (bidId, askId))
    (hc : Crossing W market outcomeId bidId askId)
    (ho : (W.book.orders bidId).owner ≠ (W.book.orders askId).owner)
    (hr : Released D q W ∅ bidId .unfillableReceiver W' returned deferred) :
    Turned D q W market outcomeId groupUnits (.released bidId) W'
  | filled (bidId askId : Nat) (W' : World)
    (hh : W.book.heads market outcomeId groupUnits = (bidId, askId))
    (hq : W.book.Queued market outcomeId (W.book.considered market outcomeId groupUnits) .bid bidId ∧
      W.book.Queued market outcomeId (W.book.considered market outcomeId groupUnits) .ask askId)
    (hl : W.stale bidId = false ∧ W.stale askId = false)
    (ho : (W.book.orders bidId).owner ≠ (W.book.orders askId).owner)
    (hp : Paired D q W market outcomeId bidId askId W') :
    Turned D q W market outcomeId groupUnits
      (.filled bidId askId (W.pairUnits bidId askId) (W.makerPrice bidId askId)) W'

/-- A release in `_matchOrders`. -/
theorem release_plain {id : Nat} (h : Inv D q W ∅) (ha : (W.book.orders id).active = true) (reason : ReleaseReason) :
    Ends (release D R W id reason) (fun W' => ∃ returned deferred, Released D q W ∅ id reason W' returned deferred)
      Plain :=
  (release_ends h ha).mono (fun _ h => h) fun e he => by rw [he.1]; exact plain_of rfl

variable {groupUnits : Nat}

/-- The two heads cross: they trade, or the buyer rejects the shares. -/
theorem matchPair_ends (h : Inv D q W ∅) (hc : Crossing W market outcomeId bidId askId)
    (hh : W.book.heads market outcomeId groupUnits = (bidId, askId))
    (hq : W.book.Queued market outcomeId (W.book.considered market outcomeId groupUnits) .bid bidId ∧
      W.book.Queued market outcomeId (W.book.considered market outcomeId groupUnits) .ask askId)
    (hl : W.stale bidId = false ∧ W.stale askId = false)
    (ho : (W.book.orders bidId).owner ≠ (W.book.orders askId).owner) :
    Ends (matchPair D R W market outcomeId bidId askId)
      (fun x => Turned D q W market outcomeId groupUnits x.1 x.2) Plain := by
  have hwhole := hq.1.whole hq.2
  have hheld : W.pairUnits bidId askId ≤ held D W.core market outcomeId := by
    have hle := h.custody.ask_le hc.ask_side hc.ask.1
    rw [show W.book.account.orders askId = W.book.orders askId from rfl, hc.ask_vault, hc.ask_outcome] at hle
    exact (min_le_right _ _).trans hle
  have hmaker : (W.book.orders (if bidId < askId then bidId else askId)).unitPrice = W.makerPrice bidId askId := rfl
  have hunits : min (W.book.orders bidId).remainingUnits (W.book.orders askId).remainingUnits =
    W.pairUnits bidId askId := rfl
  unfold matchPair
  simp only [hmaker, hunits]
  rw [revertIf_neg _ fun hx => hx.2 (hwhole hx.1), ok_bind]
  by_cases hpos : grossOf (W.pairUnits bidId askId) (W.makerPrice bidId askId) = 0
  · rw [if_pos hpos]
    exact Ends.ok .stopped
  rw [if_neg hpos]
  refine Ends.revertIf (fun hlt => absurd hheld (not_le.mpr hlt)) fun _ => ?_
  have hdeliver := transferEscrowedShares_ends (R := R) market (W.book.orders bidId).owner outcomeId
    (W.pairUnits bidId askId) h.grounded h.indexed (h.custody.owner_ne hc.bid.1)
  cases ht : transferEscrowedShares D R W D.marketplace market (W.book.orders bidId).owner outcomeId
      (W.pairUnits bidId askId) with
  | ok W₁ =>
    obtain ⟨_, hs⟩ := hdeliver.of_ok ht
    rw [← hc.ask_vault, ← hc.ask_outcome] at hs
    exact Ends.bind (settle_ends hc h hwhole hpos hs) fun W₂ _ hp => Ends.ok (.filled bidId askId W₂ hh hq hl ho hp)
  | error e =>
    refine Ends.bind (release_plain h hc.bid.1 _) fun W₁ _ hrel => ?_
    obtain ⟨returned, deferred, hr⟩ := hrel
    exact Ends.ok (.rejected bidId askId returned deferred W₁ hh hc ho hr)

/-- A head that is not zero is in the queue. -/
theorem queued_of_head {queue : Option Nat} {side : Side} {id : Nat}
    (h : W.book.Heads market outcomeId queue side id) (h0 : id ≠ 0) : W.book.Queued market outcomeId queue side id :=
  h.elim (fun hx => absurd hx.1 h0) fun hx => hx.1

/-- A step of `_matchOrders` fails only where a transfer or the fee vault does. -/
theorem matchStep_ends (h : Inv D q W ∅) (market : Address) (outcomeId groupUnits : Nat) :
    Ends (matchStep D R W market outcomeId groupUnits)
      (fun x => Turned D q W market outcomeId groupUnits x.1 x.2) Plain := by
  obtain ⟨hbid, hask⟩ := Book.heads_spec h.indexed market outcomeId groupUnits
  rcases hh : W.book.heads market outcomeId groupUnits with ⟨bidId, askId⟩
  rw [hh] at hbid hask
  unfold matchStep
  rw [hh]
  simp only
  have hstale : ∀ id, W.stale id = true → (W.book.orders id).active = true := fun id hs => by
    simp only [stale, Bool.and_eq_true] at hs
    exact hs.1
  by_cases hsb : bidId ≠ 0 ∧ W.stale bidId = true
  · rw [if_pos hsb]
    refine Ends.bind (release_plain h (hstale _ hsb.2) _) fun W₁ _ hrel => ?_
    obtain ⟨returned, deferred, hr⟩ := hrel
    exact Ends.ok (.stale bidId _ returned deferred W₁ hsb.2 hr)
  rw [if_neg hsb]
  by_cases hsa : askId ≠ 0 ∧ W.stale askId = true
  · rw [if_pos hsa]
    refine Ends.bind (release_plain h (hstale _ hsa.2) _) fun W₁ _ hrel => ?_
    obtain ⟨returned, deferred, hr⟩ := hrel
    exact Ends.ok (.stale askId _ returned deferred W₁ hsa.2 hr)
  rw [if_neg hsa]
  by_cases h0 : bidId = 0 ∨ askId = 0
  · rw [if_pos h0]
    exact Ends.ok .stopped
  rw [if_neg h0]
  obtain ⟨hb0, ha0⟩ := not_or.mp h0
  have hqb := queued_of_head hbid hb0
  have hqa := queued_of_head hask ha0
  by_cases hprice : (W.book.orders bidId).unitPrice < (W.book.orders askId).unitPrice
  · rw [if_pos hprice]
    exact Ends.ok .stopped
  rw [if_neg hprice]
  have hc : Crossing W market outcomeId bidId askId :=
    ⟨⟨hqb.listed.1, hqb.listed.2.2⟩, ⟨hqa.listed.1, hqa.listed.2.2⟩, not_lt.mp hprice⟩
  by_cases ho : (W.book.orders bidId).owner = (W.book.orders askId).owner
  · rw [if_pos ho]
    have hmax : (if askId < bidId then bidId else askId) = max bidId askId := by
      split <;> omega
    have hactive : (W.book.orders (max bidId askId)).active = true := by
      rcases max_choice bidId askId with hm | hm
      · rw [hm]; exact hc.bid.1
      · rw [hm]; exact hc.ask.1
    rw [hmax]
    exact Ends.bind (release_plain h hactive _) fun W₁ _ ⟨returned, deferred, hr⟩ =>
      Ends.ok (.selfCross bidId askId returned deferred W₁ hh hc ho hr)
  · rw [if_neg ho]
    have hlive : ∀ id, id ≠ 0 → ¬(id ≠ 0 ∧ W.stale id = true) → W.stale id = false := fun id h0 hx => by
      simpa [h0] using hx
    exact matchPair_ends h hc hh ⟨hqb, hqa⟩ ⟨hlive _ hb0 hsb, hlive _ ha0 hsa⟩ ho

/-- A step keeps the invariant. -/
theorem Turned.inv {turn : Turn} (h : Inv D q W ∅) (ht : Turned D q W market outcomeId groupUnits turn W') :
    Inv D q W' ∅ := by
  have hempty : ∀ id : Nat, (∅ : Set Nat) \ {id} = ∅ := fun id => Set.empty_sdiff _
  cases ht with
  | stopped => exact h
  | stale id reason returned deferred _ _ hr => exact hempty id ▸ hr.inv h
  | selfCross bidId askId returned deferred _ _ _ _ hr => exact hempty _ ▸ hr.inv h
  | rejected bidId askId returned deferred _ _ _ _ hr => exact hempty bidId ▸ hr.inv h
  | filled _ _ _ _ _ _ _ hp => exact hp.inv h

end

end World

end Cpredict
