import Cpredict.Book.Exit

/-!
# The cash of a bid over its life

What a bid locks at its creation is the price of its fills, the excess refunded after them, the payment returned at
its release and what it still locks (`PaymentKept`). A fill never costs more than its units at the limit of the bid,
so after every fill the locked payment still covers the reserve of what is left.
-/

namespace Cpredict

open Outcome MulDiv Tally Reach
open World (releaseEvents openEvents excessEvents)

namespace BookEvent

/-- What a fill cost. -/
def paidGross : BookEvent → Nat
  | .OrderFilled _ _ _ _ _ gross _ _ _ _ => gross
  | _ => 0

/-- What a bid got back beyond its reserve. -/
def refundedExcess : BookEvent → Nat
  | .BidExcessReturned _ _ amount => amount
  | _ => 0

/-- The payment that a release returned. -/
def returnedPayment : BookEvent → Nat
  | .OrderReleased _ _ _ _ payment => payment
  | _ => 0

/-- Where the locked payment of a bid goes. -/
def cashOut (e : BookEvent) : Nat := e.paidGross + e.refundedExcess + e.returnedPayment

end BookEvent

section

variable {id : Nat} {policy : Bool} {o₀ o o' : Order} {pending pending' : Nat} {h es : List BookEvent}

theorem tally_cashOut (es : List BookEvent) : tally BookEvent.cashOut es =
    tally BookEvent.paidGross es + tally BookEvent.refundedExcess es + tally BookEvent.returnedPayment es := by
  induction es with
  | nil => rfl
  | cons e es ih =>
    simp only [tally_cons, ih, BookEvent.cashOut]
    omega

/-- What has become of the payment of a bid, and that no fill cost more than its units at the limit. -/
structure PaymentKept (o₀ o : Order) (h : List BookEvent) : Prop where
  payment : o₀.lockedPayment = tally BookEvent.cashOut h + o.lockedPayment
  reserved : o.active = true → o.lockedPayment = reserve o.remainingUnits o.unitPrice
  limit : ∀ e ∈ h, e.paidGross ≤ grossOf e.tradedUnits o₀.unitPrice

theorem limit_append {price : Nat} (hh : ∀ e ∈ h, e.paidGross ≤ grossOf e.tradedUnits price)
    (he : ∀ e ∈ es, e.paidGross ≤ grossOf e.tradedUnits price) :
    ∀ e ∈ h ++ es, e.paidGross ≤ grossOf e.tradedUnits price := fun e hm =>
  (List.mem_append.mp hm).elim (hh e) (he e)

theorem paidGross_excessEvents : ∀ e ∈ excessEvents id o, e.paidGross = 0 := by
  intro e he
  unfold excessEvents at he
  split at he
  · cases he
  · rw [List.mem_singleton.mp he]
    rfl

theorem paidGross_releaseEvents {reason : ReleaseReason} {returned deferred : Nat} :
    ∀ e ∈ releaseEvents id o reason returned deferred, e.paidGross = 0 := by
  intro e he
  unfold releaseEvents at he
  split at he <;> simp at he
  · rw [he]
    rfl
  · rcases he with rfl | rfl <;> rfl

theorem cashOut_excessEvents : tally BookEvent.cashOut (excessEvents id o) = o.excess := by
  unfold excessEvents
  split
  · rename_i h0
    rw [h0]
    rfl
  · simp [BookEvent.cashOut, BookEvent.paidGross, BookEvent.refundedExcess, BookEvent.returnedPayment]

theorem cashOut_releaseEvents (id : Nat) (o : Order) (reason : ReleaseReason) (returned deferred : Nat) :
    tally BookEvent.cashOut (releaseEvents id o reason returned deferred) = o.lockedPayment := by
  rw [tally_releaseEvents _ _ _ _ _ _ rfl]
  simp [BookEvent.cashOut, BookEvent.paidGross, BookEvent.refundedExcess, BookEvent.returnedPayment]

/-- After a trade, a bid still has its reserve locked: the excess that `_finish` computes is not negative. -/
theorem Tradable.reserve_le {units price gross : Nat} (ht : Tradable o policy units price gross) (hs : o.side = .bid)
    (hl : o.lockedPayment = reserve o.remainingUnits o.unitPrice) :
    gross ≤ o.lockedPayment ∧
      reserve (o.traded units gross).remainingUnits o.unitPrice ≤ (o.traded units gross).lockedPayment := by
  have hsplit := Order.reserve_split ht.units_le (ht.limit hs)
  rw [← ht.gross_eq, ← hl] at hsplit
  rw [Order.traded_bid hs]
  refine ⟨by omega, ?_⟩
  show reserve (o.remainingUnits - units) o.unitPrice ≤ o.lockedPayment - gross
  omega

/-- The end of a trade keeps the reserve locked, refunds the excess, or returns everything. -/
theorem Ending.payment (he : Ending id o pending o' pending' es) (hs : o.side = .bid)
    (hl : reserve o.remainingUnits o.unitPrice ≤ o.lockedPayment) :
    o.lockedPayment = tally BookEvent.cashOut es + o'.lockedPayment ∧
      (o'.active = true → o'.lockedPayment = reserve o'.remainingUnits o'.unitPrice) ∧
      ∀ e ∈ es, e.paidGross = 0 := by
  cases he with
  | kept _ =>
    rw [cashOut_excessEvents]
    refine ⟨?_, fun _ => ?_, paidGross_excessEvents⟩
    · unfold Order.excess
      rw [Order.relock_bid hs]
      show _ = o.lockedPayment - reserve _ _ + reserve _ _
      omega
    · rw [Order.relock_bid hs]
  | dust returned deferred _ _ =>
    rw [cashOut_releaseEvents]
    exact ⟨rfl, fun ha => (by cases ha), paidGross_releaseEvents⟩

theorem PaymentKept.step (hk : PaymentKept o₀ o h) (ht : SameTerms o₀ o) (hs : o.side = .bid)
    (hstep : OrderStep id policy o pending o' pending' es) : PaymentKept o₀ o' (h ++ es) := by
  have hp := hk.payment
  have hzero : ∀ {es : List BookEvent}, (∀ e ∈ es, e.paidGross = 0) →
      ∀ e ∈ es, e.paidGross ≤ grossOf e.tradedUnits o₀.unitPrice := fun h0 e he => by
    rw [h0 e he]
    exact Nat.zero_le _
  cases hstep with
  | same => rw [List.append_nil]; exact hk
  | withdrawn recipient _ =>
    refine ⟨?_, hk.reserved, limit_append hk.limit (hzero (by simp [BookEvent.paidGross]))⟩
    rw [tally_append]
    exact hp
  | released reason returned deferred _ _ _ =>
    refine ⟨?_, fun ha => (by cases ha), limit_append hk.limit (hzero paidGross_releaseEvents)⟩
    rw [tally_append, cashOut_releaseEvents]
    exact hp
  | traded buyer seller units price gross platformFee creatorFee o' _ es htr he =>
    obtain ⟨hgross, hreserve⟩ := htr.reserve_le hs (hk.reserved htr.active)
    obtain ⟨hrest, hreserved, hnone⟩ := he.payment hs hreserve
    refine ⟨?_, hreserved, limit_append hk.limit (limit_append (hzero hnone) ?_)⟩
    · have hspent : (o.traded units gross).lockedPayment = o.lockedPayment - gross := by rw [Order.traded_bid hs]
      have hfill : BookEvent.cashOut (.OrderFilled id buyer seller units price gross platformFee creatorFee
          o'.remainingUnits o'.lockedPayment) = gross := rfl
      rw [tally_append, tally_append, tally_cons, tally_nil, hfill]
      omega
    · intro e he
      rw [List.mem_singleton.mp he]
      show gross ≤ grossOf units o₀.unitPrice
      rw [htr.gross_eq, ← ht.unitPrice]
      exact mulDiv_le_of_le le_rfl (htr.limit hs)

/-- The payment of a bid is accounted for over its life. -/
theorem Life.payment (hl : Life id policy o₀ o pending h) (hs : o₀.side = .bid) : PaymentKept o₀ o h := by
  induction hl with
  | created hnew =>
    have hlocked := hnew.locked
    rw [hs] at hlocked
    refine ⟨?_, fun _ => hlocked, by simp [openEvents, BookEvent.paidGross]⟩
    simp [openEvents, BookEvent.cashOut, BookEvent.paidGross, BookEvent.refundedExcess, BookEvent.returnedPayment]
  | next _ _ _ _ _ _ hl hstep ih => exact ih.step hl.terms (hl.terms.side.trans hs) hstep

/-- Fills within the limit one by one are within it together. -/
theorem tally_within_limit {price : Nat} (hl : ∀ e ∈ es, e.paidGross ≤ grossOf e.tradedUnits price) :
    tally BookEvent.paidGross es * SHARE_SCALE ≤ price * tally BookEvent.tradedUnits es := by
  induction es with
  | nil => simp
  | cons e es ih =>
    have hone : e.paidGross * SHARE_SCALE ≤ e.tradedUnits * price :=
      (Nat.mul_le_mul_right _ (hl e List.mem_cons_self)).trans (mulDiv_mul_le _ _ _)
    have hrest := ih fun x hx => hl x (List.mem_cons_of_mem _ hx)
    rw [Nat.mul_comm] at hone
    rw [tally_cons, tally_cons, Nat.add_mul, Nat.mul_add, Nat.mul_comm price, Nat.mul_comm e.paidGross]
    omega

theorem Life.locked (hl : Life id policy o₀ o pending h) (hs : o₀.side = .bid) :
    o₀.lockedPayment = reserve o₀.remainingUnits o₀.unitPrice := by
  induction hl with
  | created hnew =>
    have hlocked := hnew.locked
    rwa [hs] at hlocked
  | next _ _ _ _ _ _ _ _ ih => exact ih

end

namespace World

variable {D : Deployment} {q : Prop} {W : World}

/-- The payment that a bid locked is accounted for, no fills cost more than their units at its limit, and no call ends
with an underflow of its refund. -/
theorem bid_cash (h : Reachable D q W) :
    (∀ id, id ≠ 0 → id < W.book.nextOrderId → (W.book.orders id).side = .bid →
      ∃ o₀ es, historyOf W.core.log id = openEvents id o₀ (W.book.orderAllowsPartialFills id) ++ es ∧
        SameTerms o₀ (W.book.orders id) ∧ o₀.lockedPayment = reserve o₀.remainingUnits o₀.unitPrice ∧
        o₀.lockedPayment = tally BookEvent.paidGross es + tally BookEvent.refundedExcess es +
          tally BookEvent.returnedPayment es + (W.book.orders id).lockedPayment ∧
        (∀ e ∈ es, e.paidGross ≤ grossOf e.tradedUnits o₀.unitPrice) ∧
        ∀ fills, fills.Sublist es →
          tally BookEvent.paidGross fills * SHARE_SCALE ≤ o₀.unitPrice * tally BookEvent.tradedUnits fills) ∧
      ∀ (R : Receivers D q) caller c, exec D R W caller c ≠ .error .Panic := by
  have hinv := h.inv
  refine ⟨fun id h0 hn hs => ?_, fun R caller c hx => ((exec_ends hinv c).of_error hx).1 rfl⟩
  obtain ⟨o₀, hl⟩ := h.recorded.life id h0 hn
  have hs₀ : o₀.side = .bid := hl.terms.side.symm.trans hs
  have hk := hl.payment hs₀
  obtain ⟨es, hes⟩ := hl.opened
  have hlimit : ∀ e ∈ es, e.paidGross ≤ grossOf e.tradedUnits o₀.unitPrice := fun e he =>
    hk.limit e (hes ▸ List.mem_append_right _ he)
  refine ⟨o₀, es, hes, hl.terms, hl.locked hs₀, ?_, hlimit, fun fills hf => ?_⟩
  · have hp := hk.payment
    rw [hes, tally_append, tally_cashOut es] at hp
    have hopen : tally BookEvent.cashOut (openEvents id o₀ (W.book.orderAllowsPartialFills id)) = 0 := rfl
    omega
  · exact tally_within_limit fun e he => hlimit e (hf.subset he)

end World

/-- Bob's bid of the sample orderbook after its match. -/
theorem bid_cash_sample : ∃ o₀ es, historyOf (Sample.acted Sample.traded).core.log 2 =
      openEvents 2 o₀ ((Sample.acted Sample.traded).book.orderAllowsPartialFills 2) ++ es ∧
    o₀.lockedPayment = tally BookEvent.paidGross es + tally BookEvent.refundedExcess es +
      tally BookEvent.returnedPayment es + ((Sample.acted Sample.traded).book.orders 2).lockedPayment := by
  obtain ⟨o₀, es, hes, _, _, hp, _⟩ := (World.bid_cash (Sample.acted_reachable Sample.traded)).1 2 (by decide)
    (by decide +kernel) (by decide +kernel)
  exact ⟨o₀, es, hes, hp⟩

end Cpredict
