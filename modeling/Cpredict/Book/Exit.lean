import Cpredict.Book.Policy

/-!
# Leaving the orderbook

The owner of an active order can always cancel it, and anybody can release it once it is stale; either way the owner
gets back exactly what the order holds, the shares of an ask at once or later (`GivenBack`). An order is released once
and its deferred shares are withdrawn once, so that over a whole run the units of an ask are accounted for.
-/

namespace Cpredict

open Outcome Balances Tally Reach
open World (releaseEvents openEvents)

/-! ## The units of an ask over its life -/

section

variable {id : Nat} {policy : Bool} {o₀ o o' : Order} {pending pending' : Nat} {h es : List BookEvent}

theorem tally_releaseEvents (f : BookEvent → Nat) (id : Nat) (o : Order) (reason : ReleaseReason)
    (returned deferred : Nat) (hf : f (.OrderSharesDeferred id o.owner 0) = 0) :
    tally f (releaseEvents id o reason returned deferred) = f (.OrderSharesDeferred id o.owner deferred) +
      f (.OrderReleased id o.owner reason returned o.lockedPayment) := by
  unfold releaseEvents
  by_cases hd : deferred = 0
  · subst hd
    simp [hf]
  · simp [hd]

theorem tally_excessEvents (f : BookEvent → Nat) (id : Nat) (o : Order)
    (hf : ∀ amount, f (.BidExcessReturned id o.owner amount) = 0) : tally f (World.excessEvents id o) = 0 := by
  unfold World.excessEvents
  split
  · rfl
  · simp [hf]

/-- The end of a trade keeps or releases what is left of the units of an ask. -/
theorem Ending.units (he : Ending id o pending o' pending' es) (hs : o.side = .ask) (hp : pending = 0) :
    o.remainingUnits = tally BookEvent.returnedUnits es + tally BookEvent.deferredUnits es + o'.remainingUnits ∧
      tally BookEvent.tradedUnits es = 0 ∧ tally BookEvent.withdrawnUnits es = 0 ∧
      tally BookEvent.deferredUnits es = pending' := by
  cases he with
  | kept _ =>
    rw [tally_excessEvents _ _ _ fun _ => rfl, tally_excessEvents _ _ _ fun _ => rfl,
      tally_excessEvents _ _ _ fun _ => rfl, tally_excessEvents _ _ _ fun _ => rfl]
    exact ⟨by show o.remainingUnits = 0 + 0 + o.remainingUnits; omega, rfl, rfl, hp.symm⟩
  | dust returned _ hsum _ =>
    rw [tally_releaseEvents _ _ _ _ _ _ rfl, tally_releaseEvents _ _ _ _ _ _ rfl, tally_releaseEvents _ _ _ _ _ _ rfl,
      tally_releaseEvents _ _ _ _ _ _ rfl]
    have hunits : o.askUnits = o.remainingUnits := by unfold Order.askUnits; rw [hs]
    simp only [BookEvent.returnedUnits, BookEvent.deferredUnits, BookEvent.tradedUnits, BookEvent.withdrawnUnits]
    rw [hunits] at hsum
    refine ⟨?_, trivial, trivial, Nat.add_zero _⟩
    show o.remainingUnits = _ + 0
    omega

/-- What has become of the units of an ask: sold, returned or deferred, or still offered. -/
structure UnitsKept (o₀ o : Order) (pending : Nat) (h : List BookEvent) : Prop where
  units : o₀.remainingUnits = tally BookEvent.tradedUnits h + tally BookEvent.returnedUnits h +
    tally BookEvent.deferredUnits h + o.remainingUnits
  deferred : tally BookEvent.deferredUnits h = tally BookEvent.withdrawnUnits h + pending
  active : o.active = true → pending = 0

theorem UnitsKept.step (hk : UnitsKept o₀ o pending h) (hs : o.side = .ask)
    (hstep : OrderStep id policy o pending o' pending' es) : UnitsKept o₀ o' pending' (h ++ es) := by
  have hu := hk.units
  have hd := hk.deferred
  cases hstep with
  | same => rw [List.append_nil]; exact hk
  | withdrawn recipient h0 =>
    refine ⟨?_, ?_, fun _ => rfl⟩ <;>
      simp only [tally_append, tally_cons, tally_nil, BookEvent.tradedUnits, BookEvent.returnedUnits,
        BookEvent.deferredUnits, BookEvent.withdrawnUnits] <;> omega
  | released reason returned _ ha hsum _ =>
    have hp := hk.active ha
    have hunits : o.askUnits = o.remainingUnits := by unfold Order.askUnits; rw [hs]
    rw [hunits] at hsum
    refine ⟨?_, ?_, fun hx => by cases hx⟩
    · rw [tally_append, tally_append, tally_append, tally_releaseEvents _ _ _ _ _ _ rfl,
        tally_releaseEvents _ _ _ _ _ _ rfl, tally_releaseEvents _ _ _ _ _ _ rfl]
      simp only [BookEvent.tradedUnits, BookEvent.returnedUnits, BookEvent.deferredUnits]
      show _ = _ + 0
      omega
    · rw [tally_append, tally_append, tally_releaseEvents _ _ _ _ _ _ rfl, tally_releaseEvents _ _ _ _ _ _ rfl]
      simp only [BookEvent.deferredUnits, BookEvent.withdrawnUnits]
      omega
  | traded buyer seller units price gross platformFee creatorFee _ _ es ht he =>
    have hp := hk.active ht.active
    obtain ⟨hrest, htraded, hwithdrawn, hpending⟩ := he.units hs hp
    have hleft : (o.traded units gross).remainingUnits + units = o.remainingUnits := Nat.sub_add_cancel ht.units_le
    refine ⟨?_, ?_, fun ha => ?_⟩
    · simp only [tally_append, tally_cons, tally_nil, BookEvent.tradedUnits, BookEvent.returnedUnits,
        BookEvent.deferredUnits] at hu ⊢
      omega
    · simp only [tally_append, tally_cons, tally_nil, BookEvent.deferredUnits, BookEvent.withdrawnUnits]
      omega
    · cases he with
      | kept _ => exact hp
      | dust _ _ _ _ => cases ha

/-- The units of an ask are accounted for over its life. -/
theorem Life.units (hl : Life id policy o₀ o pending h) (hs : o₀.side = .ask) : UnitsKept o₀ o pending h := by
  induction hl with
  | created _ =>
    refine ⟨?_, rfl, fun _ => rfl⟩
    simp [openEvents, BookEvent.tradedUnits, BookEvent.returnedUnits, BookEvent.deferredUnits]
  | next _ _ _ _ _ _ hl hstep ih => exact ih.step (hl.terms.side.trans hs) hstep

/-- An inactive order stays inactive, and only a withdrawal changes its deferred shares. -/
theorem OrderStep.inactive (hs : OrderStep id policy o pending o' pending' es) (ha : o.active = false) :
    o' = o ∧ (pending' = pending ∨ pending' = 0) := by
  cases hs with
  | same => exact ⟨rfl, .inl rfl⟩
  | withdrawn _ _ => exact ⟨rfl, .inr rfl⟩
  | released _ _ _ hact _ _ => rw [ha] at hact; cases hact
  | traded _ _ _ _ _ _ _ _ _ _ ht _ => rw [ht.active] at ha; cases ha

theorem Life.opened (hl : Life id policy o₀ o pending h) : ∃ es, h = openEvents id o₀ policy ++ es := by
  induction hl with
  | created _ => exact ⟨[], (List.append_nil _).symm⟩
  | next _ _ _ _ _ es _ _ ih =>
    obtain ⟨es', rfl⟩ := ih
    exact ⟨es' ++ es, List.append_assoc ..⟩

end

/-! ## What the owner gets back -/

namespace World

open Core (held Handed)

section

variable {D : Deployment} {q : Prop} {R : Receivers D q} {W W' W'' : World} {id : Nat} {caller recipient : Address}
  {reason : ReleaseReason}

/-- The orderbook hands `units` of the shares of an order to `recipient`, who accepts them after calls of its own. After
that it only logs `event`. -/
structure HandedOver (D : Deployment) {q : Prop} (R : Receivers D q) (W : World) (o : Order) (recipient : Address)
    (units : Nat) (event : BookEvent) (w : Core) (b : Book) (W₁ W' : World) : Prop where
  sent : W.core.moveShares D.marketplace o.vault D.marketplace recipient o.outcomeId units = .ok w
  handed : Handed W.core D.marketplace o.vault D.marketplace recipient o.outcomeId units w
  accepted : deliver D R ⟨w, b⟩ ⟨o.vault, D.marketplace, D.marketplace, recipient, o.outcomeId, units, none⟩ = .ok W₁
  calls : Run (Outside D q) ⟨w, b⟩ W₁
  after : W' = W₁.emit event

/-- What the owner of a released order gets: the locked payment of a bid, the units of an ask. The receiver may go on
with the units at once, so they are followed up to their acceptance. -/
inductive GivenBack (D : Deployment) {q : Prop} (R : Receivers D q) (W : World) (id : Nat) (o : Order)
    (reason : ReleaseReason) (W' : World) : Prop
  | payment : o.side = .bid →
    W'.core.token.balanceOf = move W.core.token.balanceOf D.marketplace o.owner o.lockedPayment →
    W'.book.pendingShares id = 0 → GivenBack D R W id o reason W'
  | empty : o.side = .ask → o.remainingUnits = 0 → GivenBack D R W id o reason W'
  | delivered (w : Core) (b : Book) (W₁ : World) : o.side = .ask →
    HandedOver D R W o o.owner o.remainingUnits
      (.OrderReleased id o.owner reason o.remainingUnits o.lockedPayment) w b W₁ W' →
    held D W'.core = less (held D W.core) o o.remainingUnits → W'.book.pendingShares id = 0 →
    GivenBack D R W id o reason W'
  | deferred : o.side = .ask → held D W'.core = held D W.core → W'.book.pendingShares id = o.remainingUnits →
    GivenBack D R W id o reason W'

/-- The order is closed, the others are as they were, and its owner gets back what it held. -/
structure Exit (D : Deployment) {q : Prop} (R : Receivers D q) (W : World) (id : Nat) (reason : ReleaseReason)
    (W' : World) : Prop where
  closed : W'.book.orders id = (W.book.orders id).close
  others : ∀ x, x ≠ id → W'.book.orders x = W.book.orders x ∧ W'.book.pendingShares x = W.book.pendingShares x
  back : GivenBack D R W id (W.book.orders id) reason W'

/-- Shares that the orderbook sends to somebody else, up to what it logs then. -/
theorem handedOver {o : Order} {units : Nat} {w : Core} {b : Book} {W₁ : World} (event : BookEvent)
    (hr : recipient ≠ D.marketplace)
    (hm : W.core.moveShares D.marketplace o.vault D.marketplace recipient o.outcomeId units = .ok w)
    (hd : deliver D R ⟨w, b⟩ ⟨o.vault, D.marketplace, D.marketplace, recipient, o.outcomeId, units, none⟩ = .ok W₁) :
    HandedOver D R W o recipient units event w b W₁ (W₁.emit event) := by
  refine ⟨hm, Core.moveShares_handed hm, hd, ?_, rfl⟩
  unfold deliver at hd
  rw [if_neg hr] at hd
  obtain ⟨_, _, hd⟩ := bind_eq_ok.mp hd
  split at hd
  · rename_i W₂ ha
    obtain rfl := Except.ok.inj hd
    exact R.lawful _ _ _ ha
  · cases hd

theorem returnPayment_balance {o : Order} (h : returnPayment D W o o.lockedPayment = .ok W') :
    W'.core.token.balanceOf = move W.core.token.balanceOf D.marketplace o.owner o.lockedPayment := by
  simp only [returnPayment, bind_eq_ok, checkedSub_eq_ok] at h
  obtain ⟨_, _, h⟩ := h
  split at h
  · simp only [safeTransfer, bind_eq_ok, Except.ok.injEq] at h
    obtain ⟨w, hp, rfl⟩ := h
    obtain ⟨_, rfl⟩ := Core.pay_eq_ok hp
    rfl
  · rename_i hz
    cases h
    rw [not_not.mp hz, move_zero]

/-- The shares are delivered, or they are deferred. -/
theorem returnShares_eq_ok {o : Order} {units : Nat} (hu : o.remainingUnits ≠ 0)
    (h : returnShares D R W id o o.remainingUnits = .ok (W', units)) :
    W'.book.pendingShares id = o.remainingUnits ∨ units = o.remainingUnits ∧ ∃ w,
      W.core.moveShares D.marketplace o.vault D.marketplace o.owner o.outcomeId o.remainingUnits = .ok w ∧
      deliver D R ⟨w, W.book⟩ ⟨o.vault, D.marketplace, D.marketplace, o.owner, o.outcomeId, o.remainingUnits, none⟩ =
        .ok W' := by
  simp only [returnShares, if_pos hu, bind_eq_ok] at h
  obtain ⟨_, _, h⟩ := h
  cases ht : transferEscrowedShares D R W D.marketplace o.vault o.owner o.outcomeId o.remainingUnits with
  | ok W₁ =>
    rw [ht] at h
    cases h
    simp only [transferEscrowedShares, safeTransferFrom, bind_eq_ok] at ht
    obtain ⟨_, _, w, hmove, hdeliver⟩ := ht
    exact .inr ⟨rfl, w, hmove, hdeliver⟩
  | error e =>
    rw [ht] at h
    cases h
    exact .inl (Function.update_self _ _ _)

/-- Only an active order is released. -/
theorem release_active (hr : release D R W id reason = .ok W') : (W.book.orders id).active = true := by
  by_contra hn
  unfold release at hr
  simp only at hr
  rw [revertIf_pos _ (by simpa using hn)] at hr
  cases hr

/-- A release that succeeds is an exit. -/
theorem release_exit (h : Inv D q W ∅) (hr : release D R W id reason = .ok W') : Exit D R W id reason W' := by
  have ha := release_active hr
  obtain ⟨returned, deferred, hrel⟩ := (release_ends h ha).of_ok hr
  obtain ⟨hclosed, hpending, _, _⟩ := hrel.stretch.history id
  rw [Account.alter_orders_self] at hclosed
  rw [Account.alter_pending_self] at hpending
  refine ⟨hclosed, fun x hx => ?_, ?_⟩
  · obtain ⟨ho, hp, _, _⟩ := hrel.stretch.history x
    exact ⟨ho.trans (Account.alter_orders_of_ne hx), hp.trans (Account.alter_pending_of_ne hx)⟩
  have hunits := hrel.units
  have hheld := hrel.stretch.flow.held
  have hr' := hr
  simp only [release, bind_eq_ok, Except.ok.injEq, Prod.exists] at hr'
  obtain ⟨_, _, b, _, W₁, units, hback, rfl⟩ := hr'
  unfold giveBack at hback
  unfold Order.askUnits at hunits
  cases hs : (W.book.orders id).side with
  | bid =>
    rw [hs] at hback hunits
    simp only [bind_eq_ok, Except.ok.injEq, Prod.mk.injEq] at hback
    obtain ⟨W₂, hpay, rfl, rfl⟩ := hback
    have hzero : deferred = 0 := by simp only at hunits; omega
    have hbalance := returnPayment_balance hpay
    exact .payment hs hbalance (hpending.trans hzero)
  | ask =>
    rw [hs] at hback hunits
    by_cases hz : (W.book.orders id).remainingUnits = 0
    · exact .empty hs hz
    rcases hrel.either with hret | hdef
    · rw [hret, less_zero] at hheld
      refine .deferred hs hheld (hpending.trans ?_)
      simp only at hunits
      omega
    · have hret : returned = (W.book.orders id).remainingUnits := by simp only at hunits; omega
      rcases returnShares_eq_ok hz hback with hpend | ⟨rfl, w, hmove, hdeliver⟩
      · have hpend : deferred = (W.book.orders id).remainingUnits := hpending.symm.trans hpend
        omega
      · rw [hret] at hheld
        exact .delivered w _ W₁ hs (handedOver _ (h.custody.owner_ne ha) hmove hdeliver) hheld (hpending.trans hdef)

/-! ## An order leaves once -/

/-- An order that has been created and is no longer active. -/
structure Closed (W : World) (id : Nat) : Prop where
  created : id ≠ 0 ∧ id < W.book.nextOrderId
  inactive : (W.book.orders id).active = false

theorem Lives.closed (hl : Lives W W' id) (ha : (W.book.orders id).active = false) :
    W'.book.orders id = W.book.orders id ∧ (W.book.pendingShares id = 0 → W'.book.pendingShares id = 0) := by
  obtain ⟨_, _, hstep⟩ := hl.step
  obtain ⟨ho, hp⟩ := hstep.inactive ha
  refine ⟨ho, fun hz => ?_⟩
  rcases hp with hp | hp
  · exact hp.trans hz
  · exact hp

theorem deals_closed (h : Inv D q W ∅) (hd : Run (Deal D q) W W') (hc : Closed W id) :
    W'.book.orders id = W.book.orders id ∧ (W.book.pendingShares id = 0 → W'.book.pendingShares id = 0) := by
  induction hd with
  | refl => exact ⟨rfl, fun hz => hz⟩
  | tail hrun hd ih =>
    obtain ⟨ho, hp⟩ := ih
    obtain ⟨ho', hp'⟩ := (hd.lives (deals_inv h hrun) hc.created.1).closed (by rw [ho]; exact hc.inactive)
    exact ⟨ho'.trans ho, fun hz => hp' (hp hz)⟩

/-- A closed order stays closed, and its deferred shares do not come back. -/
theorem Step.closed (h : Reachable D q W) (hs : Step D q W W') (hc : Closed W id) :
    Closed W' id ∧ (W.book.pendingShares id = 0 → W'.book.pendingShares id = 0) := by
  have hinv := h.inv
  cases Step.done hinv hs with
  | placed _ o _ _ _ hp =>
    obtain ⟨ho, hpend, _, _⟩ := hp.stretch.history id
    have hne : id ≠ W.book.nextOrderId := by
      have := hc.created.2
      omega
    have hnext : W'.book.nextOrderId = W.book.nextOrderId + 1 := congrArg Account.nextOrderId hp.stretch.account
    have ho : W'.book.orders id = W.book.orders id := ho.trans (Function.update_of_ne hne _ _)
    refine ⟨⟨⟨hc.created.1, ?_⟩, by rw [ho]; exact hc.inactive⟩, fun hz => hpend.trans hz⟩
    have := hc.created.2
    omega
  | dealt _ hd =>
    obtain ⟨ho, hp⟩ := deals_closed hinv hd hc
    exact ⟨⟨by rw [deals_next hd]; exact hc.created, by rw [ho]; exact hc.inactive⟩, hp⟩
  | waited _ => exact ⟨⟨hc.created, hc.inactive⟩, fun hz => hz⟩

theorem Run.closed (h : Reachable D q W) (hr : Run (Step D q) W W') (hc : Closed W id) :
    Closed W' id ∧ (W.book.pendingShares id = 0 → W'.book.pendingShares id = 0) := by
  induction hr with
  | refl => exact ⟨hc, fun hz => hz⟩
  | tail hrun hs ih =>
    obtain ⟨hc', hp⟩ := ih
    obtain ⟨hc'', hp'⟩ := Step.closed (h.run hrun) hs hc'
    exact ⟨hc'', fun hz => hp' (hp hz)⟩

/-- A closed order cannot be released. -/
theorem Closed.release (hc : Closed W id) : release D R W id reason ≠ .ok W' := by
  intro hr
  have ha := release_active hr
  rw [hc.inactive] at ha
  cases ha

/-- A call that releases an order. -/
def BookCall.Releases (id : Nat) : BookCall → Prop
  | .cancelOrder x => x = id
  | .releaseOrder x => x = id
  | _ => False

theorem exec_releases {c : BookCall} (hc : c.Releases id) (hx : exec D R W caller c = .ok W') :
    ∃ reason, World.release D R W id reason = .ok W' := by
  simp only [exec, bind_eq_ok] at hx
  obtain ⟨_, _, hx⟩ := hx
  cases c with
  | cancelOrder x =>
    obtain rfl : x = id := hc
    simp only [cancelOrder, bind_eq_ok] at hx
    exact ⟨_, hx.choose_spec.2⟩
  | releaseOrder x =>
    obtain rfl : x = id := hc
    simp only [releaseOrder, releaseStale, bind_eq_ok] at hx
    exact ⟨_, hx.choose_spec.2⟩
  | _ => exact hc.elim

/-- A release closes the order. -/
theorem release_closed (h : Inv D q W ∅) (hr : release D R W id reason = .ok W') : Closed W' id := by
  have ha := release_active hr
  obtain ⟨_, _, hrel⟩ := (release_ends h ha).of_ok hr
  have hnext : W'.book.nextOrderId = W.book.nextOrderId := congrArg Account.nextOrderId hrel.stretch.account
  refine ⟨?_, by rw [(release_exit h hr).closed]; rfl⟩
  rw [hnext]
  exact h.custody.created ha

theorem withdrawn_closed (h : Inv D q W ∅) (hw : Withdrawn D q W caller id recipient W') :
    Closed W' id ∧ W'.book.pendingShares id = 0 := by
  obtain ⟨ho, hp, _, _⟩ := hw.stretch.history id
  rw [Account.alter_orders_self] at ho
  have hnext : W'.book.nextOrderId = W.book.nextOrderId := congrArg Account.nextOrderId hw.stretch.account
  refine ⟨⟨?_, ?_⟩, hp.trans Account.alter_pending_self⟩
  · rw [hnext]
    exact h.custody.created_of_pending hw.pending
  · rw [ho]
    exact ((h.custody.order id).deferred hw.pending).2

/-- An order whose payment the token does not refuse can be released. -/
theorem release_succeeds (R : Receivers D q) (reason : ReleaseReason) (h : Inv D q W ∅)
    (ha : (W.book.orders id).active = true) (ht : (W.book.orders id).side = .bid →
      W.core.token.refuses D.marketplace (W.book.orders id).owner (W.book.orders id).lockedPayment = false) :
    ∃ W', release D R W id reason = .ok W' := by
  have hends : Ends (release D R W id reason) _ _ := release_ends h ha
  cases hr : release D R W id reason with
  | ok W' => exact ⟨W', rfl⟩
  | error e =>
    obtain ⟨_, hs, _, hrefuse⟩ := hends.of_error hr
    rw [ht hs] at hrefuse
    cases hrefuse

/-- The owner can cancel an active order, and anybody can release a stale one. -/
structure Leaves (D : Deployment) {q : Prop} (R : Receivers D q) (W : World) (id : Nat) : Prop where
  cancel : ∃ W', exec D R W (W.book.orders id).owner (.cancelOrder id) = .ok W'
  release : W.stale id = true → ∀ caller, D.outside caller = true → caller ≠ D.marketplace →
    ∃ W', exec D R W caller (.releaseOrder id) = .ok W'

theorem leaves (R : Receivers D q) (h : Inv D q W ∅) (ha : (W.book.orders id).active = true)
    (ht : (W.book.orders id).side = .bid →
      W.core.token.refuses D.marketplace (W.book.orders id).owner (W.book.orders id).lockedPayment = false) :
    Leaves D R W id := by
  obtain ⟨_, hout, hne⟩ := h.custody.owned id (h.custody.created ha).1 (h.custody.created ha).2
  have hout : D.outside (W.book.orders id).owner = true := hout
  have hne : (W.book.orders id).owner ≠ D.marketplace := hne
  refine ⟨?_, fun hstale caller hc hm => ?_⟩
  · unfold exec cancelOrder
    rw [revertIf_neg _ (by simp [hout, hne]), ok_bind]
    simp only
    rw [revertIf_neg _ (by simp), ok_bind]
    exact release_succeeds R .cancelled h ha ht
  · unfold exec releaseOrder releaseStale
    rw [revertIf_neg _ (by simp [hc, hm]), ok_bind]
    simp only
    rw [revertIf_neg _ (by simp [hstale]), ok_bind]
    exact release_succeeds R _ h ha ht

/-- The deferred shares of an order go to the recipient that its owner has named. -/
structure Withdraws (D : Deployment) {q : Prop} (R : Receivers D q) (W : World) (caller : Address) (id : Nat)
    (recipient : Address) (W' : World) : Prop where
  owner : (W.book.orders id).owner = caller
  pending : W.book.pendingShares id ≠ 0
  target : recipient ≠ 0 ∧ recipient ≠ D.marketplace
  delivered : ∃ w b W₁, HandedOver D R W (W.book.orders id) recipient (W.book.pendingShares id)
    (.OrderSharesWithdrawn id (W.book.orders id).owner recipient (W.book.pendingShares id)) w b W₁ W'
  shares : held D W'.core = less (held D W.core) (W.book.orders id) (W.book.pendingShares id)
  nothing : W'.book.pendingShares id = 0

theorem withdraw_handedOver (hr : recipient ≠ D.marketplace)
    (hx : exec D R W caller (.withdrawOrderShares id recipient) = .ok W') :
    ∃ w b W₁, HandedOver D R W (W.book.orders id) recipient (W.book.pendingShares id)
      (.OrderSharesWithdrawn id (W.book.orders id).owner recipient (W.book.pendingShares id)) w b W₁ W' := by
  simp only [exec, withdrawOrderShares, safeTransferFrom, bind_eq_ok, Except.ok.injEq] at hx
  obtain ⟨_, _, _, _, _, _, W₁, ⟨w, hm, hd⟩, rfl⟩ := hx
  exact ⟨w, _, W₁, handedOver _ hr hm hd⟩

/-- An order can always leave the orderbook, with all that it holds, and it leaves once. -/
theorem order_exit (h : Reachable D q W) :
    (∀ (R : Receivers D q) id, (W.book.orders id).active = true → ((W.book.orders id).side = .bid →
        W.core.token.refuses D.marketplace (W.book.orders id).owner (W.book.orders id).lockedPayment = false) →
      Leaves D R W id) ∧
      (∀ (R : Receivers D q) caller id (c : BookCall) W', c.Releases id → exec D R W caller c = .ok W' →
        (∃ reason, Exit D R W id reason W') ∧ ∀ W'', Run (Step D q) W' W'' →
          ∀ (R' : Receivers D q) caller' (c' : BookCall) W₃,
          c'.Releases id → exec D R' W'' caller' c' ≠ .ok W₃) ∧
      (∀ (R : Receivers D q) caller id recipient W', exec D R W caller (.withdrawOrderShares id recipient) = .ok W' →
        Withdraws D R W caller id recipient W' ∧ ∀ W'', Run (Step D q) W' W'' →
          ∀ (R' : Receivers D q) caller' recipient' W₃,
          exec D R' W'' caller' (.withdrawOrderShares id recipient') ≠ .ok W₃) ∧
      ∀ id, id ≠ 0 → id < W.book.nextOrderId → (W.book.orders id).side = .ask →
        ∃ o₀ es, historyOf W.core.log id = openEvents id o₀ (W.book.orderAllowsPartialFills id) ++ es ∧
          o₀.remainingUnits = tally BookEvent.tradedUnits es +
            (tally BookEvent.returnedUnits es + tally BookEvent.withdrawnUnits es) +
            ((W.book.orders id).remainingUnits + W.book.pendingShares id) := by
  have hinv := h.inv
  refine ⟨fun R id ha ht => leaves R hinv ha ht, fun R caller id c W' hc hx => ?_, fun R caller id recipient W' hx =>
    ?_,
    fun id h0 hn hs => ?_⟩
  · obtain ⟨reason, hr⟩ := exec_releases hc hx
    refine ⟨⟨reason, release_exit hinv hr⟩, fun W'' hrun R' caller' c' W₃ hc' hx' => ?_⟩
    have hlater := (Run.closed (h.next (.call R _ _ caller c hx)) hrun (release_closed hinv hr)).1
    obtain ⟨reason', hr'⟩ := exec_releases hc' hx'
    exact hlater.release hr'
  · have hw : Withdrawn D q W caller id recipient W' := by
      simp only [exec, bind_eq_ok] at hx
      obtain ⟨_, _, hx⟩ := hx
      exact (withdrawOrderShares_ends hinv).of_ok hx
    obtain ⟨hclosed, hzero⟩ := withdrawn_closed hinv hw
    refine ⟨⟨hw.owner, hw.pending, hw.target, withdraw_handedOver hw.target.2 hx, hw.stretch.flow.held, hzero⟩,
      fun W'' hrun R' caller' recipient' W₃ hx' => ?_⟩
    have hreach := h.next (.call R _ _ caller _ hx)
    have hlater := (Run.closed hreach hrun hclosed).2 hzero
    simp only [exec, bind_eq_ok] at hx'
    obtain ⟨_, _, hx'⟩ := hx'
    have hreach' : Reachable D q W'' := hreach.run hrun
    exact ((withdrawOrderShares_ends hreach'.inv).of_ok hx').pending hlater
  · obtain ⟨o₀, hl⟩ := h.recorded.life id h0 hn
    have hk := hl.units (hl.terms.side.symm.trans hs)
    obtain ⟨es, hes⟩ := hl.opened
    refine ⟨o₀, es, hes, ?_⟩
    have hu := hk.units
    have hd := hk.deferred
    rw [hes] at hu hd
    simp only [tally_append, openEvents, tally_cons, tally_nil, BookEvent.tradedUnits, BookEvent.returnedUnits,
      BookEvent.deferredUnits, BookEvent.withdrawnUnits] at hu hd
    omega

end

end World

namespace Sample

/-- Alice cancels her ask, but her receiver rejects the shares. -/
def cancelled : List Act := offer ++ [.book false alice (.cancelOrder 1)]

end Sample

/-- The ask of the sample orderbook can be cancelled; the rejected shares are deferred, and Bob's bid would have been
paid back. -/
theorem order_exit_sample :
    World.Leaves Sample.deployment (Sample.receivers false) (Sample.acted Sample.bid) 1 ∧
      World.Leaves Sample.deployment (Sample.receivers false) (Sample.acted Sample.bid) 2 ∧
      (Sample.acted Sample.cancelled).book.pendingShares 1 = 2000000 ∧
      (Sample.acted (Sample.cancelled ++ [.book true Sample.alice (.withdrawOrderShares 1
        Sample.bob)])).book.pendingShares 1 = 0 := by
  have h := (World.order_exit (Sample.acted_reachable Sample.bid)).1 (Sample.receivers false)
  exact ⟨h 1 (by decide +kernel) (by decide +kernel), h 2 (by decide +kernel) (by decide +kernel), by decide +kernel,
    by decide +kernel⟩

end Cpredict
