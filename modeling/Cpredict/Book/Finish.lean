import Cpredict.Book.Release

/-!
# Finishing an order

`_finish` ends the transit of an order whose units or payment a trade has changed: it releases what is left of the
order if that is dust, and otherwise lowers the locked payment of a bid to its reserve, returns the excess and lists the
order again (`Finished`). Under the invariant only the payment token can make it fail (`finish_ends`).
-/

namespace Cpredict

open Outcome Balances MulDiv

namespace Order

/-- The order with no more locked than its reserve. -/
def relock (o : Order) : Order :=
  { o with lockedPayment := match o.side with
      | .bid => reserve o.remainingUnits o.unitPrice
      | .ask => o.lockedPayment }

/-- What a bid has locked beyond its reserve. -/
def excess (o : Order) : Nat := o.lockedPayment - o.relock.lockedPayment

theorem relock_bid {o : Order} (h : o.side = .bid) :
    o.relock = { o with lockedPayment := reserve o.remainingUnits o.unitPrice } := by
  unfold relock
  rw [h]

theorem relock_ask {o : Order} (h : o.side = .ask) : o.relock = o := by
  cases o
  cases h
  rfl

theorem excess_ask {o : Order} (h : o.side = .ask) : o.excess = 0 := by
  unfold excess
  rw [relock_ask h, Nat.sub_self]

theorem relock_le {o : Order} {pending : Nat} {transit : Prop} (h : o.Sound pending transit) (ha : o.active = true) :
    o.relock.lockedPayment ≤ o.lockedPayment := by
  cases hs : o.side with
  | bid => rw [relock_bid hs]; exact h.covered hs ha
  | ask => rw [relock_ask hs]

/-- An order with no more locked than its reserve is no longer in transit. -/
theorem relock_sound {o : Order} {pending : Nat} {transit : Prop} (h : o.Sound pending transit) (ha : o.active = true) :
    o.relock.Sound pending False where
  inactive := fun hi => by rw [show o.relock.active = o.active from rfl, ha] at hi; cases hi
  ask := fun hs => by rw [relock_ask (o := o) hs]; exact h.ask hs
  bid := fun hs _ _ => by rw [relock_bid (o := o) hs]
  covered := fun hs _ => by rw [relock_bid (o := o) hs]
  transit := False.elim
  deferred := h.deferred
  width := h.width

end Order

namespace World

open Core (Grounded held Flow)

/-- What is logged about the payment that a bid gets back beyond its reserve. -/
def excessEvents (id : Nat) (o : Order) : List BookEvent :=
  if o.excess = 0 then [] else [.BidExcessReturned id o.owner o.excess]

/-- The end of a transit: the order is listed again, or it is dust and released. -/
inductive Finished (D : Deployment) (q : Prop) (W : World) (T : Set Nat) (id : Nat) (W' : World) : Prop
  | kept (dust : W.isDust id = false)
    (stretch : Stretch D q W W'
      (W.book.account.alter id (W.book.orders id).relock (W.book.pendingShares id)
        (W.book.totalLockedPayment - (W.book.orders id).excess)) (T \ {id})
      (held D W.core) 0 (W.book.orders id).excess
      (excessEvents id (W.book.orders id)))
  | released (returned deferred : Nat) (dust : W.isDust id = true)
    (release : Released D q W T id .dust W' returned deferred)

section

variable {D : Deployment} {q : Prop} {R : Receivers D q} {W W' : World} {T : Set Nat} {id : Nat}

theorem Finished.inv (h : Inv D q W T) (hid : id ∈ T) (hf : Finished D q W T id W') : Inv D q W' (T \ {id}) := by
  cases hf with
  | released _ _ _ hr => exact hr.inv h
  | kept _ hs =>
    have hsound := h.custody.order id
    have ha := hsound.transit hid
    have hle := Order.relock_le hsound ha
    have hlocked := h.custody.locked_le id
    have hexcess : (W.book.orders id).excess + (W.book.orders id).relock.lockedPayment =
        (W.book.orders id).lockedPayment := Nat.sub_add_cancel hle
    refine ⟨hs.grounded, hs.indexed, ?_⟩
    rw [hs.account]
    refine h.custody.alter hs.flow (h.custody.created ha) rfl rfl ?_ (fun x hx => ?_) ?_ ?_ fun m j => ?_
    · rw [show (id ∈ T \ {id}) = False from eq_false fun hx => hx.2 rfl]
      exact Order.relock_sound hsound ha
    · exact ⟨fun hm => hm.1, fun hm => ⟨hm, hx⟩⟩
    · show W.book.totalLockedPayment - _ + (W.book.orders id).lockedPayment = W.book.totalLockedPayment + _
      have : (W.book.orders id).lockedPayment ≤ W.book.totalLockedPayment := hlocked
      omega
    · show W.book.totalLockedPayment - _ + _ = W.book.totalLockedPayment + 0
      have : (W.book.orders id).lockedPayment ≤ W.book.totalLockedPayment := hlocked
      omega
    · rfl

/-- The last line of `_finish` ends the transit of an active order. -/
theorem relist_stretch {a : Account} {s : Address → Nat → Nat} {got paid : Nat} {es : List BookEvent}
    (h : Stretch D q W W' a T s got paid es) (hid : id ∈ T) (ha : (a.orders id).active = true) :
    Stretch D q W (W'.relist id) a (T \ {id}) s got paid es := by
  have ha' : (W'.book.orders id).active = true := by
    rw [show W'.book.orders = W'.book.account.orders from rfl, h.account]
    exact ha
  unfold relist
  by_cases hm : (W'.book.orders id).autoMatch = true
  · rw [if_pos ⟨ha', hm⟩]
    obtain ⟨hre, hi⟩ := Book.insert_spec h.indexed hid ha' hm
    exact ⟨hre.account.trans h.account, hi, h.grounded, h.flow⟩
  · rw [if_neg fun hx => hm hx.2]
    exact ⟨h.account, h.indexed.drop id fun hx => hm hx.2, h.grounded, h.flow⟩

/-- A bid keeps its reserve locked and gets the rest back. -/
theorem returnExcess_ends (h : Inv D q W T) (hid : id ∈ T) (hs : (W.book.orders id).side = .bid) :
    Ends (returnExcess D W id)
      (fun W' => Stretch D q W W' ((W.book.account.setOrder id (W.book.orders id).relock).setTotal
          (W.book.totalLockedPayment - (W.book.orders id).excess)) T
        (held D W.core) 0 (W.book.orders id).excess
        (excessEvents id (W.book.orders id)))
      fun e => e = .ERC20Refused := by
  have hsound := h.custody.order id
  have ha := hsound.transit hid
  have hle := Order.relock_le hsound ha
  have hlocked : (W.book.orders id).lockedPayment ≤ W.book.totalLockedPayment := h.custody.locked_le id
  have hrelock := Order.relock_bid hs
  have hexcess : (W.book.orders id).excess =
      (W.book.orders id).lockedPayment - reserve (W.book.orders id).remainingUnits (W.book.orders id).unitPrice := by
    unfold Order.excess
    rw [hrelock]
  have hi : Book.Indexed { W.book.setOrder id (W.book.orders id).relock with
      totalLockedPayment := W.book.totalLockedPayment - (W.book.orders id).excess } T :=
    h.indexed.change ⟨rfl, rfl, rfl, rfl, rfl, rfl⟩ fun x hx =>
      ⟨Function.update_of_ne (fun e : x = id => hx (e ▸ hid)) _ _, rfl⟩
  unfold returnExcess excessEvents
  simp only
  refine Ends.checkedSub (hsound.covered hs ha) (Ends.checkedSub (by omega) ?_)
  rw [← hexcess, ← hrelock]
  by_cases hz : (W.book.orders id).excess = 0
  · rw [if_neg (not_not.mpr hz), if_pos hz, hz]
    rw [hz] at hi
    exact Ends.ok ((stretch_book h.grounded hi).since rfl)
  · rw [if_pos hz, if_neg hz]
    refine Ends.bind
      ((safeTransfer_ends (q := q) (W := { W with book := { W.book.setOrder id (W.book.orders id).relock with
      totalLockedPayment := W.book.totalLockedPayment - (W.book.orders id).excess } }) h.grounded hi
      (h.custody.owner_ne ha)).mono (fun _ h => h) fun e he => he.1) fun W₁ _ ⟨_, h₁⟩ => Ends.ok ?_
    have hemit := stretch_emit (q := q) (e := .BidExcessReturned id (W.book.orders id).owner (W.book.orders id).excess)
      h₁.grounded h₁.indexed rfl
    rw [h₁.account, h₁.flow.held] at hemit
    exact (h₁.trans hemit).since rfl

/-- `_finish` ends the transit of an order, unless the payment token refuses. -/
theorem finish_ends (h : Inv D q W T) (hid : id ∈ T) :
    Ends (finish D R W id) (Finished D q W T id) fun e => e = .ERC20Refused := by
  have ha : (W.book.orders id).active = true := (h.custody.order id).transit hid
  unfold finish
  by_cases hd : W.isDust id = true
  · rw [if_pos hd]
    refine Ends.bind ((release_ends h ha).mono (fun _ h => h) fun e he => he.1) fun W₁ _ ⟨returned, deferred, hr⟩ =>
      Ends.ok ?_
    -- a released order is not listed again
    have hclosed : (W₁.book.orders id).active = false := by
      rw [show W₁.book.orders = W₁.book.account.orders from rfl, hr.stretch.account, Account.alter_orders_self]
      rfl
    unfold relist
    rw [if_neg fun hx => by rw [hclosed] at hx; cases hx.1]
    exact .released returned deferred hd hr
  · rw [if_neg hd]
    have hd : W.isDust id = false := by simpa using hd
    have hkept : ((W.book.account.alter id (W.book.orders id).relock (W.book.pendingShares id)
        (W.book.totalLockedPayment - (W.book.orders id).excess)).orders id).active = true := by
      rw [Account.alter_orders_self]
      exact ha
    cases hs : (W.book.orders id).side with
    | bid =>
      refine Ends.bind (returnExcess_ends h hid hs) fun W₁ _ h₁ => Ends.ok (.kept hd (relist_stretch ?_ hid hkept))
      rw [show W.book.pendingShares = W.book.account.pendingShares from rfl, Account.alter_same_pending]
      exact h₁
    | ask =>
      refine Ends.ok (.kept hd (relist_stretch ?_ hid hkept))
      unfold excessEvents
      rw [Order.excess_ask hs, Order.relock_ask hs, if_pos rfl]
      have hself : W.book.account.alter id (W.book.orders id) (W.book.pendingShares id)
        (W.book.totalLockedPayment - 0) =
          W.book.account := Account.alter_self
      rw [hself]
      exact ⟨rfl, h.indexed, h.grounded, .refl _⟩

end

end World

end Cpredict
