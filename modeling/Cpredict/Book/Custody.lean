import Cpredict.Book.Flow

/-!
# The custody invariant

`Custody` relates what the orderbook keeps of its orders to what it has: the locked payments to its payment tokens, the
units of active asks and the deferred shares to its shares. The orders in `T` are in transit: a call in progress has
taken units or payment out of them, and what a bid among them locks may exceed its reserve. `Custody.alter` is the
change of one order together with a flow, `Custody.place` the entry of a new one; every operation of the orderbook is a
sequence of these.
-/

namespace Cpredict

open Outcome Balances MulDiv Finset

namespace Order

/-- What the orderbook has for an order of the shares of an outcome: the units of an active ask and the deferred
ones. -/
def escrowed (o : Order) (pending : Nat) (market : Address) (outcomeId : Nat) : Nat :=
  if o.vault = market ∧ o.outcomeId = outcomeId then
    (if o.side = .ask ∧ o.active = true then o.remainingUnits else 0) + pending
  else 0

/-- An order by itself, with its deferred shares. -/
structure Sound (o : Order) (pending : Nat) (transit : Prop) : Prop where
  inactive : o.active = false → o.remainingUnits = 0 ∧ o.lockedPayment = 0
  ask : o.side = .ask → o.lockedPayment = 0
  bid : o.side = .bid → o.active = true → ¬transit → o.lockedPayment = reserve o.remainingUnits o.unitPrice
  covered : o.side = .bid → o.active = true → reserve o.remainingUnits o.unitPrice ≤ o.lockedPayment
  transit : transit → o.active = true
  deferred : pending ≠ 0 → o.side = .ask ∧ o.active = false
  width : o.remainingUnits < 2 ^ 128

theorem blank_sound : blank.Sound 0 False :=
  ⟨fun _ => ⟨rfl, rfl⟩, fun _ => rfl, nofun, nofun, False.elim, fun h => absurd rfl h, by decide⟩

theorem escrowed_blank (market : Address) (outcomeId : Nat) : blank.escrowed 0 market outcomeId = 0 := by
  unfold escrowed
  split <;> simp [blank]

/-- An order in its own market and outcome. -/
theorem escrowed_self (o : Order) (pending : Nat) :
    o.escrowed pending o.vault o.outcomeId =
      (if o.side = .ask ∧ o.active = true then o.remainingUnits else 0) + pending := if_pos ⟨rfl, rfl⟩

theorem escrowed_other {o : Order} {market : Address} {outcomeId : Nat}
    (h : ¬(o.vault = market ∧ o.outcomeId = outcomeId)) (pending : Nat) : o.escrowed pending market outcomeId = 0 :=
  if_neg h

/-- Two versions of an order, and the shares of the orderbook with the difference added or taken out. -/
theorem escrowed_change {o o' : Order} {n : Nat} (pending pending' : Nat) (f : Address → Nat → Nat) (n' : Nat)
    (hv : o'.vault = o.vault) (ho : o'.outcomeId = o.outcomeId)
    (h : n' + o.escrowed pending o.vault o.outcomeId = n + o'.escrowed pending' o.vault o.outcomeId)
    (hn : f o.vault o.outcomeId = n) (market : Address) (outcomeId : Nat) :
    update₂ f o.vault o.outcomeId n' market outcomeId + o.escrowed pending market outcomeId =
      f market outcomeId + o'.escrowed pending' market outcomeId := by
  by_cases hm : o.vault = market
  · by_cases hj : o.outcomeId = outcomeId
    · subst hm hj
      rw [update₂_self, hn]
      exact h
    · rw [escrowed_other (fun hx => hj hx.2), escrowed_other (fun hx => hj (ho.symm.trans hx.2)),
        update₂_other_holder _ _ (Ne.symm hj)]
  · rw [escrowed_other (fun hx => hm hx.1), escrowed_other (fun hx => hm (hv.symm.trans hx.1)),
      update₂_of_ne _ _ _ (Ne.symm hm)]

end Order

namespace Account

def setOrder (a : Account) (id : Nat) (o : Order) : Account := { a with orders := Function.update a.orders id o }

def setPending (a : Account) (id pending : Nat) : Account :=
  { a with pendingShares := Function.update a.pendingShares id pending }

def setTotal (a : Account) (total : Nat) : Account := { a with totalLockedPayment := total }

/-- The account with another version of one order. -/
def alter (a : Account) (id : Nat) (o : Order) (pending total : Nat) : Account :=
  ((a.setOrder id o).setPending id pending).setTotal total

variable {a : Account} {id x : Nat} {o : Order} {pending total : Nat}

theorem setPending_self (h : a.pendingShares id = pending) : a.setPending id pending = a := by
  subst h
  simp [setPending]

@[simp] theorem alter_orders_self : (a.alter id o pending total).orders id = o := Function.update_self _ _ _

@[simp] theorem alter_pending_self : (a.alter id o pending total).pendingShares id = pending :=
  Function.update_self _ _ _

theorem alter_orders_of_ne (h : x ≠ id) : (a.alter id o pending total).orders x = a.orders x :=
  Function.update_of_ne h _ _

theorem alter_pending_of_ne (h : x ≠ id) : (a.alter id o pending total).pendingShares x = a.pendingShares x :=
  Function.update_of_ne h _ _

theorem alter_same_pending : a.alter id o (a.pendingShares id) total = (a.setOrder id o).setTotal total := by
  show ((a.setOrder id o).setPending id ((a.setOrder id o).pendingShares id)).setTotal total = _
  rw [setPending_self rfl]

/-- An order written back unchanged. -/
theorem alter_self : a.alter id (a.orders id) (a.pendingShares id) a.totalLockedPayment = a := by
  rw [alter_same_pending]
  simp [setOrder, setTotal]

/-- Of two writes to an order the second one counts. -/
theorem setOrder_alter (o' : Order) : (a.setOrder id o').alter id o pending total = a.alter id o pending total := by
  simp [alter, setOrder, setPending, setTotal]

/-- The account with a new order. -/
def place (a : Account) (o : Order) (policy : Bool) (total : Nat) : Account :=
  { a with
    nextOrderId := a.nextOrderId + 1
    totalLockedPayment := total
    orders := Function.update a.orders a.nextOrderId o
    orderAllowsPartialFills := Function.update a.orderAllowsPartialFills a.nextOrderId policy }

end Account

namespace World

open Core (Grounded held Flow)

/-- What the orderbook keeps of its orders fits what it has. -/
structure Custody (D : Deployment) (q : Prop) (w : Core) (a : Account) (T : Set Nat) : Prop where
  next : 0 < a.nextOrderId
  fresh : ∀ id, id = 0 ∨ a.nextOrderId ≤ id → a.orders id = .blank ∧ a.pendingShares id = 0 ∧ id ∉ T
  owned : ∀ id, id ≠ 0 → id < a.nextOrderId → w.factory.isMarket (a.orders id).vault = true ∧
    D.outside (a.orders id).owner = true ∧ (a.orders id).owner ≠ D.marketplace
  order : ∀ id, (a.orders id).Sound (a.pendingShares id) (id ∈ T)
  receipt : a.expectedReceipt = none
  total : a.totalLockedPayment = ∑ id ∈ range a.nextOrderId, (a.orders id).lockedPayment
  cash : a.totalLockedPayment ≤ w.token.balanceOf D.marketplace
  exact : q → w.token.balanceOf D.marketplace = a.totalLockedPayment
  escrow : ∀ m j, held D w m j = ∑ id ∈ range a.nextOrderId, (a.orders id).escrowed (a.pendingShares id) m j

section

variable {D : Deployment} {q : Prop} {w w' : Core} {a : Account} {T T' : Set Nat} {id : Nat} {o : Order}

/-- An active order has been created. -/
theorem Custody.created (h : Custody D q w a T) (ha : (a.orders id).active = true) : id ≠ 0 ∧ id < a.nextOrderId := by
  constructor
  · rintro rfl
    rw [(h.fresh 0 (.inl rfl)).1] at ha
    cases ha
  · by_contra hn
    rw [(h.fresh id (.inr (by omega))).1] at ha
    cases ha

/-- An order with deferred shares has been created. -/
theorem Custody.created_of_pending (h : Custody D q w a T) (hp : a.pendingShares id ≠ 0) :
    id ≠ 0 ∧ id < a.nextOrderId := by
  constructor
  · rintro rfl
    exact hp (h.fresh 0 (.inl rfl)).2.1
  · by_contra hn
    exact hp (h.fresh id (.inr (by omega))).2.1

/-- The owner of an active order is not the orderbook. -/
theorem Custody.owner_ne (h : Custody D q w a T) (ha : (a.orders id).active = true) :
    (a.orders id).owner ≠ D.marketplace :=
  (h.owned id (h.created ha).1 (h.created ha).2).2.2

/-- The locked payment of an order is part of the total. -/
theorem Custody.locked_le (h : Custody D q w a T) (id : Nat) : (a.orders id).lockedPayment ≤ a.totalLockedPayment := by
  by_cases hn : id < a.nextOrderId
  · rw [h.total]
    exact le_sum (fun id => (a.orders id).lockedPayment) (mem_range.mpr hn)
  · rw [(h.fresh id (.inr (by omega))).1]
    exact Nat.zero_le _

/-- The shares of an order are part of what the orderbook has. -/
theorem Custody.escrowed_le (h : Custody D q w a T) (id : Nat) :
    (a.orders id).escrowed (a.pendingShares id) (a.orders id).vault (a.orders id).outcomeId ≤
      held D w (a.orders id).vault (a.orders id).outcomeId := by
  by_cases hn : id < a.nextOrderId
  · rw [h.escrow]
    exact le_sum (fun x => (a.orders x).escrowed (a.pendingShares x) (a.orders id).vault (a.orders id).outcomeId)
      (mem_range.mpr hn)
  · obtain ⟨h₁, h₂, _⟩ := h.fresh id (.inr (by omega))
    rw [h₁, h₂, Order.escrowed_blank]
    exact Nat.zero_le _

/-- The units of an active ask are in the escrow. -/
theorem Custody.ask_le (h : Custody D q w a T) (hs : (a.orders id).side = .ask) (ha : (a.orders id).active = true) :
    (a.orders id).remainingUnits ≤ held D w (a.orders id).vault (a.orders id).outcomeId := by
  have hle := h.escrowed_le id
  rw [Order.escrowed_self, if_pos ⟨hs, ha⟩] at hle
  omega

/-- A stretch in which the account does not change. -/
theorem Custody.keep (h : Custody D q w a T) (hm : ∀ m, w.factory.isMarket m = true → w'.factory.isMarket m = true)
    (hh : held D w' = held D w) (hc : w.token.balanceOf D.marketplace ≤ w'.token.balanceOf D.marketplace)
    (he : q → w'.token.balanceOf D.marketplace = w.token.balanceOf D.marketplace) : Custody D q w' a T where
  next := h.next
  fresh := h.fresh
  owned := fun id h0 hn => by
    obtain ⟨h₁, h₂⟩ := h.owned id h0 hn
    exact ⟨hm _ h₁, h₂⟩
  order := h.order
  receipt := h.receipt
  total := h.total
  cash := h.cash.trans hc
  exact := fun hq => (he hq).trans (h.exact hq)
  escrow := fun m j => by rw [hh]; exact h.escrow m j

theorem Custody.flow (h : Custody D q w a T) {es : List BookEvent} (hf : Flow D q w w' (held D w) 0 0 es) :
    Custody D q w' a T :=
  h.keep hf.calm.market hf.held (by have := hf.cash; omega) fun hq => by have := hf.exact hq; omega

/-- One order changes, together with a flow of payment tokens and shares. -/
theorem Custody.alter {s : Address → Nat → Nat} {got paid pending total : Nat} {es : List BookEvent}
    (h : Custody D q w a T) (hf : Flow D q w w' s got paid es) (hid : id ≠ 0 ∧ id < a.nextOrderId)
    (hv : o.vault = (a.orders id).vault) (ho : o.owner = (a.orders id).owner) (hs : o.Sound pending (id ∈ T'))
    (hT : ∀ x, x ≠ id → (x ∈ T' ↔ x ∈ T))
    (ht : total + (a.orders id).lockedPayment = a.totalLockedPayment + o.lockedPayment)
    (hc : total + paid = a.totalLockedPayment + got)
    (hh : ∀ m j, s m j + (a.orders id).escrowed (a.pendingShares id) m j = held D w m j + o.escrowed pending m j) :
    Custody D q w' (a.alter id o pending total) T' := by
  have hself : (a.alter id o pending total).orders id = o := Account.alter_orders_self
  have hself' : (a.alter id o pending total).pendingShares id = pending := Account.alter_pending_self
  have hne : ∀ x, x ≠ id → (a.alter id o pending total).orders x = a.orders x := fun x => Account.alter_orders_of_ne
  have hne' : ∀ x, x ≠ id → (a.alter id o pending total).pendingShares x = a.pendingShares x :=
    fun x => Account.alter_pending_of_ne
  have hmem : id ∈ range a.nextOrderId := mem_range.mpr hid.2
  refine ⟨h.next, fun x hx => ?_, fun x h0 hn => ?_, fun x => ?_, h.receipt, ?_, ?_, fun hq => ?_, fun m j => ?_⟩
  · have hxid : x ≠ id := by
      rintro rfl
      rcases hx with hx | hx
      · exact hid.1 hx
      · exact absurd hid.2
          (by simp only [Account.alter, Account.setTotal, Account.setPending, Account.setOrder] at hx; omega)
    obtain ⟨h₁, h₂, h₃⟩ := h.fresh x hx
    exact ⟨(hne x hxid).trans h₁, (hne' x hxid).trans h₂, fun hm => h₃ ((hT x hxid).mp hm)⟩
  · obtain ⟨h₁, h₂⟩ := h.owned x h0 hn
    by_cases hx : x = id
    · subst hx; rw [hself, hv, ho]; exact ⟨hf.calm.market _ h₁, h₂⟩
    · rw [hne x hx]; exact ⟨hf.calm.market _ h₁, h₂⟩
  · by_cases hx : x = id
    · subst hx; rw [hself, hself']; exact hs
    · have hold := h.order x
      rw [hne x hx, hne' x hx, propext (hT x hx)]
      exact hold
  · have hsum := sum_change (f := fun x => (a.orders x).lockedPayment)
      (g := fun x => ((a.alter id o pending total).orders x).lockedPayment) hmem fun x _ hx => by rw [hne x hx]
    rw [hself] at hsum
    have := h.total
    simp only [Account.alter, Account.setTotal, Account.setPending, Account.setOrder] at hsum ⊢
    omega
  · have := hf.cash
    have := h.cash
    simp only [Account.alter, Account.setTotal]
    omega
  · have := hf.exact hq
    have := h.exact hq
    simp only [Account.alter, Account.setTotal]
    omega
  · have hsum := sum_change (f := fun x => (a.orders x).escrowed (a.pendingShares x) m j)
      (g := fun x => ((a.alter id o pending total).orders x).escrowed
        ((a.alter id o pending total).pendingShares x) m j) hmem fun x _ hx => by rw [hne x hx, hne' x hx]
    rw [hself, hself', ← h.escrow m j] at hsum
    have := hh m j
    rw [hf.held]
    simp only [Account.alter, Account.setTotal, Account.setPending, Account.setOrder] at hsum ⊢
    omega

/-- A new order enters, with what it locks or puts into escrow. -/
theorem Custody.place {s : Address → Nat → Nat} {got paid total : Nat} {policy : Bool} {es : List BookEvent}
    (h : Custody D q w a T) (hf : Flow D q w w' s got paid es) (hm : w.factory.isMarket o.vault = true)
    (ho : D.outside o.owner = true ∧ o.owner ≠ D.marketplace) (hs : o.Sound 0 (a.nextOrderId ∈ T'))
    (hT : ∀ x, x ≠ a.nextOrderId → (x ∈ T' ↔ x ∈ T)) (ht : total = a.totalLockedPayment + o.lockedPayment)
    (hc : total + paid = a.totalLockedPayment + got)
    (hh : ∀ m j, s m j = held D w m j + o.escrowed 0 m j) : Custody D q w' (a.place o policy total) T' := by
  have hself : (a.place o policy total).orders a.nextOrderId = o := Function.update_self _ _ _
  have hne : ∀ x, x ≠ a.nextOrderId → (a.place o policy total).orders x = a.orders x :=
    fun x hx => Function.update_of_ne hx _ _
  obtain ⟨_, hpend, _⟩ := h.fresh a.nextOrderId (.inr le_rfl)
  have hrange : ∀ f g : Nat → Nat, (∀ x, x ≠ a.nextOrderId → g x = f x) →
      ∑ x ∈ range (a.nextOrderId + 1), g x = ∑ x ∈ range a.nextOrderId, f x + g a.nextOrderId := by
    intro f g hfg
    rw [sum_range_succ]
    congr 1
    exact sum_congr rfl fun x hx => hfg x (by rw [mem_range] at hx; omega)
  refine ⟨Nat.succ_pos _, fun x hx => ?_, fun x h0 hn => ?_, fun x => ?_, h.receipt, ?_, ?_, fun hq =>
    ?_, fun m j => ?_⟩
  · have hxn : x ≠ a.nextOrderId := by
      rintro rfl
      have := h.next
      simp only [Account.place] at hx
      omega
    obtain ⟨h₁, h₂, h₃⟩ := h.fresh x (hx.imp id fun hx => by simp only [Account.place] at hx; omega)
    exact ⟨(hne x hxn).trans h₁, h₂, fun hm => h₃ ((hT x hxn).mp hm)⟩
  · by_cases hx : x = a.nextOrderId
    · subst hx; rw [hself]; exact ⟨hf.calm.market _ hm, ho⟩
    · rw [hne x hx]
      obtain ⟨h₁, h₂⟩ := h.owned x h0 (by simp only [Account.place] at hn; omega)
      exact ⟨hf.calm.market _ h₁, h₂⟩
  · by_cases hx : x = a.nextOrderId
    · subst hx; rw [hself, show (a.place o policy total).pendingShares = a.pendingShares from rfl, hpend]; exact hs
    · have hold := h.order x
      rw [hne x hx, propext (hT x hx)]
      exact hold
  · have hsum := hrange (fun x => (a.orders x).lockedPayment)
      (fun x => ((a.place o policy total).orders x).lockedPayment) fun x hx => by rw [hne x hx]
    rw [hself, ← h.total] at hsum
    exact ht.trans hsum.symm
  · have := hf.cash
    have := h.cash
    simp only [Account.place]
    omega
  · have := hf.exact hq
    have := h.exact hq
    simp only [Account.place]
    omega
  · have hsum := hrange (fun x => (a.orders x).escrowed (a.pendingShares x) m j)
      (fun x => ((a.place o policy total).orders x).escrowed ((a.place o policy total).pendingShares x) m j)
      fun x hx => by rw [hne x hx]; rfl
    rw [hself, show (a.place o policy total).pendingShares = a.pendingShares from rfl, hpend, ← h.escrow m j] at hsum
    rw [hf.held, hh m j]
    exact hsum.symm

/-! ## The whole invariant -/

/-- What holds of the core and the orderbook at every point of a call, with the orders `T` in transit. -/
structure Inv (D : Deployment) (q : Prop) (W : World) (T : Set Nat) : Prop where
  grounded : Grounded D W.core
  indexed : W.book.Indexed T
  custody : Custody D q W.core W.book.account T

variable {W W' : World}

/-- A stretch that changes nothing of the account. -/
theorem Stretch.inv {es : List BookEvent} (h : Inv D q W T)
    (hs : Stretch D q W W' W.book.account T (held D W.core) 0 0 es) : Inv D q W' T :=
  ⟨hs.grounded, hs.indexed, by rw [hs.account]; exact h.custody.flow hs.flow⟩

theorem Aside.inv (h : Inv D q W T) (ha : Aside D q W W') : Inv D q W' T := (ha.stretch h.indexed).inv h

theorem Inv.emit (h : Inv D q W T) (e : BookEvent) : Inv D q (W.emit e) T :=
  ⟨h.grounded.emit e, h.indexed, h.custody.keep (fun _ hm => hm) rfl le_rfl fun _ => rfl⟩

end

end World

end Cpredict
