import Cpredict.Book.Match

/-!
# Entering and leaving the orderbook

`createOrder` puts an order into the books and takes what it locks or gives (`Placed`); `withdrawOrderShares` hands out
deferred shares (`Withdrawn`); `cancelOrder` and `releaseOrder` are releases.
-/

namespace Cpredict

open Outcome Balances MulDiv

namespace Book

variable {b : Book} {T : Set Nat} {id : Nat}

/-- An order that belongs into no heap may be put in transit. -/
theorem Indexed.enter (h : b.Indexed T) (id : Nat) (ha : (b.orders id).active = false) :
    b.Indexed (Insert.insert id T) := by
  refine h.congr ⟨rfl, rfl, rfl, rfl, rfl, rfl⟩ (fun x => ?_) fun _ _ => ⟨rfl, rfl⟩
  rw [listed_insert]
  refine ⟨fun hx => hx.1, fun hx => ⟨hx, ?_⟩⟩
  rintro rfl
  rw [hx.1] at ha
  cases ha

/-- The storage of a new order. -/
theorem placed_spec (h : b.Indexed ∅) (o : Order) (hb : (b.orders b.nextOrderId).active = false)
    (ha : o.active = true) :
    (World.placed b o).account = b.account.place o b.defaultAllowPartialFills b.totalLockedPayment ∧
      (World.placed b o).Indexed ∅ := by
  have hempty : (Insert.insert b.nextOrderId ∅ : Set Nat) \ {b.nextOrderId} = ∅ := by
    rw [insert_empty_eq]
    exact Set.sdiff_self
  have hin : Indexed { b with
      nextOrderId := b.nextOrderId + 1
      orders := Function.update b.orders b.nextOrderId o
      orderAllowsPartialFills :=
        Function.update b.orderAllowsPartialFills b.nextOrderId b.defaultAllowPartialFills }
      (Insert.insert b.nextOrderId ∅) := by
    refine (h.enter b.nextOrderId hb).change ⟨rfl, rfl, rfl, rfl, rfl, rfl⟩ fun x hx => ?_
    have hne : x ≠ b.nextOrderId := fun e => hx (e ▸ Set.mem_insert _ _)
    exact ⟨Function.update_of_ne hne _ _, Function.update_of_ne hne _ _⟩
  unfold World.placed
  by_cases hm : o.autoMatch = true
  · simp only [hm, if_true]
    obtain ⟨hre, hi⟩ := insert_spec hin (Set.mem_insert _ _)
      (show (Function.update b.orders b.nextOrderId o b.nextOrderId).active =
        true by rw [Function.update_self]; exact ha)
      (show (Function.update b.orders b.nextOrderId o b.nextOrderId).autoMatch = true by
        rw [Function.update_self]; exact hm)
    rw [hempty] at hi
    exact ⟨hre.account, hi⟩
  · simp only [hm]
    have hi := hin.drop b.nextOrderId (by simp only [Function.update_self]; exact fun hx => hm hx.2)
    rw [hempty] at hi
    exact ⟨rfl, hi⟩

end Book

namespace World

open Core (Grounded held Flow)

/-- What the orderbook has of shares once `n` more of an outcome have come. -/
def more (s : Address → Nat → Nat) (o : Order) (n : Nat) : Address → Nat → Nat :=
  update₂ s o.vault o.outcomeId (s o.vault o.outcomeId + n)

@[simp] theorem more_zero (s : Address → Nat → Nat) (o : Order) : more s o 0 = s := update₂_eq_self _ _ _

/-- What `createOrder` checks and makes of its arguments. -/
structure Opening (D : Deployment) (W : World) (caller : Address) (o : Order) : Prop where
  market : W.core.factory.isMarket o.vault = true
  running : (W.core.vaults o.vault).isTerminal = false
  owner : o.owner = caller
  active : o.active = true
  outcome : o.outcomeId < (W.core.vaults o.vault).init.outcomeCount
  units : 0 < o.remainingUnits ∧ o.remainingUnits < 2 ^ 128 ∧
    (W.core.vaults o.vault).init.minimumC2CUnits ≤ o.remainingUnits
  price : 0 < o.unitPrice ∧ o.unitPrice ≤ MAX_UNIT_PRICE
  unexpired : W.core.now < o.expiresAt
  gross : grossOf o.remainingUnits o.unitPrice ≠ 0
  tradable : o.autoMatch = true → grossOf (W.core.vaults o.vault).init.minimumC2CUnits o.unitPrice ≠ 0
  locked : o.lockedPayment = match o.side with
    | .bid => reserve o.remainingUnits o.unitPrice
    | .ask => 0

/-- What `createOrder` logs. -/
def openEvents (id : Nat) (o : Order) (policy : Bool) : List BookEvent :=
  [.OrderCreated id o.vault o.owner o.outcomeId o.side o.remainingUnits o.unitPrice o.expiresAt o.autoMatch
      o.lockedPayment,
    .OrderFillPolicySnapshotted id policy]

/-- A new order, with its escrow. -/
structure Placed (D : Deployment) (q : Prop) (W : World) (caller : Address) (o : Order) (W' : World) : Prop where
  opening : Opening D W caller o
  stretch : Stretch D q W W'
    (W.book.account.place o W.book.defaultAllowPartialFills (W.book.totalLockedPayment + o.lockedPayment)) ∅
    (more (held D W.core) o o.askUnits) o.lockedPayment 0
    (openEvents W.book.nextOrderId o W.book.defaultAllowPartialFills)

/-- The withdrawal of deferred shares. -/
structure Withdrawn (D : Deployment) (q : Prop) (W : World) (caller : Address) (id : Nat) (recipient : Address)
    (W' : World) : Prop where
  owner : (W.book.orders id).owner = caller
  pending : W.book.pendingShares id ≠ 0
  target : recipient ≠ 0 ∧ recipient ≠ D.marketplace
  stretch : Stretch D q W W' (W.book.account.alter id (W.book.orders id) 0 W.book.totalLockedPayment) ∅
    (less (held D W.core) (W.book.orders id) (W.book.pendingShares id)) 0 0
    [.OrderSharesWithdrawn id (W.book.orders id).owner recipient (W.book.pendingShares id)]

section

variable {D : Deployment} {q : Prop} {R : Receivers D q} {W W' : World} {caller market recipient : Address}
  {o : Order} {id outcomeId : Nat} {side : Side} {units unitPrice : Uint128} {expiresAt : Nat} {autoMatch : Bool}

theorem Opening.sound (h : Opening D W caller o) : o.Sound 0 False where
  inactive := fun hi => by rw [h.active] at hi; cases hi
  ask := fun hs => by rw [h.locked, hs]
  bid := fun hs _ _ => by rw [h.locked, hs]
  covered := fun hs _ => by rw [h.locked, hs]
  transit := False.elim
  deferred := fun hp => absurd rfl hp
  width := h.units.2.1

/-- A new order keeps the invariant. -/
theorem Placed.inv (h : Inv D q W ∅) (hc : D.outside caller = true ∧ caller ≠ D.marketplace)
    (hp : Placed D q W caller o W') : Inv D q W' ∅ := by
  have ho := hp.opening
  refine ⟨hp.stretch.grounded, hp.stretch.indexed, ?_⟩
  rw [hp.stretch.account]
  refine h.custody.place hp.stretch.flow ho.market (by rw [ho.owner]; exact hc) ?_ (fun _ _ => Iff.rfl) rfl rfl
    fun m j => ?_
  · rw [Set.mem_empty_iff_false]
    exact ho.sound
  · by_cases hm : o.vault = m ∧ o.outcomeId = j
    · obtain ⟨rfl, rfl⟩ := hm
      rw [more, update₂_self, Order.active_escrowed ho.active]
    · rw [Order.escrowed_other hm, Nat.add_zero]
      unfold more
      by_cases hv : m = o.vault
      · subst hv
        exact update₂_other_holder (held D W.core) _ fun hj => hm ⟨rfl, hj.symm⟩
      · exact congrFun (update₂_of_ne (held D W.core) _ _ hv) j

/-- The withdrawal of deferred shares keeps the invariant. -/
theorem Withdrawn.inv (h : Inv D q W ∅) (hw : Withdrawn D q W caller id recipient W') : Inv D q W' ∅ := by
  have hsound := h.custody.order id
  obtain ⟨hask, hinactive⟩ := hsound.deferred hw.pending
  have hescrow := h.custody.escrowed_le id
  have hold : ∀ pending, (W.book.orders id).escrowed pending (W.book.orders id).vault (W.book.orders id).outcomeId =
      pending := by
    intro pending
    rw [Order.escrowed_self, if_neg fun hx => by
      rw [show (W.book.orders id).active = false from hinactive] at hx; cases hx.2]
    exact Nat.zero_add _
  refine ⟨hw.stretch.grounded, hw.stretch.indexed, ?_⟩
  rw [hw.stretch.account]
  refine h.custody.alter hw.stretch.flow (h.custody.created_of_pending hw.pending) rfl rfl
    { hsound with deferred := fun hp => absurd rfl hp } (fun _ _ => Iff.rfl) rfl rfl fun m j => ?_
  have hle : W.book.pendingShares id ≤ held D W.core (W.book.orders id).vault (W.book.orders id).outcomeId := by
    rw [show W.book.account.orders id = W.book.orders id from rfl, hold] at hescrow
    exact hescrow
  exact Order.escrowed_change (W.book.pendingShares id) 0 (held D W.core)
    (held D W.core (W.book.orders id).vault (W.book.orders id).outcomeId - W.book.pendingShares id) rfl rfl
    (by rw [hold, hold]; omega) rfl m j

/-! ## The code -/

/-- `createOrder` checks its arguments. -/
theorem checkOrder_ends (caller : Address) (side : Side) (locked : Nat) (hl : locked = match side with
      | .bid => reserve units.val unitPrice.val
      | .ask => 0) :
    Ends (checkOrder D W market outcomeId units.val unitPrice.val expiresAt autoMatch)
      (fun _ => Opening D W caller
        ⟨market, caller, units.val, unitPrice.val, expiresAt, outcomeId, side, autoMatch, true, locked⟩) Plain := by
  unfold checkOrder unpaused
  refine Ends.revertIf (fun _ => plain_of rfl) fun _ => Ends.revertIf (fun _ => plain_of rfl) fun hm => ?_
  refine Ends.revertIf (fun _ => plain_of rfl) fun hv => Ends.guard (fun _ => plain_of rfl) fun hx => ?_
  simp only [not_or, not_and] at hv hx
  obtain ⟨ho, hmin, hz, hp, hmax, hexp, hgross, hauto⟩ := hx
  exact ⟨by simpa using hm, by simpa using hv.2.2, rfl, rfl, not_le.mp ho,
    ⟨Nat.pos_of_ne_zero hz, units.isLt, not_lt.mp hmin⟩, ⟨Nat.pos_of_ne_zero hp, not_lt.mp hmax⟩,
      not_le.mp hexp, hgross,
    hauto, hl⟩

/-- The escrow of a new bid. -/
theorem pullPayment_ends (hg : Grounded D W.core) (hi : W.book.Indexed ∅) (ho : o.owner ≠ D.marketplace) :
    Ends (pullPayment D W o)
      (fun W' => Stretch D q W W' (W.book.account.setTotal (W.book.totalLockedPayment + o.lockedPayment)) ∅
        (held D W.core) o.lockedPayment 0 []) Plain := by
  have hset : Book.Indexed { W.book with totalLockedPayment := W.book.totalLockedPayment + o.lockedPayment } ∅ :=
    hi.change ⟨rfl, rfl, rfl, rfl, rfl, rfl⟩ fun _ _ => ⟨rfl, rfl⟩
  exact (pull_ends (q := q) (W := { W with book :=
    { W.book with totalLockedPayment := W.book.totalLockedPayment + o.lockedPayment } }) hg hset ho).mono
    (fun W' h => h.2.since rfl) fun _ h => h

/-- The escrow of a new ask. -/
theorem pullShares_ends (id : Nat) (hg : Grounded D W.core) (hi : W.book.Indexed ∅) (ho : o.owner ≠ D.marketplace)
    (hr : W.book.expectedReceipt = none) :
    Ends (pullShares D R W id o)
      (fun W' => Stretch D q W W' W.book.account ∅ (more (held D W.core) o o.remainingUnits) 0 0 []) Plain := by
  have hset : Book.Indexed { W.book with
      expectedReceipt := some ⟨o.vault, o.owner, o.outcomeId, o.remainingUnits, id⟩ } ∅ :=
    hi.change ⟨rfl, rfl, rfl, rfl, rfl, rfl⟩ fun _ _ => ⟨rfl, rfl⟩
  unfold pullShares
  refine Ends.bind (safeTransferFrom_receipt (R := R) (W := { W with book := { W.book with
    expectedReceipt := some ⟨o.vault, o.owner, o.outcomeId, o.remainingUnits, id⟩ } }) hg hset ho)
    fun W₁ _ ⟨hb, h₁⟩ => Ends.ok ?_
  have hback : Book.Indexed { W₁.book with expectedReceipt := none } ∅ :=
    h₁.indexed.change ⟨rfl, rfl, rfl, rfl, rfl, rfl⟩ fun _ _ => ⟨rfl, rfl⟩
  refine ⟨?_, hback, h₁.grounded, h₁.flow⟩
  rw [hb, ← hr]

/-- The storage, the escrow and the events of a new order together. -/
theorem Opening.placed {W₁ : World} {s : Address → Nat → Nat} {got : Nat} (total : Nat) (h : Inv D q W ∅)
    (hopen : Opening D W caller o)
    (h₁ : Stretch D q { W with book := placed W.book o } W₁ ((placed W.book o).account.setTotal total) ∅ s got 0 [])
    (ht : total = W.book.totalLockedPayment + o.lockedPayment) (hs : s = more (held D W.core) o o.askUnits)
    (hgot : got = o.lockedPayment) :
    Placed D q W caller o ((W₁.emit (.OrderCreated W.book.nextOrderId o.vault o.owner o.outcomeId o.side
      o.remainingUnits o.unitPrice o.expiresAt o.autoMatch o.lockedPayment)).emit
      (.OrderFillPolicySnapshotted W.book.nextOrderId (W₁.book.orderAllowsPartialFills W.book.nextOrderId))) := by
  subst ht hs hgot
  obtain ⟨hblank, _, _⟩ := h.custody.fresh W.book.nextOrderId (.inr le_rfl)
  obtain ⟨hacc, _⟩ := Book.placed_spec h.indexed o (congrArg Order.active hblank) hopen.active
  rw [hacc] at h₁
  have hpolicy : W₁.book.orderAllowsPartialFills W.book.nextOrderId = W.book.defaultAllowPartialFills :=
    (congrArg (fun a : Account => a.orderAllowsPartialFills W.book.nextOrderId) h₁.account).trans
      (Function.update_self _ _ _)
  have hfirst := stretch_emit (q := q) (e := .OrderCreated W.book.nextOrderId o.vault o.owner o.outcomeId o.side
    o.remainingUnits o.unitPrice o.expiresAt o.autoMatch o.lockedPayment) h₁.grounded h₁.indexed rfl
  have hsecond := stretch_emit (q := q)
    (e := .OrderFillPolicySnapshotted W.book.nextOrderId W.book.defaultAllowPartialFills) hfirst.grounded hfirst.indexed
    rfl
  have hall := (h₁.trans hfirst).trans hsecond
  rw [hfirst.flow.held, h₁.flow.held, hfirst.account, h₁.account] at hall
  rw [hpolicy]
  exact ⟨hopen, hall.since rfl⟩

/-- `createOrder` creates the next order, or reverts. -/
theorem createOrder_ends (h : Inv D q W ∅) (hc : caller ≠ D.marketplace) :
    Ends (createOrder D R W caller market outcomeId side units unitPrice expiresAt autoMatch)
      (fun W' => ∃ o, Placed D q W caller o W') Plain := by
  obtain ⟨hblank, _, _⟩ := h.custody.fresh W.book.nextOrderId (.inr le_rfl)
  have hspec : ∀ o : Order, o.active = true → (placed W.book o).account =
      W.book.account.place o W.book.defaultAllowPartialFills W.book.totalLockedPayment ∧
      (placed W.book o).Indexed ∅ := fun o => Book.placed_spec h.indexed o (congrArg Order.active hblank)
  unfold createOrder
  cases side with
  | bid =>
    refine Ends.bind (checkOrder_ends caller .bid _ rfl) fun _ _ hopen => ?_
    simp only
    generalize ho : (⟨market, caller, units.val, unitPrice.val, expiresAt, outcomeId, .bid, autoMatch, true,
      reserve units.val unitPrice.val⟩ : Order) = o at hopen ⊢
    obtain ⟨hacc, hi⟩ := hspec o hopen.active
    refine Ends.bind (pullPayment_ends (q := q) (W := { W with book := placed W.book o }) h.grounded hi
      (by rw [hopen.owner]; exact hc)) fun W₁ _ h₁ => ?_
    have hplaced := hopen.placed _ h h₁ (congrArg (· + o.lockedPayment) (congrArg Account.totalLockedPayment hacc))
      (by subst ho; exact (more_zero _ _).symm) rfl
    subst ho
    exact Ends.ok ⟨_, hplaced⟩
  | ask =>
    refine Ends.bind (checkOrder_ends caller .ask _ rfl) fun _ _ hopen => ?_
    simp only
    generalize ho : (⟨market, caller, units.val, unitPrice.val, expiresAt, outcomeId, .ask, autoMatch, true, 0⟩ :
      Order) =
      o at hopen ⊢
    obtain ⟨hacc, hi⟩ := hspec o hopen.active
    have hreceipt : (placed W.book o).expectedReceipt = none :=
      (congrArg Account.expectedReceipt hacc).trans h.custody.receipt
    refine Ends.bind (pullShares_ends (R := R) (W := { W with book := placed W.book o }) W.book.nextOrderId
      h.grounded hi (by rw [hopen.owner]; exact hc) hreceipt) fun W₁ _ h₁ => ?_
    have hplaced := hopen.placed W.book.totalLockedPayment h (by
        rw [show (placed W.book o).account.setTotal W.book.totalLockedPayment = (placed W.book o).account by
          rw [hacc]; rfl]
        exact h₁)
      (by subst ho; rfl) (by subst ho; rfl) (by subst ho; rfl)
    subst ho
    exact Ends.ok ⟨_, hplaced⟩

/-- `withdrawOrderShares` gives the owner all the deferred shares, or reverts. -/
theorem withdrawOrderShares_ends (h : Inv D q W ∅) :
    Ends (withdrawOrderShares D R W caller id recipient) (Withdrawn D q W caller id recipient) Plain := by
  unfold withdrawOrderShares
  refine Ends.revertIf (fun _ => plain_of rfl) fun howner => Ends.revertIf (fun _ => plain_of rfl) fun hx => ?_
  simp only [not_or] at hx
  obtain ⟨hpend, hzero, hself⟩ := hx
  have hset : Book.Indexed { W.book with pendingShares := Function.update W.book.pendingShares id 0 } ∅ :=
    h.indexed.change ⟨rfl, rfl, rfl, rfl, rfl, rfl⟩ fun _ _ => ⟨rfl, rfl⟩
  refine Ends.bind (safeTransferFrom_ends (R := R) (W := { W with book :=
    { W.book with pendingShares := Function.update W.book.pendingShares id 0 } }) h.grounded hset hself)
    fun W₁ _ ⟨_, h₁⟩ => Ends.ok ⟨not_not.mp howner, hpend, ⟨hzero, hself⟩, ?_⟩
  rw [move_from _ _ (Ne.symm hself)] at h₁
  have hemit := stretch_emit (q := q) (e := .OrderSharesWithdrawn id (W.book.orders id).owner recipient
    (W.book.pendingShares id)) h₁.grounded h₁.indexed rfl
  rw [h₁.account, h₁.flow.held] at hemit
  have hacc : W.book.account.alter id (W.book.orders id) 0 W.book.totalLockedPayment =
    W.book.account.setPending id 0 := by
    simp only [Account.alter, Account.setOrder, Account.setPending, Account.setTotal]
    rw [show W.book.account.orders = W.book.orders from rfl, Function.update_eq_self]
    rfl
  rw [hacc]
  exact (h₁.trans hemit).since rfl

end

end World

end Cpredict
