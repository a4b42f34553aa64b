import Cpredict.Book.Finish

/-!
# Trading

A trade takes units, and from a bid the price of them, out of an order that has left the books (`Order.traded`). The
reserve of what is left of a bid still fits what it has locked (`Order.traded_sound`), so a fill never underflows.
`Filled` is a direct fill, `Paired` the trade of a bid with an ask in `_matchOrders`.
-/

namespace Cpredict

open Outcome Balances MulDiv

namespace Order

/-- What a trade takes from the locked payment. -/
def spent (o : Order) (gross : Nat) : Nat :=
  match o.side with
  | .bid => gross
  | .ask => 0

/-- What the taker of a direct fill pays to the orderbook, to be paid on. -/
def pulled (o : Order) (gross : Nat) : Nat :=
  match o.side with
  | .bid => 0
  | .ask => gross

/-- What a trade takes from the escrow of shares. -/
def given (o : Order) (units : Nat) : Nat :=
  match o.side with
  | .bid => 0
  | .ask => units

/-- The order after a trade. -/
def traded (o : Order) (units gross : Nat) : Order :=
  { o with remainingUnits := o.remainingUnits - units, lockedPayment := o.lockedPayment - o.spent gross }

variable {o : Order} {pending units price : Nat} {transit : Prop}

/-- The reserve of a bid covers what is left of it and the price of what is taken. -/
theorem reserve_split {p : Nat} (hu : units ≤ o.remainingUnits) (hp : p ≤ o.unitPrice) :
    reserve (o.remainingUnits - units) o.unitPrice + grossOf units p ≤ reserve o.remainingUnits o.unitPrice := by
  have h := mulDivUp_add_mulDiv_le (d := SHARE_SCALE) (by decide) (a := o.remainingUnits - units) (b := units) hp
  rwa [Nat.sub_add_cancel hu] at h

/-- A bid can pay for its units. -/
theorem spent_le (h : o.Sound pending transit) (ha : o.active = true) (hu : units ≤ o.remainingUnits)
    (hp : o.side = .bid → price ≤ o.unitPrice) : o.spent (grossOf units price) ≤ o.lockedPayment := by
  unfold spent
  cases hs : o.side with
  | bid => exact ((Nat.le_add_left _ _).trans (reserve_split hu (hp hs))).trans (h.covered hs ha)
  | ask => exact Nat.zero_le _

/-- An order after a trade is sound in transit. -/
theorem traded_sound (h : o.Sound pending transit) (ha : o.active = true) (hu : units ≤ o.remainingUnits)
    (hp : o.side = .bid → price ≤ o.unitPrice) : (o.traded units (grossOf units price)).Sound pending True where
  inactive := fun hi => by
    rw [show (o.traded units (grossOf units price)).active = o.active from rfl, ha] at hi; cases hi
  ask := fun hs => by
    show o.lockedPayment - _ = 0
    rw [h.ask hs, Nat.zero_sub]
  bid := fun _ _ hn => absurd trivial hn
  covered := fun hs _ => by
    have hs : o.side = .bid := hs
    have hsplit := reserve_split hu (hp hs)
    have hcov := h.covered hs ha
    show reserve (o.remainingUnits - units) o.unitPrice ≤ o.lockedPayment - o.spent (grossOf units price)
    unfold spent
    rw [hs]
    simp only
    omega
  transit := fun _ => ha
  deferred := h.deferred
  width := lt_of_le_of_lt (Nat.sub_le _ _) h.width

theorem spent_add_pulled (o : Order) (gross : Nat) : o.spent gross + o.pulled gross = gross := by
  unfold spent pulled
  cases o.side with
  | bid => rfl
  | ask => exact Nat.zero_add _

/-- The shares of an order after a trade. -/
theorem traded_units (hu : units ≤ o.remainingUnits) (gross : Nat) :
    (o.traded units gross).askUnits + o.given units = o.askUnits := by
  show (match o.side with | .bid => 0 | .ask => o.remainingUnits - units) +
    (match o.side with | .bid => 0 | .ask => units) = (match o.side with | .bid => 0 | .ask => o.remainingUnits)
  cases o.side with
  | bid => rfl
  | ask => exact Nat.sub_add_cancel hu

end Order

namespace Book

variable {b b' : Book} {T : Set Nat} {id units gross : Nat}

/-- Writing an order that the heaps lack. -/
theorem Indexed.setOrder (h : b.Indexed T) (hid : id ∈ T) (o : Order) : (b.setOrder id o).Indexed T :=
  h.change ⟨rfl, rfl, rfl, rfl, rfl, rfl⟩ fun x hx => ⟨Function.update_of_ne (fun e : x = id => hx (e ▸ hid)) _ _, rfl⟩

/-- The order without `units`. -/
theorem reduce_spec (hi : b.Indexed T) (hid : id ∈ T) (h : units ≤ (b.orders id).remainingUnits)
    (hw : (b.orders id).remainingUnits < 2 ^ 128) :
    ∃ b', b.reduce id units = .ok b' ∧ b'.account = b.account.setOrder id
      { b.orders id with remainingUnits := (b.orders id).remainingUnits - units } ∧ b'.Indexed T := by
  refine ⟨_, ?_, rfl, hi.setOrder hid _⟩
  unfold reduce
  rw [Nat.mod_eq_of_lt (by omega), checkedSub_of_le _ h, ok_bind]

/-- The order without `gross`. -/
theorem spendBid_spec (hi : b.Indexed T) (hid : id ∈ T) (h : gross ≤ (b.orders id).lockedPayment)
    (ht : gross ≤ b.totalLockedPayment) :
    ∃ b', b.spendBid id gross = .ok b' ∧ b'.account = (b.account.setOrder id
      { b.orders id with lockedPayment := (b.orders id).lockedPayment - gross }).setTotal
        (b.totalLockedPayment - gross) ∧
      b'.Indexed T := by
  refine ⟨{ b.setOrder id { b.orders id with lockedPayment := (b.orders id).lockedPayment - gross } with
    totalLockedPayment := b.totalLockedPayment - gross }, ?_, rfl, ?_⟩
  · unfold spendBid
    rw [checkedSub_of_le _ h, ok_bind, checkedSub_of_le _ ht, ok_bind]
  · exact (hi.setOrder hid _).change ⟨rfl, rfl, rfl, rfl, rfl, rfl⟩ fun _ _ => ⟨rfl, rfl⟩

end Book

namespace World

open Core (Grounded held Flow)

section

variable {D : Deployment} {q : Prop} {R : Receivers D q} {W W' : World} {T : Set Nat} {id units gross : Nat}
  {caller market : Address} {f : Fees}

/-- The fees of a market are at most the price. -/
theorem fees_le (hg : Grounded D W.core) (hm : W.core.factory.isMarket market = true) (gross : Nat) :
    (W.fees market gross).platform + (W.fees market gross).creator ≤ gross := by
  have he := (hg.sound.markets market hm).1.configured.economics
  have h₁ := mulDiv_mul_le gross (W.core.vaults market).init.economics.platformC2CFeeBps BPS
  have h₂ := mulDiv_mul_le gross (W.core.vaults market).init.economics.creatorC2CFeeBps BPS
  have h₃ := Nat.mul_le_mul_left gross he.platformC2CFee
  have h₄ := Nat.mul_le_mul_left gross he.creatorC2CFee
  simp only [fees, BPS, HARD_MAX_C2C_FEE_BPS] at *
  omega

/-- The payment and the delivery of a direct fill. -/
theorem exchange_ends (units : Nat) (hg : Grounded D W.core) (hi : W.book.Indexed T) (hid : id ∈ T)
    (ho : (W.book.orders id).owner ≠ D.marketplace) (hc : caller ≠ D.marketplace)
    (hm : W.core.factory.isMarket (W.book.orders id).vault = true) (hf : f.platform + f.creator ≤ gross)
    (hl : (W.book.orders id).spent gross ≤ (W.book.orders id).lockedPayment)
    (ht : (W.book.orders id).spent gross ≤ W.book.totalLockedPayment) :
    Ends (exchange D R W caller id units gross f)
      (fun W' => Stretch D q W W' (W.book.account.alter id
          { W.book.orders id with lockedPayment := (W.book.orders id).lockedPayment - (W.book.orders id).spent gross }
          (W.book.pendingShares id) (W.book.totalLockedPayment - (W.book.orders id).spent gross)) T
        (less (held D W.core) (W.book.orders id) ((W.book.orders id).given units))
        ((W.book.orders id).pulled gross) gross
        []) Plain := by
  unfold exchange Order.spent Order.pulled Order.given at *
  rw [show W.book.pendingShares = W.book.account.pendingShares from rfl, Account.alter_same_pending]
  cases hs : (W.book.orders id).side with
  | bid =>
    simp only [hs] at hl ht ⊢
    obtain ⟨b, hb, hacc, hib⟩ := Book.spendBid_spec hi hid hl ht
    simp only [hb, ok_bind]
    refine Ends.bind (pay_ends (q := q) (W := { W with book := b }) hg hib hc hm hf) fun W₁ _ ⟨_, h₁⟩ => ?_
    refine (safeTransferFrom_past (R := R) h₁.grounded h₁.indexed hc ho).mono (fun W₂ h₂ => ?_) fun _ h => h
    have hall := (h₁.trans h₂).since (W := W) rfl
    rw [h₁.account, h₁.flow.held, show ({ W with book := b } : World).book.account = b.account from rfl, hacc] at hall
    rw [less_zero, ← hs]
    exact hall
  | ask =>
    simp only [hs, Nat.sub_zero] at hl ht ⊢
    refine Ends.bind (pull_ends (q := q) hg hi hc) fun W₁ _ ⟨hb₁, h₁⟩ => ?_
    refine Ends.bind (pay_ends (q := q) h₁.grounded h₁.indexed ho (h₁.flow.calm.market _ hm) hf)
      fun W₂ _ ⟨hb₂, h₂⟩ => ?_
    refine (safeTransferFrom_ends (R := R) h₂.grounded h₂.indexed hc).mono (fun W₃ h₃ => ?_) fun _ h => h
    have hall := (h₁.trans h₂).trans h₃.2
    have hheld : held D W₂.core = held D W.core := h₂.flow.held.trans h₁.flow.held
    have hself : (W.book.account.setOrder id (W.book.orders id)).setTotal W.book.totalLockedPayment =
      W.book.account := by
      have h : W.book.account.alter id _ _ _ = _ := Account.alter_self
      rwa [Account.alter_same_pending] at h
    rw [move_from _ _ hc.symm, show (W₂.core.vaults (W.book.orders id).vault).shares.balanceOf
      (W.book.orders id).outcomeId D.marketplace = held D W₂.core (W.book.orders id).vault (W.book.orders id).outcomeId
      from rfl, hheld, hb₂, hb₁] at hall
    rw [← hs, hself]
    unfold less
    simpa using hall

/-! ## Orders in trades -/

/-- What a trade takes from an order is locked. -/
theorem Custody.spent_le_total {w : Core} {a : Account} (id price : Nat) (h : Custody D q w a T)
    (ha : (a.orders id).active = true) (hu : units ≤ (a.orders id).remainingUnits)
    (hp : (a.orders id).side = .bid → price ≤ (a.orders id).unitPrice) :
    (a.orders id).spent (grossOf units price) ≤ a.totalLockedPayment :=
  (Order.spent_le (h.order id) ha hu hp).trans (h.locked_le id)

/-- One side of a trade: the order goes into transit. -/
theorem Custody.trade {w w' : Core} {a : Account} {T' : Set Nat} {got paid : Nat} {es : List BookEvent}
    (id price : Nat) (h : Custody D q w a T)
    (hf : Flow D q w w' (less (held D w) (a.orders id) ((a.orders id).given units)) got paid es)
    (ha : (a.orders id).active = true) (hu : units ≤ (a.orders id).remainingUnits)
    (hp : (a.orders id).side = .bid → price ≤ (a.orders id).unitPrice) (hid : id ∈ T')
    (hT : ∀ x, x ≠ id → (x ∈ T' ↔ x ∈ T))
    (hc : a.totalLockedPayment - (a.orders id).spent (grossOf units price) + paid = a.totalLockedPayment + got) :
    Custody D q w' (a.alter id ((a.orders id).traded units (grossOf units price)) (a.pendingShares id)
      (a.totalLockedPayment - (a.orders id).spent (grossOf units price))) T' := by
  have hsound := h.order id
  have hspent := Order.spent_le hsound ha hu hp
  have hlocked := h.locked_le id
  have hpend : a.pendingShares id = 0 := by
    by_contra hn
    rw [(hsound.deferred hn).2] at ha
    cases ha
  have hunits := Order.traded_units hu (grossOf units price)
  have hescrow := h.escrowed_le id
  rw [hpend, Order.active_escrowed ha] at hescrow
  refine h.alter hf (h.created ha) rfl rfl ?_ hT ?_ hc fun m j => ?_
  · rw [eq_true hid]
    exact Order.traded_sound hsound ha hu hp
  · show a.totalLockedPayment - _ + (a.orders id).lockedPayment = a.totalLockedPayment +
      ((a.orders id).lockedPayment - _)
    omega
  · have hnew : ((a.orders id).traded units (grossOf units price)).escrowed 0 (a.orders id).vault
        (a.orders id).outcomeId = ((a.orders id).traded units (grossOf units price)).askUnits :=
      Order.active_escrowed (o := (a.orders id).traded units (grossOf units price)) ha
    have hchange := Order.escrowed_change (o := a.orders id) 0 0 (held D w)
      (held D w (a.orders id).vault (a.orders id).outcomeId - (a.orders id).given units)
      (show ((a.orders id).traded units (grossOf units price)).vault = _ from rfl)
        rfl (by rw [Order.active_escrowed ha, hnew]; omega) rfl
    rw [hpend]
    exact hchange m j

/-! ## Direct fills -/

/-- The units and the payment of a direct fill have left the order, which is in transit. -/
structure Exchanged (D : Deployment) (q : Prop) (W : World) (id units gross : Nat) (W' : World) : Prop where
  active : (W.book.orders id).active = true
  units_le : units ≤ (W.book.orders id).remainingUnits
  gross_eq : gross = grossOf units (W.book.orders id).unitPrice
  stretch : Stretch D q W W' (W.book.account.alter id ((W.book.orders id).traded units gross) (W.book.pendingShares id)
      (W.book.totalLockedPayment - (W.book.orders id).spent gross)) {id}
    (less (held D W.core) (W.book.orders id) ((W.book.orders id).given units)) ((W.book.orders id).pulled gross) gross
    []

theorem Exchanged.inv (h : Inv D q W ∅) (he : Exchanged D q W id units gross W') : Inv D q W' {id} := by
  have hstretch := he.stretch
  rw [he.gross_eq] at hstretch
  refine ⟨hstretch.grounded, hstretch.indexed, ?_⟩
  rw [hstretch.account]
  refine h.custody.trade id _ hstretch.flow he.active he.units_le (fun _ => le_rfl) rfl (fun x hx => by simp [hx]) ?_
  have hle : (W.book.orders id).spent (grossOf units (W.book.orders id).unitPrice) ≤ W.book.totalLockedPayment :=
    h.custody.spent_le_total id _ he.active he.units_le fun _ => le_rfl
  have hsum := Order.spent_add_pulled (W.book.orders id) (grossOf units (W.book.orders id).unitPrice)
  show W.book.totalLockedPayment - (W.book.orders id).spent _ + _ = W.book.totalLockedPayment + _
  omega

/-- A direct fill that `fillOrder` lets through: an order that may not be split is filled whole. -/
structure Fillable (W : World) (caller : Address) (id desiredUnits minUnits units : Nat) : Prop where
  active : (W.book.orders id).active = true
  unexpired : W.core.now < (W.book.orders id).expiresAt
  open_ : (W.core.vaults (W.book.orders id).vault).isTerminal = false
  taker : caller ≠ (W.book.orders id).owner
  units_eq : units = min desiredUnits (W.book.orders id).remainingUnits
  whole : W.book.orderAllowsPartialFills id = false →
    desiredUnits = (W.book.orders id).remainingUnits ∧ minUnits = (W.book.orders id).remainingUnits
  minimum : units ≠ 0 ∧ minUnits ≤ units

/-- What a direct fill logs at its end, with the order as it is then. -/
def fillEvents (W : World) (caller : Address) (id units gross : Nat) (left : Order) : List BookEvent :=
  let o := W.book.orders id
  let f := W.fees o.vault gross
  let buyer := match o.side with
    | .bid => o.owner
    | .ask => caller
  let seller := match o.side with
    | .bid => caller
    | .ask => o.owner
  [.TradeExecuted id o.vault buyer seller o.outcomeId units o.unitPrice gross f.platform f.creator
      (decide (o.side = .ask)) (if o.side = .ask then left.remainingUnits else 0),
    .OrderFilled id buyer seller units o.unitPrice gross f.platform f.creator left.remainingUnits left.lockedPayment]

/-- A direct fill: the exchange, the end of the transit, and the log. -/
structure Filled (D : Deployment) (q : Prop) (W : World) (caller : Address) (id desiredUnits minUnits units gross : Nat)
    (W' : World) : Prop where
  fillable : Fillable W caller id desiredUnits minUnits units
  steps : ∃ W₁ W₂, Exchanged D q W id units gross W₁ ∧ Finished D q W₁ {id} id W₂ ∧
    W' = (fillEvents W caller id units gross (W₂.book.orders id)).foldl emit W₂

theorem Inv.emitAll (h : Inv D q W T) (es : List BookEvent) : Inv D q (es.foldl World.emit W) T := by
  induction es generalizing W with
  | nil => exact h
  | cons e es ih => exact ih (h.emit e)

theorem Filled.inv {desiredUnits minUnits : Nat} (h : Inv D q W ∅)
    (hf : Filled D q W caller id desiredUnits minUnits units gross W') : Inv D q W' ∅ := by
  obtain ⟨W₁, W₂, he, hfin, rfl⟩ := hf.steps
  have h₂ := hfin.inv (he.inv h) rfl
  rw [Set.sdiff_self] at h₂
  exact h₂.emitAll _

/-- The check of `paymentLimit` does not underflow. -/
theorem checkLimit_ends {side : Side} {paymentLimit : Nat} (hf : f.platform + f.creator ≤ gross) :
    Ends (checkLimit side gross f paymentLimit) (fun _ => True) Orderly := by
  unfold checkLimit
  cases side with
  | ask => exact Ends.guard (fun _ => (plain_of rfl).1) fun _ => trivial
  | bid =>
    exact Ends.checkedSub (by omega)
      (Ends.checkedSub (by omega) (Ends.guard (fun _ => (plain_of rfl).1) fun _ => trivial))

/-- The order out of the books, without the units that are taken from it. -/
theorem draw (h : Inv D q W T) (hu : units ≤ (W.book.orders id).remainingUnits) :
    ∃ b b', W.book.remove id = .ok b ∧ b.reduce id units = .ok b' ∧ b'.account = W.book.account.setOrder id
      { W.book.orders id with remainingUnits := (W.book.orders id).remainingUnits - units } ∧
      b'.Indexed (insert id T) := by
  obtain ⟨b, hb, hre, hi⟩ := Book.remove_spec h.indexed id
  have horders : b.orders = W.book.orders := hre.orders
  obtain ⟨b', hb', hacc, hi'⟩ := Book.reduce_spec hi (Set.mem_insert id T) (show units ≤ _ by rw [horders]; exact hu)
    (by rw [horders]; exact (h.custody.order id).width)
  rw [hre.account, horders] at hacc
  exact ⟨b, b', hb, hb', hacc, hi'⟩

/-- `_live` -/
theorem live_ends : Ends (W.live id)
    (fun _ => (W.book.orders id).active = true ∧ W.core.now < (W.book.orders id).expiresAt ∧
      (W.core.vaults (W.book.orders id).vault).isTerminal = false) Orderly := by
  unfold live
  refine Ends.revertIf (fun _ => (plain_of rfl).1) fun ha => Ends.revertIf (fun _ => (plain_of rfl).1) fun he =>
    Ends.guard (fun _ => (plain_of rfl).1) fun ht => ⟨by simpa using ha, by omega, by simpa using ht⟩

/-- `fillOrder` fills an order, or reverts without an underflow. -/
theorem fillOrder_ends {desiredUnits minUnits paymentLimit deadline : Nat} (h : Inv D q W ∅)
    (hc : caller ≠ D.marketplace) :
    Ends (fillOrder D R W caller id desiredUnits minUnits paymentLimit deadline)
      (fun x => Filled D q W caller id desiredUnits minUnits x.2.1 x.2.2 x.1) Orderly := by
  unfold fillOrder unpaused
  refine Ends.revertIf (fun _ => (plain_of rfl).1) fun _ => Ends.revertIf (fun _ => (plain_of rfl).1) fun _ => ?_
  refine Ends.bind live_ends fun _ _ hlive => ?_
  obtain ⟨ha, hexp, hterm⟩ := hlive
  simp only
  refine Ends.revertIf (fun _ => (plain_of rfl).1) fun howner => ?_
  refine Ends.revertIf (fun _ => ⟨Err.noConfusion, rfl⟩) fun hwhole => ?_
  refine Ends.revertIf (fun _ => (plain_of rfl).1) fun hmin => Ends.revertIf (fun _ => (plain_of rfl).1) fun _ => ?_
  have hminimum : min desiredUnits (W.book.orders id).remainingUnits ≠ 0 ∧
      minUnits ≤ min desiredUnits (W.book.orders id).remainingUnits := by omega
  have hsound := h.custody.order id
  have hcreated := h.custody.created ha
  have hmarket := (h.custody.owned id hcreated.1 hcreated.2).1
  have hle : min desiredUnits (W.book.orders id).remainingUnits ≤ (W.book.orders id).remainingUnits := min_le_right _ _
  generalize hunits : min desiredUnits (W.book.orders id).remainingUnits = units at *
  have hfees := fees_le h.grounded hmarket (grossOf units (W.book.orders id).unitPrice)
  refine Ends.step (fun _ he => (checkLimit_ends hfees).of_error he) fun _ _ => ?_
  obtain ⟨b₁, b₂, hb₁, hb₂, hacc, hi⟩ := draw h hle
  rw [hb₁, ok_bind, hb₂, ok_bind]
  have ho : b₂.orders id = { W.book.orders id with remainingUnits := (W.book.orders id).remainingUnits - units } :=
    (congrArg (fun a : Account => a.orders id) hacc).trans (Function.update_self _ _ _)
  have ht : b₂.totalLockedPayment = W.book.totalLockedPayment := congrArg Account.totalLockedPayment hacc
  have hp : b₂.pendingShares = W.book.pendingShares := congrArg Account.pendingShares hacc
  have hspent := Order.spent_le hsound ha hle fun _ => le_rfl
  have htotal := h.custody.spent_le_total id _ ha hle fun _ => le_rfl
  have hex := exchange_ends (R := R) (W := { W with book := b₂ }) units h.grounded hi (Set.mem_insert id ∅)
    (by rw [ho]; exact h.custody.owner_ne ha) hc (by rw [ho]; exact hmarket) hfees (by rw [ho]; exact hspent)
    (by rw [ho]; exact ht ▸ htotal)
  refine Ends.bind (hex.mono (fun _ h => h) fun _ he => he.1) fun W₁ _ h₁ => ?_
  rw [ho] at h₁
  have he : Exchanged D q W id units (grossOf units (W.book.orders id).unitPrice) W₁ := by
    refine ⟨ha, hle, rfl, ?_⟩
    have h₂ := h₁.since (W := W) rfl
    rw [show ({ W with book := b₂ } : World).book.account = b₂.account from rfl, hacc, Account.setOrder_alter,
      show ({ W with book := b₂ } : World).book.totalLockedPayment = W.book.totalLockedPayment from ht,
      show ({ W with book := b₂ } : World).book.pendingShares = W.book.pendingShares from hp, insert_empty_eq] at h₂
    exact h₂
  refine Ends.bind ((finish_ends (R := R) (he.inv h) rfl).mono (fun _ h => h)
    fun e he => by rw [he]; exact (plain_of rfl).1)
    fun W₂ _ hfin => Ends.ok ⟨⟨ha, hexp, hterm, howner, hunits.symm, fun hpol => ?_, hminimum⟩, W₁, W₂, he, hfin, rfl⟩
  by_contra hn
  exact hwhole ⟨hpol, by omega⟩

end

end World

end Cpredict
