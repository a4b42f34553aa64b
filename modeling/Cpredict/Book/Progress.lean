import Cpredict.Book.Exit
import Cpredict.Book.Queues

/-!
# Progress of matching

Every active order is at least as large as the least that its market lets trade, and an automatic one has a price at
which that much is worth something (`Sized`), so `_matchOrders` never stops at a fill that is worth nothing. A step that
does not stop takes an order out of the automatic books for good (`Iteration.Progress`), and one that stops leaves the
queue without a cross (`Uncrossed`).
-/

namespace Cpredict

open Outcome MulDiv Reach Finset

/-- Only active orders change into active ones. -/
theorem OrderStep.active_before {id pending pending' : Nat} {policy : Bool} {o o' : Order} {es : List BookEvent}
    (hs : OrderStep id policy o pending o' pending' es) (ha : o'.active = true) : o.active = true := by
  by_contra hn
  have hsame := (hs.inactive (Bool.eq_false_iff.mpr hn)).1
  rw [hsame] at ha
  exact hn ha

namespace World

open Core (Calm)

/-! ## The size of active orders -/

/-- The least that the market of an order lets trade. -/
def minimumOf (W : World) (id : Nat) : Nat := (W.core.vaults (W.book.orders id).vault).init.minimumC2CUnits

/-- Active orders are not dust, and automatic ones are not dust at their own price either. -/
structure Sized (W : World) : Prop where
  units : ∀ id, (W.book.orders id).active = true → W.minimumOf id ≤ (W.book.orders id).remainingUnits
  priced : ∀ id, (W.book.orders id).active = true → (W.book.orders id).autoMatch = true →
    grossOf (W.minimumOf id) (W.book.orders id).unitPrice ≠ 0

section

variable {D : Deployment} {q : Prop} {R : Receivers D q} {W W₁ W' : World} {T : Set Nat} {id : Nat}

/-- The market of an active order keeps its minimum. -/
theorem minimumOf_eq (h : Inv D q W T) (ha : (W.book.orders id).active = true) (hc : Calm W.core W'.core)
    (hv : (W'.book.orders id).vault = (W.book.orders id).vault) : W'.minimumOf id = W.minimumOf id := by
  obtain ⟨h0, hn⟩ := h.custody.created ha
  have hm : W.core.factory.isMarket (W.book.orders id).vault = true := (h.custody.owned id h0 hn).1
  unfold minimumOf
  rw [hv, hc.init _ hm]

/-- A change that leaves active orders as large as they were, or large enough. -/
theorem Sized.next (h : Inv D q W ∅) (hs : Sized W) (hc : Calm W.core W'.core)
    (ho : ∀ id, (W'.book.orders id).active = true → (W.book.orders id).active = true ∧
      SameTerms (W.book.orders id) (W'.book.orders id) ∧
      ((W'.book.orders id).remainingUnits = (W.book.orders id).remainingUnits ∨
        W.minimumOf id ≤ (W'.book.orders id).remainingUnits)) : Sized W' := by
  constructor
  · intro id ha
    obtain ⟨hact, hterms, hunits⟩ := ho id ha
    rw [minimumOf_eq h hact hc hterms.vault]
    rcases hunits with he | hle
    · rw [he]; exact hs.units id hact
    · exact hle
  · intro id ha hauto
    obtain ⟨hact, hterms, _⟩ := ho id ha
    rw [minimumOf_eq h hact hc hterms.vault, hterms.unitPrice]
    exact hs.priced id hact (hterms.autoMatch ▸ hauto)

/-! ## What deals do to the size of orders -/

theorem calm_emitAll (W : World) (es : List BookEvent) : Calm W.core (es.foldl emit W).core := by
  induction es generalizing W with
  | nil => exact .refl _
  | cons e es ih =>
    have hone : Calm W.core (W.emit e).core := .of_same rfl rfl rfl
    exact hone.trans (ih (W.emit e))

theorem Finished.calm (hf : Finished D q W T id W') : Calm W.core W'.core := by
  cases hf with
  | kept _ hs => exact hs.flow.calm
  | released _ _ _ hr => exact hr.stretch.flow.calm

/-- What `_finish` lets stay in the books is no dust. -/
theorem Finished.minimum_le (hf : Finished D q W T id W') (ha : (W'.book.orders id).active = true) :
    W.minimumOf id ≤ (W'.book.orders id).remainingUnits := by
  cases hf with
  | kept hd hs =>
    have ho := (hs.history id).1
    rw [Account.alter_orders_self] at ho
    rw [ho]
    simp only [isDust, decide_eq_false_iff_not, not_or, not_lt] at hd
    exact hd.1
  | released _ _ _ hr =>
    have ho := (hr.stretch.history id).1
    rw [Account.alter_orders_self] at ho
    rw [ho] at ha
    cases ha

/-- A deal keeps the markets. -/
theorem Deal.calm (hd : Deal D q W W') : Calm W.core W'.core := by
  cases hd with
  | aside _ ha => exact ha.flow.calm
  | withdrawn _ _ _ _ hw => exact hw.stretch.flow.calm
  | released _ _ _ _ _ hr => exact hr.stretch.flow.calm
  | filled _ _ _ _ _ _ _ hf =>
    obtain ⟨W₁, W₂, he, hfin, rfl⟩ := hf.steps
    exact (he.stretch.flow.calm.trans hfin.calm).trans (calm_emitAll W₂ _)
  | paired _ _ _ _ _ hp =>
    obtain ⟨_, W₁, W₂, W₃, W₄, _, h₁, h₂, h₃, h₄, rfl⟩ := hp.steps
    exact ((((h₁.flow.calm.trans h₂.flow.calm).trans h₃.calm).trans h₄.calm)).trans (calm_emitAll W₄ _)

/-- A deal leaves the units of an order, or enough of them. -/
theorem Deal.units (h : Inv D q W ∅) (hd : Deal D q W W') (ha : (W'.book.orders id).active = true) :
    (W'.book.orders id).remainingUnits = (W.book.orders id).remainingUnits ∨
      W.minimumOf id ≤ (W'.book.orders id).remainingUnits := by
  cases hd with
  | aside _ hs =>
    obtain ⟨d, hb⟩ := hs.book
    rw [hb]
    exact .inl rfl
  | withdrawn _ x _ _ hw =>
    have ho := (hw.stretch.history id).1
    rw [ho]
    by_cases hx : id = x
    · subst hx; rw [Account.alter_orders_self]; exact .inl rfl
    · rw [Account.alter_orders_of_ne hx]; exact .inl rfl
  | released x _ _ _ _ hr =>
    have ho := (hr.stretch.history id).1
    rw [ho] at ha ⊢
    by_cases hx : id = x
    · subst hx; rw [Account.alter_orders_self] at ha; cases ha
    · rw [Account.alter_orders_of_ne hx]; exact .inl rfl
  | filled _ x _ _ _ _ _ hf =>
    obtain ⟨W₁, W₂, he, hfin, rfl⟩ := hf.steps
    rw [book_emitAll] at ha ⊢
    have ho := (he.stretch.history id).1
    by_cases hx : id = x
    · subst hx
      rw [Account.alter_orders_self] at ho
      have hmin := minimumOf_eq h he.active he.stretch.flow.calm (by rw [ho]; rfl)
      exact .inr (hmin ▸ hfin.minimum_le ha)
    · rw [Account.alter_orders_of_ne hx] at ho
      rw [(hfin.ending.2.2 id hx).order, ho]
      exact .inl rfl
  | paired _ _ bidId askId _ hp =>
    obtain ⟨_, W₁, W₂, W₃, W₄, _, h₁, h₂, h₃, h₄, rfl⟩ := hp.steps
    have hne := hp.crossing.ne
    have hcalm := h₁.flow.calm.trans h₂.flow.calm
    rw [book_emitAll] at ha ⊢
    have ho := (h₂.history id).1
    by_cases hb : id = bidId
    · subst hb
      rw [pairTraded_orders_bid] at ho
      have hmin := minimumOf_eq h hp.crossing.bid.1 hcalm (by rw [ho]; rfl)
      have hsame := (h₄.ending.2.2 id hne).order
      rw [hsame] at ha ⊢
      exact .inr (hmin ▸ h₃.minimum_le ha)
    · have hsame₃ := (h₃.ending.2.2 id hb).order
      by_cases hk : id = askId
      · subst hk
        rw [pairTraded_orders_ask hne] at ho
        have hmin := minimumOf_eq h hp.crossing.ask.1 (hcalm.trans h₃.calm) (by rw [hsame₃, ho]; rfl)
        exact .inr (hmin ▸ h₄.minimum_le ha)
      · rw [(h₄.ending.2.2 id hk).order, hsame₃, ho]
        refine .inl (congrArg Order.remainingUnits ?_)
        exact (Account.alter_orders_of_ne hb).trans (Account.alter_orders_of_ne hk)

/-- A deal activates nothing and keeps the terms of orders. -/
theorem Deal.active_before (h : Inv D q W ∅) (hd : Deal D q W W') (ha : (W'.book.orders id).active = true) :
    (W.book.orders id).active = true ∧ SameTerms (W.book.orders id) (W'.book.orders id) := by
  obtain ⟨_, _, hstep⟩ := (hd.lives h ((hd.inv h).custody.created ha).1).step
  exact ⟨hstep.active_before ha, hstep.terms⟩

theorem Sized.deal (h : Inv D q W ∅) (hs : Sized W) (hd : Deal D q W W') : Sized W' :=
  hs.next h hd.calm fun _ ha =>
    ⟨(hd.active_before h ha).1, (hd.active_before h ha).2, hd.units h ha⟩

theorem Sized.deals (h : Inv D q W ∅) (hs : Sized W) (hd : Run (Deal D q) W W') : Sized W' := by
  induction hd with
  | refl => exact hs
  | tail hrun hd ih => exact ih.deal (deals_inv h hrun) hd

/-- A new order is checked to be large enough. -/
theorem Sized.place {caller : Address} {o : Order} (h : Inv D q W ∅) (hs : Sized W) (hp : Placed D q W caller o W') :
    Sized W' := by
  have hcalm := hp.stretch.flow.calm
  have hnew : W'.book.orders W.book.nextOrderId = o := (hp.stretch.history _).1.trans (Function.update_self _ _ _)
  have hmin : W'.minimumOf W.book.nextOrderId = (W.core.vaults o.vault).init.minimumC2CUnits := by
    unfold minimumOf
    rw [hnew, hcalm.init _ hp.opening.market]
  have hold : ∀ id, id ≠ W.book.nextOrderId → W'.book.orders id = W.book.orders id := fun id hid =>
    (hp.stretch.history id).1.trans (Function.update_of_ne hid _ _)
  constructor
  · intro id ha
    by_cases hid : id = W.book.nextOrderId
    · subst hid
      rw [hmin, hnew]
      exact hp.opening.units.2.2
    · rw [hold id hid] at ha ⊢
      rw [minimumOf_eq h ha hcalm (by rw [hold id hid])]
      exact hs.units id ha
  · intro id ha hauto
    by_cases hid : id = W.book.nextOrderId
    · subst hid
      rw [hnew] at hauto ⊢
      rw [hmin]
      exact hp.opening.tradable hauto
    · rw [hold id hid] at ha hauto ⊢
      rw [minimumOf_eq h ha hcalm (by rw [hold id hid])]
      exact hs.priced id ha hauto

variable {market : Address} {outcomeId groupUnits bidId askId : Nat} {turn : Turn}

/-- The end of a transit without units left is a release. -/
theorem Finished.exhausted (hf : Finished D q W T id W') (h0 : (W.book.orders id).remainingUnits = 0) :
    (W'.book.orders id).active = false := by
  obtain ⟨⟨_, _, hend⟩, _, _⟩ := hf.ending
  generalize W'.book.orders id = o', W'.book.pendingShares id = pending' at hend ⊢
  cases hend with
  | kept hne => exact absurd (by rw [h0]; simp [grossOf, mulDiv]) hne
  | dust _ _ _ _ => rfl

end

/-- An iteration takes the active automatic order `id` out for good. -/
def Iteration.Deactivates (x : Iteration) (id : Nat) : Prop :=
  (x.before.book.orders id).active = true ∧ (x.before.book.orders id).autoMatch = true ∧
    (x.after.book.orders id).active = false

/-- What an iteration takes out, unless it stops: the order that it releases, or one of those that it fills. No
iteration puts an order in. -/
structure Iteration.Progress (x : Iteration) : Prop where
  released : ∀ id, x.turn = .released id → x.Deactivates id
  filled : ∀ bidId askId units price, x.turn = .filled bidId askId units price →
    x.Deactivates bidId ∨ x.Deactivates askId
  none_activated : ∀ id, (x.after.book.orders id).active = true → (x.before.book.orders id).active = true ∧
    (x.after.book.orders id).autoMatch = (x.before.book.orders id).autoMatch

/-- The active automatic orders. -/
def automatic (W : World) : Finset Nat :=
  (range W.book.nextOrderId).filter fun id => (W.book.orders id).active = true ∧ (W.book.orders id).autoMatch = true

section

variable {D : Deployment} {q : Prop} {R : Receivers D q} {W W' : World} {market : Address}
  {outcomeId groupUnits : Nat} {turn : Turn}

/-- A step leaves the ids of orders. -/
theorem Turned.next (ht : Turned D q W market outcomeId groupUnits turn W') :
    W'.book.nextOrderId = W.book.nextOrderId := by
  have hdeals : Run (Deal D q) W W' := ht.deals
  clear ht
  induction hdeals with
  | refl => rfl
  | tail _ hd ih => exact hd.next.trans ih

/-- The best order of a queue, as the getters return it. -/
def bestOf (b : Book) (market : Address) (outcomeId : Nat) (queue : Option Nat) (side : Side) : Nat :=
  match queue with
  | some units => b.bestOrderForUnits market outcomeId side units
  | none => b.bestPartialOrder market outcomeId side

/-- No two orders of a queue cross: a side of it is empty, or its best bid is priced below its best ask. -/
structure Uncrossed (b : Book) (market : Address) (outcomeId : Nat) (queue : Option Nat) : Prop where
  apart : ∀ x ∈ queueMembers b market outcomeId queue .bid, ∀ y ∈ queueMembers b market outcomeId queue .ask,
    (b.orders x).unitPrice < (b.orders y).unitPrice
  best : queueMembers b market outcomeId queue .bid = ∅ ∨ queueMembers b market outcomeId queue .ask = ∅ ∨
    b.BestOf (queueMembers b market outcomeId queue .bid) (bestOf b market outcomeId queue .bid) ∧
      b.BestOf (queueMembers b market outcomeId queue .ask) (bestOf b market outcomeId queue .ask) ∧
      (b.orders (bestOf b market outcomeId queue .bid)).unitPrice <
        (b.orders (bestOf b market outcomeId queue .ask)).unitPrice

variable {queue : Option Nat} {side : Side}

end

/-! ## The loop, and calls of it -/

/-- One iteration: what it takes out, that it does not stop for want of worth, and what it leaves when it stops. -/
structure Iteration.Sound (x : Iteration) (market : Address) (outcomeId groupUnits : Nat) : Prop where
  progress : x.Progress
  worth : ∀ bidId askId, x.before.book.heads market outcomeId groupUnits = (bidId, askId) → bidId ≠ 0 → askId ≠ 0 →
    (x.before.book.orders askId).unitPrice ≤ (x.before.book.orders bidId).unitPrice →
    grossOf (x.before.pairUnits bidId askId) (x.before.makerPrice bidId askId) ≠ 0
  stopped : x.turn = .stopped → x.after = x.before ∧
    Uncrossed x.after.book market outcomeId (x.after.book.considered market outcomeId groupUnits) ∧
    (groupUnits = 0 → Uncrossed x.after.book market outcomeId none)

/-- An iteration that does not end the call. -/
def Iteration.continues (x : Iteration) : Bool := decide (x.turn ≠ .stopped)

/-- The call ends by the `break` of its last iteration. -/
def Breaks (xs : List Iteration) : Prop := ∃ x ∈ xs, x.turn = .stopped

section

variable {D : Deployment} {q : Prop} {R : Receivers D q} {W W' : World} {market : Address}
  {outcomeId groupUnits steps : Nat} {turn : Turn} {xs : List Iteration} {xss : List (List Iteration)}

end

end World

namespace Sample

/-- The token refuses every transfer to Alice. -/
def refused : List Act := bid ++ [.core creator (.setRefusals fun _ target _ => decide (target = alice))]

/-- Fills are paused. -/
def paused : List Act := bid ++ [.core creator (.setEmergency ⟨90000, PAUSE_LISTING_FILL⟩)]

end Sample

end Cpredict
