import Cpredict.Book.Invariant
import Cpredict.Core.Accounting

/-!
# The custody of the orderbook

In every reachable state the locked payments and the shares of the orderbook are those of its orders, and no call
underflows.
-/

namespace Cpredict

open Outcome Finset

namespace World

/-- Every order by itself: what a bid locks, and that an ask and an inactive order lock nothing. -/
structure OrdersSound (b : Book) : Prop where
  bid : ∀ id, (b.orders id).side = .bid → (b.orders id).active = true →
    (b.orders id).lockedPayment = reserve (b.orders id).remainingUnits (b.orders id).unitPrice
  ask : ∀ id, (b.orders id).side = .ask → (b.orders id).lockedPayment = 0
  inactive : ∀ id, (b.orders id).active = false →
    (b.orders id).remainingUnits = 0 ∧ (b.orders id).lockedPayment = 0

/-- What the orderbook has of an outcome for its orders: the units of active asks, and deferred shares. -/
def owedShares (b : Book) (market : Address) (outcomeId : Nat) : Nat :=
  (∑ id ∈ range b.nextOrderId, if (b.orders id).vault = market ∧ (b.orders id).outcomeId = outcomeId ∧
      (b.orders id).side = .ask ∧ (b.orders id).active = true then (b.orders id).remainingUnits else 0) +
    ∑ id ∈ range b.nextOrderId, if (b.orders id).vault = market ∧ (b.orders id).outcomeId = outcomeId then
      b.pendingShares id else 0

/-- The custody of the orderbook. -/
structure Escrowed (D : Deployment) (W : World) : Prop where
  /-- Ids from `nextOrderId` on have no order, so the sums are over all orders. -/
  unused : ∀ id, W.book.nextOrderId ≤ id → W.book.orders id = .blank ∧ W.book.pendingShares id = 0
  payment : W.book.totalLockedPayment = ∑ id ∈ range W.book.nextOrderId, (W.book.orders id).lockedPayment
  cash : W.book.totalLockedPayment ≤ W.core.token.balanceOf D.marketplace
  shares : ∀ market outcomeId, (W.core.vaults market).shares.balanceOf outcomeId D.marketplace =
    owedShares W.book market outcomeId
  orders : OrdersSound W.book

section

variable {D : Deployment} {q : Prop} {W : World}

theorem sum_escrowed (b : Book) (market : Address) (outcomeId : Nat) :
    ∑ id ∈ range b.nextOrderId, (b.orders id).escrowed (b.pendingShares id) market outcomeId =
      owedShares b market outcomeId := by
  unfold owedShares
  rw [← sum_add_distrib]
  refine sum_congr rfl fun id _ => ?_
  unfold Order.escrowed
  by_cases hk : (b.orders id).vault = market ∧ (b.orders id).outcomeId = outcomeId
  · obtain ⟨rfl, rfl⟩ := hk
    simp
  · rw [if_neg hk, if_neg hk, if_neg fun hx => hk ⟨hx.1, hx.2.1⟩]

theorem Inv.escrowed (h : Inv D q W ∅) : Escrowed D W where
  unused := fun id hid => by
    obtain ⟨h₁, h₂, _⟩ := h.custody.fresh id (.inr hid)
    exact ⟨h₁, h₂⟩
  payment := h.custody.total
  cash := h.custody.cash
  shares := fun market outcomeId => (h.custody.escrow market outcomeId).trans (sum_escrowed W.book market outcomeId)
  orders :=
    { bid := fun id hs ha => (h.custody.order id).bid hs ha (Set.notMem_empty id)
      ask := fun id hs => (h.custody.order id).ask hs
      inactive := fun id hi => (h.custody.order id).inactive hi }

/-- In every reachable state the orderbook has what it owes, exactly so if nobody makes it presents, and no call
underflows. -/
theorem escrow_custody (h : Reachable D q W) :
    Escrowed D W ∧ (q → W.core.token.balanceOf D.marketplace = W.book.totalLockedPayment) ∧
      ∀ (R : Receivers D q) caller c, exec D R W caller c ≠ .error .Panic := by
  have hinv := h.inv
  refine ⟨hinv.escrowed, hinv.custody.exact, fun R caller c hx => ?_⟩
  exact ((exec_ends hinv c).of_error hx).1 rfl

end

end World

/-! ## A sample orderbook -/

namespace Sample

/-- Receivers that accept every delivery, or none. -/
def receivers (accepts : Bool) : World.Receivers deployment True where
  answer := fun W _ => if accepts = true then some W else none
  lawful := fun W _ W' h => by
    split at h
    · cases h; exact .refl
    · cases h

/-- What users do: calls to the core and to the orderbook, the default policy, and waiting. -/
inductive Act
  | core (caller : Address) (c : CoreCall)
  | setDefault (caller : Address) (allowed : Bool)
  | book (accepts : Bool) (caller : Address) (c : World.BookCall)
  | wait (seconds : Nat)

/-- The orderbook starts without payment tokens and has approved nobody. -/
def world : World where
  core := { genesis with token := { genesis.token with
    balanceOf := fun a => if a = deployment.marketplace then 0 else genesis.token.balanceOf a
    allowance := fun a s => if a = deployment.marketplace then 0 else genesis.token.allowance a s } }
  book := Book.deployed

theorem world_ok : World.Genesis deployment True world where
  core := { genesis_ok with
    allowance := fun a ha s => by
      show (if a = deployment.marketplace then 0 else genesis.token.allowance a s) = 0
      rw [genesis_ok.allowance a ha s, ite_self] }
  book := rfl
  allowance := fun _ => rfl
  cash := fun _ => rfl

/-- An act. One that reverts, or makes the orderbook a present, changes nothing. -/
def act (W : World) : Act → World
  | .core caller c =>
    match Core.exec deployment W.core caller (World.answered deployment c) with
    | .ok w =>
      if caller ≠ deployment.marketplace ∧
          w.token.balanceOf deployment.marketplace = W.core.token.balanceOf deployment.marketplace then
        { W with core := w }
      else W
    | .error _ => W
  | .setDefault caller allowed =>
    match World.setDefaultAllowPartialFills deployment W caller allowed with
    | .ok W' => W'
    | .error _ => W
  | .book accepts caller c =>
    match World.exec deployment (receivers accepts) W caller c with
    | .ok W' => W'
    | .error _ => W
  | .wait seconds => { W with core := { W.core with now := W.core.now + seconds } }

theorem act_run (W : World) (x : Act) : Reach.Run (World.Step deployment True) W (act W x) := by
  cases x with
  | core caller c =>
    simp only [act]
    split
    · rename_i hx
      split
      · rename_i hc
        exact .single (.outside _ _ (.core W _ caller c hc.1 hx fun _ => hc.2))
      · exact .refl
    · exact .refl
  | setDefault caller allowed =>
    simp only [act]
    split
    · rename_i hx
      exact .single (.outside _ _ (.setDefault W _ caller allowed hx))
    · exact .refl
  | book accepts caller c =>
    simp only [act]
    split
    · rename_i hx
      exact .single (.call _ _ _ caller c hx)
    · exact .refl
  | wait seconds => exact .single (.tick W seconds)

theorem acts_run (W : World) (xs : List Act) : Reach.Run (World.Step deployment True) W (xs.foldl act W) := by
  induction xs generalizing W with
  | nil => exact .refl
  | cons x xs ih => exact (act_run W x).trans (ih _)

/-- The state after a list of acts. -/
def acted (xs : List Act) : World := xs.foldl act world

theorem acted_reachable (xs : List Act) : World.Reachable deployment True (acted xs) :=
  ⟨world, world_ok, acts_run world xs⟩

/-- Alice has shares of the first outcome and offers some of them. -/
def offer : List Act :=
  [.core creator (.createMarket params none market), .core alice (.buy market 0 3000000 1 3000000 9999 true),
   .core alice (.setApprovalForAll market deployment.marketplace true), .setDefault deployment.governance true,
   .book true alice (.createOrder market 0 .ask 2000000 500000 100000 true)]

/-- Bob bids more than she asks. -/
def bid : List Act := offer ++ [.book true bob (.createOrder market 0 .bid 1500000 600000 100000 true)]

/-- The two orders trade. -/
def traded : List Act := bid ++ [.book true creator (.matchOrders market 0 5)]

end Sample

/-- The sample orderbook after a trade: it has what is left of the ask, and no payment. -/
theorem escrow_custody_sample :
    World.Escrowed Sample.deployment (Sample.acted Sample.traded) ∧
      (Sample.acted Sample.traded).core.token.balanceOf Sample.deployment.marketplace =
        (Sample.acted Sample.traded).book.totalLockedPayment ∧
      (Sample.acted Sample.traded).book.totalLockedPayment = 0 ∧
      World.owedShares (Sample.acted Sample.traded).book Sample.market 0 = 500000 := by
  obtain ⟨h, hexact, _⟩ := World.escrow_custody (Sample.acted_reachable Sample.traded)
  exact ⟨h, hexact trivial, by decide +kernel, by decide +kernel⟩

end Cpredict
