import Cpredict.Book.History
import Cpredict.Book.Escrow

/-!
# Orders that may not be split

An order keeps the fill policy that it was created with. One that may not be split is left alone until a single release
or a single fill of all its units ends it (`WholeLife`), and `_matchOrders` never runs into it.
-/

namespace Cpredict

open MulDiv Reach
open World (releaseEvents openEvents)

/-- What may have become of an order created as `o₀` that may not be split. -/
inductive WholeLife (id : Nat) (o₀ : Order) : Order → Nat → List BookEvent → Prop
  /-- It has all its units. -/
  | untouched : WholeLife id o₀ o₀ 0 (openEvents id o₀ false)
  /-- One release has returned or deferred everything. -/
  | released (reason : ReleaseReason) (returned deferred : Nat) : returned + deferred = o₀.askUnits →
    returned = 0 ∨ deferred = 0 →
    WholeLife id o₀ o₀.close deferred (openEvents id o₀ false ++ releaseEvents id o₀ reason returned deferred)
  /-- And the owner has taken what was deferred. -/
  | withdrawn (reason : ReleaseReason) (recipient : Address) : o₀.askUnits ≠ 0 →
    WholeLife id o₀ o₀.close 0 (openEvents id o₀ false ++ releaseEvents id o₀ reason 0 o₀.askUnits ++
      [.OrderSharesWithdrawn id o₀.owner recipient o₀.askUnits])
  /-- One fill has taken all its units; nothing is left but the excess payment of a bid. -/
  | filled (buyer seller : Address) (price gross platformFee creatorFee : Nat) :
    WholeLife id o₀ (o₀.traded o₀.remainingUnits gross).close 0
      (openEvents id o₀ false ++ (releaseEvents id (o₀.traded o₀.remainingUnits gross) .dust 0 0 ++
        [.OrderFilled id buyer seller o₀.remainingUnits price gross platformFee creatorFee 0 0]))

section

variable {id : Nat} {o₀ o o' : Order} {pending pending' : Nat} {h es : List BookEvent}

/-- A closed order without deferred shares stays as it is. -/
theorem OrderStep.closed {policy : Bool} (hs : OrderStep id policy o.close 0 o' pending' es) :
    o' = o.close ∧ pending' = 0 ∧ es = [] := by
  cases hs with
  | same => exact ⟨rfl, rfl, rfl⟩
  | withdrawn _ h0 => exact absurd rfl h0
  | released _ _ _ ha _ _ => cases ha
  | traded _ _ _ _ _ _ _ _ _ _ ht _ => cases ht.active

/-- A fill of all units leaves dust. -/
theorem Ending.exhausted {gross : Nat} (he : Ending id (o.traded o.remainingUnits gross) pending o' pending' es) :
    o' = (o.traded o.remainingUnits gross).close ∧ pending' = 0 ∧
      es = releaseEvents id (o.traded o.remainingUnits gross) .dust 0 0 := by
  have hzero : (o.traded o.remainingUnits gross).remainingUnits = 0 := Nat.sub_self _
  cases he with
  | kept hg =>
    rw [hzero] at hg
    exact absurd (by simp [grossOf, mulDiv]) hg
  | dust returned _ hsum _ =>
    have hask : (o.traded o.remainingUnits gross).askUnits = 0 := by
      unfold Order.askUnits
      rw [hzero]
      cases (o.traded o.remainingUnits gross).side <;> rfl
    rw [hask] at hsum
    obtain ⟨rfl, rfl⟩ := Nat.add_eq_zero_iff.mp hsum
    exact ⟨rfl, rfl, rfl⟩

theorem WholeLife.step (hl : WholeLife id o₀ o pending h)
    (hs : OrderStep id false o pending o' pending' es) : WholeLife id o₀ o' pending' (h ++ es) := by
  cases hl with
  | untouched =>
    cases hs with
    | same => rw [List.append_nil]; exact .untouched
    | withdrawn _ h0 => exact absurd rfl h0
    | released reason returned _ _ hsum heither => exact .released reason returned pending' hsum heither
    | traded buyer seller units price gross platformFee creatorFee _ _ es ht he =>
      have hunits := ht.whole rfl
      subst hunits
      obtain ⟨rfl, rfl, rfl⟩ := he.exhausted
      exact .filled buyer seller price gross platformFee creatorFee
  | released reason returned _ hsum heither =>
    cases hs with
    | same => rw [List.append_nil]; exact .released reason returned pending hsum heither
    | withdrawn recipient h0 =>
      have hret : returned = 0 := heither.resolve_right h0
      subst hret
      rw [Nat.zero_add] at hsum
      subst hsum
      exact .withdrawn reason recipient h0
    | released _ _ _ hact _ _ => cases hact
    | traded _ _ _ _ _ _ _ _ _ _ ht _ => cases ht.active
  | withdrawn reason recipient h0 =>
    obtain ⟨rfl, rfl, rfl⟩ := hs.closed
    rw [List.append_nil]
    exact .withdrawn reason recipient h0
  | filled buyer seller price gross platformFee creatorFee =>
    obtain ⟨rfl, rfl, rfl⟩ := hs.closed
    rw [List.append_nil]
    exact .filled buyer seller price gross platformFee creatorFee

theorem Life.whole (hl : Life id false o₀ o pending h) : WholeLife id o₀ o pending h := by
  induction hl with
  | created _ => exact .untouched
  | next _ _ _ _ _ _ hl hs ih => exact ih.step hs

end

namespace World

variable {D : Deployment} {q : Prop} {W W' : World}

/-- A step changes the policy of no order, and gives a new order the default. -/
structure PolicyKept (W W' : World) : Prop where
  kept : ∀ id, id ≠ 0 → id < W.book.nextOrderId →
    W'.book.orderAllowsPartialFills id = W.book.orderAllowsPartialFills id
  snapshot : ∀ id, W.book.nextOrderId ≤ id → id < W'.book.nextOrderId →
    W'.book.orderAllowsPartialFills id = W.book.defaultAllowPartialFills

theorem deals_next (hd : Run (Deal D q) W W') : W'.book.nextOrderId = W.book.nextOrderId := by
  induction hd with
  | refl => rfl
  | tail _ hd ih => exact hd.next.trans ih

theorem deals_policy (h : Inv D q W ∅) (hd : Run (Deal D q) W W') {id : Nat} (h0 : id ≠ 0) :
    W'.book.orderAllowsPartialFills id = W.book.orderAllowsPartialFills id := by
  induction hd with
  | refl => rfl
  | tail hrun hd ih => exact (hd.lives (deals_inv h hrun) h0).policy.trans ih

theorem Done.policy (h : Inv D q W ∅) (hd : Done D q W W') : PolicyKept W W' := by
  cases hd with
  | placed _ o _ _ _ hp =>
    have hpol : ∀ id, W'.book.orderAllowsPartialFills id =
        Function.update W.book.orderAllowsPartialFills W.book.nextOrderId W.book.defaultAllowPartialFills id :=
      fun id => congrArg (fun a : Account => a.orderAllowsPartialFills id) hp.stretch.account
    have hnext : W'.book.nextOrderId = W.book.nextOrderId + 1 := congrArg Account.nextOrderId hp.stretch.account
    refine ⟨fun id _ hn => ?_, fun id hle hn => ?_⟩
    · rw [hpol, Function.update_of_ne (by omega)]
    · have hid : id = W.book.nextOrderId := by omega
      rw [hpol, hid, Function.update_self]
  | dealt _ hr =>
    refine ⟨fun id h0 _ => deals_policy h hr h0, fun id hle hn => ?_⟩
    rw [deals_next hr] at hn
    omega
  | waited _ => exact ⟨fun _ _ _ => rfl, fun id hle hn => absurd hn (not_lt.mpr hle)⟩

/-- The policy of an order is the default when it is created and stays; an order that may not be split is ended by one
release or one fill of all of it; and `_matchOrders` never reverts because of one. -/
theorem fill_policy (h : Reachable D q W) :
    (∀ W', Step D q W W' → PolicyKept W W') ∧
      (∀ id, id ≠ 0 → id < W.book.nextOrderId → W.book.orderAllowsPartialFills id = false →
        ∃ o₀, WholeLife id o₀ (W.book.orders id) (W.book.pendingShares id) (historyOf W.core.log id)) ∧
      ∀ (R : Receivers D q) market outcomeId groupUnits maxSteps,
        matchGroup D R W market outcomeId groupUnits maxSteps ≠ .error .WholeOrderRequired := by
  have hinv := h.inv
  refine ⟨fun W' hs => (Step.done hinv hs).policy hinv, fun id h0 hn hpol => ?_,
    fun R market outcomeId groupUnits maxSteps hm => ?_⟩
  · obtain ⟨o₀, hl⟩ := h.recorded.life id h0 hn
    rw [hpol] at hl
    exact ⟨o₀, hl.whole⟩
  · exact ((matchGroup_ends hinv market outcomeId groupUnits maxSteps).of_error hm).2 rfl

end World

namespace Sample

/-- Two orders that may not be split, of the same units. -/
def whole : List Act :=
  [.core creator (.createMarket params none market), .core alice (.buy market 0 3000000 1 3000000 9999 true),
   .core alice (.setApprovalForAll market deployment.marketplace true),
   .book true alice (.createOrder market 0 .ask 2000000 500000 100000 true),
   .book true bob (.createOrder market 0 .bid 2000000 600000 100000 true)]

end Sample

/-- Two sample orders that may not be split: both are untouched, and then matched whole. -/
theorem fill_policy_sample :
    (∃ o₀, WholeLife 1 o₀ ((Sample.acted Sample.whole).book.orders 1) ((Sample.acted Sample.whole).book.pendingShares 1)
      (historyOf (Sample.acted Sample.whole).core.log 1)) ∧
      ((Sample.acted Sample.whole).book.orders 1).remainingUnits = 2000000 ∧
      ((Sample.acted (Sample.whole ++ [.book true Sample.creator (.matchOrdersForUnits Sample.market 0 2000000
        5)])).book.orders 1).remainingUnits = 0 :=
  ⟨(World.fill_policy (Sample.acted_reachable Sample.whole)).2.1 1 (by decide) (by decide +kernel) (by decide +kernel),
    by decide +kernel, by decide +kernel⟩

end Cpredict
