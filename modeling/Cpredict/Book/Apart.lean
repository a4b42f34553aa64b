import Cpredict.Book.Calls
import Cpredict.Core.Invariant

/-!
# What the calls of others leave to the orderbook

No call by another account takes shares or payment tokens from the orderbook, whatever it delivers to receivers
(`exec_apart`): the orderbook approves nobody, gives no allowance, cannot be claimed or refunded for, and rejects the
shares that others send to it.
-/

namespace Cpredict

open Outcome Balances

/-! ## The events of orders -/

/-- The event of the orderbook that an event is, unless it is about the default policy only. -/
def Event.order : Event → Option BookEvent
  | .book (.DefaultAllowPartialFillsUpdated _) => none
  | .book e => some e
  | _ => none

/-- What the log says about orders. -/
def orderLog (log : Log) : List BookEvent := log.filterMap fun x => x.event.order

namespace Core

/-- What the orderbook has of every outcome of every market. -/
def held (D : Deployment) (w : Core) (market : Address) (outcomeId : Nat) : Nat :=
  (w.vaults market).shares.balanceOf outcomeId D.marketplace

/-- The orderbook has approved nobody, and addresses without a market have no shares. -/
structure Reserved (D : Deployment) (w : Core) : Prop where
  approvals : ∀ m s, (w.vaults m).shares.isApprovedForAll D.marketplace s = false
  allowance : ∀ s, w.token.allowance D.marketplace s = 0
  blank : ∀ m, w.factory.isMarket m = false → w.vaults m = Vault.blank

/-- What a call leaves alone of what the orderbook has. -/
structure Apart (D : Deployment) (w w' : Core) : Prop where
  held : held D w' = held D w
  approvals : ∀ m, (w'.vaults m).shares.isApprovedForAll D.marketplace =
    (w.vaults m).shares.isApprovedForAll D.marketplace
  allowance : ∀ s, w'.token.allowance D.marketplace s ≤ w.token.allowance D.marketplace s
  cash : w.token.balanceOf D.marketplace ≤ w'.token.balanceOf D.marketplace
  orders : orderLog w'.log = orderLog w.log

section

variable {D : Deployment} {w w₁ w' : Core} {caller market owner source target spender : Address} {amount : Nat}

/-- The contracts of the protocol are not the orderbook. -/
theorem ne_marketplace {a : Address} (h : D.outside a = false) : a ≠ D.marketplace := by
  rintro rfl
  rw [D.marketplace_outside] at h
  cases h

namespace Apart

theorem refl (w : Core) : Apart D w w := ⟨rfl, fun _ => rfl, fun _ => le_rfl, le_rfl, rfl⟩

theorem trans (h : Apart D w w₁) (h' : Apart D w₁ w') : Apart D w w' where
  held := h'.held.trans h.held
  approvals := fun m => (h'.approvals m).trans (h.approvals m)
  allowance := fun s => (h'.allowance s).trans (h.allowance s)
  cash := h.cash.trans h'.cash
  orders := h'.orders.trans h.orders

/-- A change of what neither the vaults, the token nor the log keep. -/
theorem of_same (hv : w'.vaults = w.vaults) (ht : w'.token = w.token) (hl : w'.log = w.log) : Apart D w w' where
  held := by unfold Core.held; rw [hv]
  approvals := fun m => by rw [hv]
  allowance := fun s => by rw [ht]
  cash := by rw [ht]
  orders := by rw [hl]

theorem emitAll {es : List Event} (h : ∀ e ∈ es, e.order = none) : Apart D w (w.emitAll es) := by
  refine ⟨rfl, fun _ => rfl, fun _ => le_rfl, le_rfl, ?_⟩
  have hnil : (es.map (LogEntry.mk w.now)).filterMap (fun x => x.event.order) = [] := by
    rw [List.filterMap_map]
    exact List.filterMap_eq_nil_iff.mpr fun e he => h e he
  simp only [orderLog, Core.emitAll, List.filterMap_append, hnil, List.append_nil]

theorem emit {e : Event} (h : e.order = none) : Apart D w (w.emit e) :=
  show Apart D w (w.emitAll [e]) from emitAll fun x hx => by rw [List.mem_singleton.mp hx]; exact h

/-- A vault's new storage in which the orderbook has and approves what it did. -/
theorem setVault {v : Vault}
    (hb : ∀ id, v.shares.balanceOf id D.marketplace = (w.vaults market).shares.balanceOf id D.marketplace)
    (ha : v.shares.isApprovedForAll D.marketplace = (w.vaults market).shares.isApprovedForAll D.marketplace) :
    Apart D w (w.setVault market v) := by
  refine ⟨?_, fun m => ?_, fun _ => le_rfl, le_rfl, rfl⟩
  · funext m id
    by_cases hm : m = market
    · subst hm; simp [Core.held, Core.setVault, hb]
    · simp [Core.held, Core.setVault, hm]
  · by_cases hm : m = market
    · subst hm; simp [Core.setVault, ha]
    · simp [Core.setVault, hm]

/-- A vault's new storage with the same shares. -/
theorem setVault_same {v : Vault} (h : v.shares = (w.vaults market).shares) : Apart D w (w.setVault market v) :=
  setVault (fun _ => by rw [h]) (by rw [h])

theorem pay (hs : source ≠ D.marketplace) (h : w.pay source target amount = .ok w') : Apart D w w' := by
  obtain ⟨_, rfl⟩ := pay_eq_ok h
  refine ⟨rfl, fun _ => rfl, fun _ => le_rfl, le_move _ _ hs.symm, ?_⟩
  simp [orderLog, Event.order]

theorem payFrom (hr : ∀ s, w.token.allowance D.marketplace s = 0)
    (h : w.payFrom spender source target amount = .ok w') : Apart D w w' := by
  obtain ⟨t, ht, rfl⟩ := payFrom_eq_ok h
  obtain ⟨hal, hle, hb, _⟩ := Token.transferFrom_eq_ok ht
  refine ⟨rfl, fun _ => rfl, fun s => Token.transferFrom_allowance_le ht _ s, ?_, by simp [orderLog, Event.order]⟩
  show w.token.balanceOf D.marketplace ≤ t.balanceOf D.marketplace
  rw [hb]
  by_cases hs : D.marketplace = source
  · subst hs
    rw [hr] at hal
    have := move_cash w.token.balanceOf target hle D.marketplace
    simp only [Payment.sent, Payment.received] at this
    simp only [if_true] at this
    omega
  · exact le_move _ _ hs

theorem pullExact (hr : ∀ s, w.token.allowance D.marketplace s = 0)
    (h : w.pullExact spender source target amount = .ok w') : Apart D w w' :=
  payFrom hr (pullExact_eq_ok h).1

theorem accrue {sender beneficiary : Address} {kind : FeeKind} {ref : FeeReference}
    (h : w.accrue D sender beneficiary amount kind ref = .ok w') : Apart D w w' := by
  simp only [Core.accrue, bind_eq_ok, Except.ok.injEq] at h
  obtain ⟨f, _, rfl⟩ := h
  have hset : Apart D w { w with feeVault := f } := .of_same rfl rfl rfl
  split
  · exact hset
  · exact hset.trans (.emit rfl)

theorem sync {previous current : Nat} (h : w.sync market = .ok (w', previous, current)) : Apart D w w' := by
  simp only [Core.sync, bind_eq_ok, Except.ok.injEq, Prod.mk.injEq, Prod.exists] at h
  obtain ⟨g, _, _, _, rfl, _, _⟩ := h
  have hset : Apart D w { w with guard := g } := .of_same rfl rfl rfl
  split
  · exact hset
  · exact hset.trans (.emit rfl)

/-- A claim: the vault's new storage, some events, a payment from the vault, and one more event. -/
theorem claim {v : Vault} {es : List Event} {e : VaultEvent}
    (hb : ∀ id, v.shares.balanceOf id D.marketplace = (w.vaults market).shares.balanceOf id D.marketplace)
    (ha : v.shares.isApprovedForAll D.marketplace = (w.vaults market).shares.isApprovedForAll D.marketplace)
    (hq : ∀ x ∈ es, x.order = none) (hne : market ≠ D.marketplace)
    (hp : ((w.setVault market v).emitAll es).pay market owner amount = .ok w₁) :
    Apart D w (w₁.emit (.vault market e)) :=
  (((setVault hb ha).trans (emitAll hq)).trans (pay hne hp)).trans (emit rfl)

end Apart

/-! ## The functions of the core -/

theorem updateBeforeFirstBuy_apart {terms : MarketTerms} (h : updateBeforeFirstBuy w caller market terms = .ok w') :
    Apart D w w' := by
  simp only [updateBeforeFirstBuy, bind_eq_ok, Except.ok.injEq] at h
  obtain ⟨_, _, v, hv, rfl⟩ := h
  have hs : v.shares = (w.vaults market).shares := by rw [(Vault.updateBeforeFirstBuy_eq_ok hv).1]
  exact (Apart.setVault_same hs).trans (.emit rfl)

theorem completeBuy_apart {buyer : Address} {outcomeId desiredUnits filledUnits : Nat} {accepts : Bool}
    (hne : buyer ≠ D.marketplace)
    (h : completeBuy D w caller market buyer outcomeId desiredUnits filledUnits accepts = .ok w') : Apart D w w' := by
  simp only [completeBuy, bind_eq_ok, Except.ok.injEq] at h
  obtain ⟨g, _, v, hv, _, _, rfl⟩ := h
  obtain ⟨_, _, _, _, s, hs, rfl⟩ := Vault.completeBuy_eq_ok.mp hv
  obtain ⟨_, hb, _, ha⟩ := Shares.mint_eq_ok hs
  have hset : Apart D w { w with guard := g } := .of_same rfl rfl rfl
  refine (hset.trans ((Apart.setVault (fun id => ?_) ?_).trans (.emitAll fun e he => ?_))).trans
    (.emitAll fun e he => ?_)
  · show s.balanceOf id D.marketplace = _
    rw [hb, update₂_other_holder _ _ hne.symm]
  · show s.isApprovedForAll D.marketplace = _
    rw [ha]
  · split at he
    · cases he
    · rw [List.mem_singleton.mp he]; rfl
  · rcases List.mem_pair.mp he with rfl | rfl <;> rfl

theorem buy_apart {outcomeId desiredUnits minUnits maxPayment deadline : Nat} {accepts : Bool} (hr : Reserved D w)
    (hne : caller ≠ D.marketplace)
    (h : buy D w caller market outcomeId desiredUnits minUnits maxPayment deadline accepts = .ok w') :
    Apart D w w' := by
  simp only [buy, bind_eq_ok] at h
  obtain ⟨_, _, _, _, w₁, hp, h⟩ := h
  exact (Apart.pullExact hr.allowance hp).trans (completeBuy_apart hne h)

theorem buyWithPermit2_apart {outcomeId desiredUnits minUnits maxPayment callDeadline permittedAmount : Nat}
    {permittedToken : Address} {permitAccepted accepts : Bool} (hr : Reserved D w)
    (h : buyWithPermit2 D w caller market owner outcomeId desiredUnits minUnits maxPayment callDeadline permittedToken
      permittedAmount permitAccepted (decide (owner ≠ D.marketplace) && accepts) = .ok w') : Apart D w w' := by
  simp only [buyWithPermit2, bind_eq_ok] at h
  obtain ⟨_, _, _, _, _, _, _, _, _, _, _, _, w₁, hp, h⟩ := h
  have hne : owner ≠ D.marketplace := by
    have h' := h
    simp only [completeBuy, bind_eq_ok, deliver_eq_ok, Bool.and_eq_true, decide_eq_true_eq] at h'
    obtain ⟨_, _, _, _, _, ⟨_, hne, _⟩, _⟩ := h'
    exact hne
  exact (Apart.pullExact hr.allowance hp).trans (completeBuy_apart hne h)

theorem payRake_apart {b : PayoutBreakdown} (hne : market ≠ D.marketplace) (h : payRake D w market b = .ok w') :
    Apart D w w' := by
  unfold payRake at h
  simp only at h
  split at h
  · cases h; exact .refl w
  · simp only [bind_eq_ok] at h
    obtain ⟨w₁, h₁, w₂, h₂, h₃⟩ := h
    exact ((Apart.pay hne h₁).trans (.accrue h₂)).trans (.accrue h₃)

theorem resolve_apart {outcomeId : Nat} {evidenceHash : Bytes32} (hw : Wired D w)
    (h : resolve D w caller market outcomeId evidenceHash = .ok w') : Apart D w w' := by
  simp only [resolve, bind_eq_ok, requireMarket_eq_ok, Prod.exists] at h
  obtain ⟨_, hm, v, payouts, hv, h⟩ := h
  have hset : Apart D w (w.setVault market v) := .setVault_same (by
    obtain ⟨_, _, _, _, _, ⟨_, rfl, _⟩ | ⟨_, rfl, _⟩⟩ := Vault.resolve_eq_ok hv <;> rfl)
  cases payouts with
  | none => cases h; exact hset.trans (.emit rfl)
  | some b =>
    simp only [bind_eq_ok, Except.ok.injEq] at h
    obtain ⟨w₁, h₁, _, _, rfl⟩ := h
    exact (hset.trans (payRake_apart (hw.market_ne hm).2.2.1 h₁)).trans (.emit rfl)

theorem creatorVoid_apart {evidenceHash : Bytes32} (h : creatorVoid w caller market evidenceHash = .ok w') :
    Apart D w w' := by
  simp only [creatorVoid, bind_eq_ok, Except.ok.injEq] at h
  obtain ⟨_, _, v, hv, rfl⟩ := h
  have hs : v.shares = (w.vaults market).shares := by rw [(Vault.creatorVoid_eq_ok.mp hv).2.2.2]; rfl
  exact (Apart.setVault_same hs).trans (.emit rfl)

theorem voidAfterDeadline_apart (h : voidAfterDeadline w caller market = .ok w') : Apart D w w' := by
  simp only [voidAfterDeadline, bind_eq_ok, Except.ok.injEq] at h
  obtain ⟨_, _, v, hv, rfl⟩ := h
  have hs : v.shares = (w.vaults market).shares := by rw [(Vault.voidAfterDeadline_eq_ok.mp hv).2.2]; rfl
  exact (Apart.setVault_same hs).trans (.emit rfl)

theorem order_finalRemainder (market : Address) (pool : PoolId) (owner : Address) (units remainingUnits amount : Nat) :
    ∀ x ∈ finalRemainder market pool owner units remainingUnits amount, x.order = none := by
  intro x hx
  unfold finalRemainder at hx
  split at hx
  · rw [List.mem_singleton.mp hx]; rfl
  · cases hx

theorem claimWinningsFor_apart (hw : Wired D w) (h : claimWinningsFor D w caller market owner = .ok w') :
    Apart D w w' := by
  simp only [claimWinningsFor, bind_eq_ok, requireMarket_eq_ok, Except.ok.injEq, Prod.exists] at h
  obtain ⟨_, hm, v, units, payout, hv, w₁, hp, rfl⟩ := h
  have hne : owner ≠ D.marketplace := by
    simp only [Vault.claimWinningsFor, Vault.rejectProtocolMarketplaceOwner, bind_eq_ok, revertIf_eq_ok, not_and] at hv
    obtain ⟨_, _, _, hne, _⟩ := hv
    exact hne D.marketplace_ne_zero
  obtain ⟨_, _, _, _, _, s, hs, rfl⟩ := Vault.claimWinningsFor_eq_ok hv
  obtain ⟨_, hb, _, ha⟩ := Shares.burn_eq_ok hs
  refine .claim (fun id => ?_) ?_ (fun x hx => ?_) (hw.market_ne hm).2.2.1 hp
  · show s.balanceOf id D.marketplace = _
    rw [hb, update₂_other_holder _ _ hne.symm]
  · show s.isApprovedForAll D.marketplace = _
    rw [ha]
  · rcases List.mem_append.mp hx with hx | hx
    · exact order_finalRemainder _ _ _ _ _ _ x hx
    · rw [List.mem_singleton.mp hx]; rfl

theorem claimEarlyBirdFor_apart (hw : Wired D w) (h : claimEarlyBirdFor w caller market owner = .ok w') :
    Apart D w w' := by
  simp only [claimEarlyBirdFor, bind_eq_ok, requireMarket_eq_ok, Except.ok.injEq, Prod.exists] at h
  obtain ⟨_, hm, v, score, reward, hv, w₁, hp, rfl⟩ := h
  have hs : v.shares = (w.vaults market).shares := by rw [(Vault.claimEarlyBirdFor_eq_ok hv).2.2.2.2.2]
  exact .claim (fun _ => by rw [hs]) (by rw [hs]) (order_finalRemainder _ _ _ _ _ _) (hw.market_ne hm).2.2.1 hp

theorem refundFor_apart (hw : Wired D w) (h : refundFor D w caller market owner = .ok w') : Apart D w w' := by
  simp only [refundFor, bind_eq_ok, requireMarket_eq_ok, Except.ok.injEq, Prod.exists] at h
  obtain ⟨_, hm, v, amount, hv, w₁, hp, rfl⟩ := h
  have hne : owner ≠ D.marketplace := by
    simp only [Vault.refundFor, Vault.rejectProtocolMarketplaceOwner, bind_eq_ok, revertIf_eq_ok, not_and] at hv
    obtain ⟨_, _, _, hne, _⟩ := hv
    exact hne D.marketplace_ne_zero
  obtain ⟨_, _, _, _, s, hs, rfl⟩ := Vault.refundFor_eq_ok hv
  obtain ⟨hb, _, ha⟩ := Vault.burnAll_eq_ok List.nodup_range hs
  refine .claim (fun id => ?_) ?_ (fun x hx => ?_) (hw.market_ne hm).2.2.1 hp
  · show s.balanceOf id D.marketplace = _
    rw [hb]
    simp [hne.symm]
  · show s.isApprovedForAll D.marketplace = _
    rw [ha]
  · obtain ⟨_, _, rfl⟩ := List.mem_map.mp hx
    rfl

theorem claimTimeoutBonusFor_apart (hw : Wired D w) (h : claimTimeoutBonusFor w caller market owner = .ok w') :
    Apart D w w' := by
  simp only [claimTimeoutBonusFor, bind_eq_ok, requireMarket_eq_ok, Except.ok.injEq, Prod.exists] at h
  obtain ⟨_, hm, v, units, reward, hv, w₁, hp, rfl⟩ := h
  have hs : v.shares = (w.vaults market).shares := by rw [(Vault.claimTimeoutBonusFor_eq_ok.mp hv).2.2.2.2.2.2]
  exact .claim (fun _ => by rw [hs]) (by rw [hs]) (order_finalRemainder _ _ _ _ _ _) (hw.market_ne hm).2.2.1 hp

theorem burnLosingPosition_apart {outcomeId : Nat} (hne : caller ≠ D.marketplace)
    (h : burnLosingPosition w caller market outcomeId = .ok w') : Apart D w w' := by
  simp only [burnLosingPosition, bind_eq_ok, Except.ok.injEq, Prod.exists] at h
  obtain ⟨_, _, v, units, hv, rfl⟩ := h
  obtain ⟨_, _, _, _, _, s, hs, rfl⟩ := Vault.burnLosingPosition_eq_ok hv
  obtain ⟨_, hb, _, ha⟩ := Shares.burn_eq_ok hs
  refine (Apart.setVault (fun id => ?_) ?_).trans (.emitAll fun x hx => ?_)
  · show s.balanceOf id D.marketplace = _
    rw [hb, update₂_other_holder _ _ hne.symm]
  · show s.isApprovedForAll D.marketplace = _
    rw [ha]
  · rcases List.mem_pair.mp hx with rfl | rfl <;> rfl

/-- Shares that move between two others. -/
theorem shares_apart {s : Shares} {e : VaultEvent} (hm : Shares.Moved (w.vaults market).shares s source target)
    (hs : source ≠ D.marketplace) (ht : target ≠ D.marketplace) :
    Apart D w ((w.setVault market { w.vaults market with shares := s }).emit (.vault market e)) :=
  (Apart.setVault (fun id => hm.others id _ hs.symm ht.symm)
    (by show s.isApprovedForAll D.marketplace = _; rw [hm.approvals])).trans (.emit rfl)

/-- The shares of the orderbook are moved by the orderbook only. -/
theorem Reserved.source_ne (hr : Reserved D w) (hne : caller ≠ D.marketplace)
    (h : source = caller ∨ (w.vaults market).shares.isApprovedForAll source caller = true) :
    source ≠ D.marketplace := by
  rintro rfl
  rcases h with rfl | h
  · exact hne rfl
  · rw [hr.approvals] at h; cases h

theorem safeTransferFrom_apart {id value : Nat} {accepts : Bool} (hr : Reserved D w) (hne : caller ≠ D.marketplace)
    (h : safeTransferFrom D w caller market source target id value (decide (target ≠ D.marketplace) && accepts) =
      .ok w') : Apart D w w' := by
  simp only [safeTransferFrom, moveShares, bind_eq_ok, deliver_eq_ok, Bool.and_eq_true, decide_eq_true_eq,
    Except.ok.injEq] at h
  obtain ⟨_, ⟨_, _, s, hs, rfl⟩, _, ⟨_, ht, _⟩, rfl⟩ := h
  exact shares_apart (Shares.safeTransferFrom_moved hs) (hr.source_ne hne (Shares.safeTransferFrom_eq_ok hs).1) ht

theorem safeBatchTransferFrom_apart {parts : List (Nat × Nat)} {accepts : Bool} (hr : Reserved D w)
    (hne : caller ≠ D.marketplace)
    (h : safeBatchTransferFrom D w caller market source target parts (decide (target ≠ D.marketplace) && accepts) =
      .ok w') : Apart D w w' := by
  simp only [safeBatchTransferFrom, bind_eq_ok, deliver_eq_ok, Bool.and_eq_true, decide_eq_true_eq,
    Except.ok.injEq] at h
  obtain ⟨_, _, s, hs, _, ⟨_, ht, _⟩, rfl⟩ := h
  obtain ⟨happ, _, hmoved⟩ := Shares.safeBatchTransferFrom_eq_ok hs
  exact shares_apart hmoved (hr.source_ne hne happ) ht

theorem setApprovalForAll_apart {operator : Address} {approved : Bool} (hne : caller ≠ D.marketplace)
    (h : setApprovalForAll w caller market operator approved = .ok w') : Apart D w w' := by
  simp only [setApprovalForAll, bind_eq_ok, Except.ok.injEq] at h
  obtain ⟨_, _, rfl⟩ := h
  have hset : Apart D w (w.setVault market { w.vaults market with
      shares := (w.vaults market).shares.setApprovalForAll caller operator approved }) :=
    .setVault (fun _ => rfl) (update₂_of_ne _ _ _ hne.symm)
  exact hset.trans (.emit rfl)

theorem settleBond_apart (h : settleBond D w market = .ok w') : Apart D w w' := by
  have hescrow := ne_marketplace D.bondEscrow_inside
  simp only [settleBond, bind_eq_ok, Prod.exists] at h
  obtain ⟨_, _, _, _, _, _, e, b, _, h⟩ := h
  have hset : ∀ e : Escrow, Apart D w { w with escrow := e } := fun e => .of_same rfl rfl rfl
  split at h
  · simp only [fundTimeoutBonus, bind_eq_ok, Except.ok.injEq, Prod.exists] at h
    obtain ⟨w₁, hp, _, ⟨_, _, v, hv, w₂, _, _, hs, _, _, rfl⟩, rfl⟩ := h
    have hsame : v.shares = (w₁.vaults market).shares := by rw [(Vault.fundTimeoutBonus_eq_ok.mp hv).2.2.2.2.2]
    exact (((((hset e).trans (.pay hescrow hp)).trans (.setVault_same hsame)).trans (.sync hs)).trans (.emit rfl)).trans
      (.emit rfl)
  · cases h
    refine (hset _).trans (.emitAll fun x hx => ?_)
    rcases List.mem_append.mp hx with hx | hx
    · split at hx
      · rw [List.mem_singleton.mp hx]; rfl
      · cases hx
    · rw [List.mem_singleton.mp hx]; rfl

theorem claimBondFor_apart {creator : Address} (h : claimBondFor D w caller creator = .ok w') : Apart D w w' := by
  have hescrow := ne_marketplace D.bondEscrow_inside
  simp only [claimBondFor, bind_eq_ok, Except.ok.injEq, Prod.exists] at h
  obtain ⟨credits, amount, _, w₁, hp, rfl⟩ := h
  have hset : Apart D w { w with escrow := { w.escrow with credits := credits } } := .of_same rfl rfl rfl
  exact (hset.trans (.pay hescrow hp)).trans (.emit rfl)

theorem claimFeesFor_apart {beneficiary : Address} (h : claimFeesFor D w caller beneficiary = .ok w') :
    Apart D w w' := by
  have hvault := ne_marketplace D.feeVault_inside
  simp only [claimFeesFor, bind_eq_ok, Except.ok.injEq, Prod.exists] at h
  obtain ⟨credits, amount, _, w₁, hp, rfl⟩ := h
  have hset : Apart D w { w with feeVault := { w.feeVault with credits := credits } } := .of_same rfl rfl rfl
  exact (hset.trans (.pay hvault hp)).trans (.emit rfl)

/-- What the factory pays and escrows for a new market comes from its creator. -/
theorem createMarket_pays {p : CreateMarketParams} (hr : ∀ s, w.token.allowance D.marketplace s = 0)
    (hfee : payCreationFee D w caller market = .ok w₁) (hbond : lockBond D w₁ caller market p.creatorBond = .ok w') :
    Apart D w w' := by
  have hw₁ : Apart D w w₁ := by
    unfold payCreationFee at hfee
    split at hfee
    · cases hfee; exact .refl w
    · simp only [bind_eq_ok] at hfee
      obtain ⟨w₂, hp, ha⟩ := hfee
      exact (Apart.pullExact hr hp).trans (.accrue ha)
  simp only [lockBond, bind_eq_ok, Except.ok.injEq] at hbond
  obtain ⟨w₂, hp, e, _, rfl⟩ := hbond
  have hr₁ : ∀ s, w₁.token.allowance D.marketplace s = 0 := fun s => by
    have := hw₁.allowance s
    rw [hr] at this
    exact Nat.le_zero.mp this
  have hset : Apart D w₂ { w₂ with escrow := e } := .of_same rfl rfl rfl
  exact ((hw₁.trans (.pullExact hr₁ hp)).trans hset).trans (.emit rfl)

/-- A new market: nobody has shares of it. -/
theorem createMarket_apart {p : CreateMarketParams} {platformFees : Option (Nat × Nat)} (hr : Reserved D w)
    (h : createMarket D w caller p platformFees market = .ok w') : Apart D w w' := by
  simp only [createMarket, bind_eq_ok, revertIf_eq_ok, Bool.not_eq_true, Bool.or_eq_false_iff, Except.ok.injEq] at h
  obtain ⟨_, _, _, _, _, _, _, _, _, _, _, _, _, ⟨_, hnew⟩, v, hv, g, _, f, _, w₁, hfee, w₂, hbond, rfl⟩ := h
  have hs : v.shares = (w.vaults market).shares := by
    rw [hr.blank market hnew, (Vault.initializeVault_eq_ok hv).1]
  have hset : Apart D w (w.setVault market v) := .setVault_same hs
  have hreg : Apart D w (registered w caller market v g f) := hset.trans (.of_same rfl rfl rfl)
  refine ((hreg.trans (.emitAll fun e he => ?_)).trans (createMarket_pays hr.allowance hfee hbond)).trans (.emit rfl)
  simp only [List.mem_cons, List.not_mem_nil, or_false] at he
  rcases he with rfl | rfl | rfl | rfl <;> rfl

/-- No call by another account takes anything from the orderbook. -/
theorem exec_apart {c : CoreCall} (hw : Wired D w) (hr : Reserved D w) (hne : caller ≠ D.marketplace)
    (h : exec D w caller (World.answered D c) = .ok w') : Apart D w w' := by
  simp only [exec, bind_eq_ok] at h
  obtain ⟨_, _, h⟩ := h
  cases c with
  | createMarket => exact createMarket_apart hr h
  | updateBeforeFirstBuy => exact updateBeforeFirstBuy_apart h
  | buy => exact buy_apart hr hne h
  | buyWithPermit2 => exact buyWithPermit2_apart hr h
  | resolve => exact resolve_apart hw h
  | creatorVoid => exact creatorVoid_apart h
  | voidAfterDeadline => exact voidAfterDeadline_apart h
  | claimWinningsFor => exact claimWinningsFor_apart hw h
  | claimEarlyBirdFor => exact claimEarlyBirdFor_apart hw h
  | refundFor => exact refundFor_apart hw h
  | claimTimeoutBonusFor => exact claimTimeoutBonusFor_apart hw h
  | burnLosingPosition => exact burnLosingPosition_apart hne h
  | safeTransferFrom => exact safeTransferFrom_apart hr hne h
  | safeBatchTransferFrom => exact safeBatchTransferFrom_apart hr hne h
  | setApprovalForAll => exact setApprovalForAll_apart hne h
  | settleBond => exact settleBond_apart h
  | claimBondFor => exact claimBondFor_apart h
  | claimFeesFor => exact claimFeesFor_apart h
  | accrue => exact .accrue h
  | sync =>
    simp only [World.answered, bind_eq_ok, Except.ok.injEq, Prod.exists] at h
    obtain ⟨w₁, _, _, hs, rfl⟩ := h
    exact .sync hs
  | raiseCap =>
    simp only [World.answered, bind_eq_ok, Except.ok.injEq] at h
    obtain ⟨_, _, g, _, rfl⟩ := h
    exact .of_same rfl rfl rfl
  | retireForever =>
    simp only [World.answered, bind_eq_ok, Except.ok.injEq] at h
    obtain ⟨_, _, g, _, rfl⟩ := h
    exact .of_same rfl rfl rfl
  | updateConfig =>
    simp only [World.answered, bind_eq_ok, Except.ok.injEq] at h
    obtain ⟨_, _, c, _, rfl⟩ := h
    exact .of_same rfl rfl rfl
  | setDeprecated =>
    simp only [World.answered, bind_eq_ok, Except.ok.injEq] at h
    obtain ⟨_, _, rfl⟩ := h
    exact .of_same rfl rfl rfl
  | transferToken => exact .pay hne h
  | transferTokenFrom => exact .payFrom hr.allowance h
  | approveToken spender amount =>
    cases h
    refine ⟨rfl, fun _ => rfl, fun s => ?_, le_rfl, rfl⟩
    show update₂ w.token.allowance caller spender amount D.marketplace s ≤ _
    rw [update₂_of_ne _ _ _ hne.symm]
  | issueToken target amount =>
    cases h
    refine ⟨rfl, fun _ => rfl, fun _ => le_rfl, ?_, by simp [orderLog, emit, Event.order]⟩
    show w.token.balanceOf D.marketplace ≤ Function.update w.token.balanceOf target _ D.marketplace
    rw [Function.update_apply]
    split
    · rename_i he; rw [he]; exact Nat.le_add_right _ _
    · exact le_rfl
  | setRefusals => cases h; exact ⟨rfl, fun _ => rfl, fun _ => le_rfl, le_rfl, rfl⟩
  | setEmergency => cases h; exact .of_same rfl rfl rfl

end

end Core

end Cpredict
