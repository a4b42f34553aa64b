import Cpredict.Core.Effect

/-!
# The calls, inverted

Every call that does not revert has one of the effects of `Effect` and keeps the contracts wired. One lemma for each
function of `Core/Calls.lean`, assembled in `exec_effect`.
-/

namespace Cpredict

open Outcome Balances Tally

namespace Core

section

variable {D : Deployment} {w w' : Core} {caller market owner source target : Address}

/-- What a call on one vault has to show. -/
theorem effect_vault {v' : Vault} {e : Option VaultEvent} {p : Option Payment}
    (isMarket : w.factory.isMarket market = true) (step : VaultStep D market w.now (w.vaults market) v' e p)
    (vaults : w'.vaults = Function.update w.vaults market v') (factory : w'.factory = w.factory)
    (escrow : w'.escrow = w.escrow) (trace : Trace w w' (e.toList.map (market, ·)) p.toList)
    (unfunded : tally VaultEvent.bonusFunded e.toList = 0)
    (payer : ∀ x ∈ p, x.source = market ∨ D.outside x.source = true ∨ x.amount = 0) : Effect D w w' := by
  refine .vault market v' e p isMarket step vaults factory escrow trace unfunded fun a hin hne => ?_
  cases p with
  | none => rfl
  | some x =>
    have hx := payer x rfl
    simp only [Option.toList, tally_cons, tally_nil, Payment.sent]
    split
    · rename_i hs
      rcases hx with he | ho | hz
      · exact absurd (hs.symm.trans he) hne
      · rw [hs, hin] at ho; cases ho
      · rw [hz]
    · rfl

theorem updateBeforeFirstBuy_effect {terms : MarketTerms} (hw : Wired D w)
    (h : updateBeforeFirstBuy w caller market terms = .ok w') : Effect D w w' ∧ Wired D w' := by
  simp only [updateBeforeFirstBuy, bind_eq_ok, requireMarket_eq_ok, Except.ok.injEq] at h
  obtain ⟨_, hm, v, hv, rfl⟩ := h
  refine ⟨effect_vault hm (.terms caller terms v hv) rfl rfl rfl ?_ rfl (by simp), (hw.setVault v).emit _⟩
  exact (trace_setVault v).trans (trace_emit ⟨rfl, rfl⟩)

/-- A purchase that has been paid for. -/
theorem completeBuy_effect {w₁ : Core} {buyer : Address} {outcomeId desiredUnits filledUnits : Nat} {accepts : Bool}
    {spender : Address} (hw : Wired D w) (hm : w.factory.isMarket market = true)
    (hb : (w.vaults market).Buyable w.now buyer outcomeId filledUnits) (hz : filledUnits ≠ 0)
    (hp : w.pullExact spender buyer market filledUnits = .ok w₁)
    (h : completeBuy D w₁ caller market buyer outcomeId desiredUnits filledUnits accepts = .ok w') :
    Effect D w w' ∧ Wired D w' := by
  have hne := pullExact_ne hp hz
  have hw₁ := hw.pullExact hp
  have hk := kept_pullExact hp
  have hin : D.outside buyer = true ∨ filledUnits = 0 := by
    cases ho : D.outside buyer with
    | true => exact .inl rfl
    | false => exact .inr (hw.allowance_zero ho (pullExact_eq_ok hp).1)
  simp only [completeBuy, bind_eq_ok, Except.ok.injEq] at h
  obtain ⟨g, hg, v, hv, _, _, rfl⟩ := h
  have step : VaultStep D market w.now (w.vaults market) v (some (.PrimaryPurchased buyer outcomeId desiredUnits
      filledUnits filledUnits ((w₁.vaults market).earlyBirdWeight w₁.now) (v.cumulativePrimaryBought buyer)
      v.totalPrincipal)) (some ⟨buyer, market, filledUnits⟩) := by
    rw [hk.now, hk.vaults] at *
    exact .buy buyer outcomeId desiredUnits filledUnits v hb hne hv
  have hquiet : ∀ e ∈ (if g.retired = true then [] else
      [Event.ExposureReserved market filledUnits (g.reportedExposure market) g.totalReportedExposure]), Quiet e := by
    intro e he
    split at he
    · cases he
    · rw [List.mem_singleton.mp he]; exact ⟨rfl, rfl⟩
  have hset : Trace w₁ ({ w₁ with guard := g }.setVault market v) [] [] := .of_same rfl rfl rfl
  have hvaults : (w₁.setVault market v).vaults = Function.update w.vaults market v := by
    rw [← hk.vaults]
    rfl
  refine ⟨effect_vault hm step hvaults hk.factory hk.escrow ?_ rfl ?_, ?_⟩
  · exact (((trace_pullExact hp).trans hset).trans (trace_emitAll hquiet)).trans (trace_events rfl)
  · rintro x hx
    cases hx
    exact .inr hin
  · refine Wired.emitAll (Wired.emitAll (Wired.setVault ?_ v) _) _
    exact hw₁.setGuard (Guard.reserve_balanced hw₁.balanced hg) (Guard.reserve_registered hg)

theorem buy_effect {outcomeId desiredUnits minUnits maxPayment deadline : Nat} {accepts : Bool} (hw : Wired D w)
    (hmin : ∀ m, w.factory.isMarket m = true → 0 < (w.vaults m).init.minimumPrimaryUnits)
    (h : buy D w caller market outcomeId desiredUnits minUnits maxPayment deadline accepts = .ok w') :
    Effect D w w' ∧ Wired D w' := by
  simp only [buy, bind_eq_ok, requireMarket_eq_ok] at h
  obtain ⟨_, hm, filledUnits, hf, w₁, hp, h⟩ := h
  have hb := Vault.prepareBuy_eq_ok hf
  have hz : filledUnits ≠ 0 := by have := hmin market hm; have := hb.minimum; omega
  exact completeBuy_effect hw hm hb hz hp h

theorem buyWithPermit2_effect {outcomeId desiredUnits minUnits maxPayment callDeadline permittedAmount : Nat}
    {permittedToken : Address} {permitAccepted accepts : Bool} (hw : Wired D w)
    (hmin : ∀ m, w.factory.isMarket m = true → 0 < (w.vaults m).init.minimumPrimaryUnits)
    (h : buyWithPermit2 D w caller market owner outcomeId desiredUnits minUnits maxPayment callDeadline permittedToken
      permittedAmount permitAccepted accepts = .ok w') : Effect D w w' ∧ Wired D w' := by
  simp only [buyWithPermit2, bind_eq_ok, requireMarket_eq_ok] at h
  obtain ⟨_, hm, _, _, _, _, filledUnits, hf, _, _, _, _, w₁, hp, h⟩ := h
  have hb := Vault.prepareBuy_eq_ok hf
  have hz : filledUnits ≠ 0 := by have := hmin market hm; have := hb.minimum; omega
  exact completeBuy_effect hw hm hb hz hp h

/-! ## The terminal transitions -/

theorem payRake_effect {b : PayoutBreakdown} (hw : Wired D w) (hne : market ≠ D.feeVault)
    (h : payRake D w market b = .ok w') :
    Kept w w' ∧ Wired D w' ∧ Trace w w' []
      (if b.protocolFee + b.creatorFee = 0 then none
        else some (Payment.mk market D.feeVault (b.protocolFee + b.creatorFee))).toList := by
  unfold payRake at h
  simp only at h
  split at h
  · rename_i hz
    cases h
    rw [if_pos hz]
    exact ⟨⟨rfl, rfl, rfl, rfl⟩, hw, .of_same rfl rfl rfl⟩
  · rename_i hz
    simp only [bind_eq_ok] at h
    obtain ⟨w₁, h₁, w₂, h₂, h₃⟩ := h
    obtain ⟨hk₂, ht₂⟩ := kept_accrue h₂
    obtain ⟨hk₃, ht₃⟩ := kept_accrue h₃
    rw [if_neg hz]
    exact ⟨((kept_pay h₁).trans hk₂).trans hk₃, ((hw.pay hne h₁).accrue h₂).accrue h₃,
      ((trace_pay h₁).trans ht₂).trans ht₃⟩

theorem resolve_effect {outcomeId : Nat} {evidenceHash : Bytes32} (hw : Wired D w)
    (h : resolve D w caller market outcomeId evidenceHash = .ok w') : Effect D w w' ∧ Wired D w' := by
  simp only [resolve, bind_eq_ok, requireMarket_eq_ok, Prod.exists] at h
  obtain ⟨_, hm, v, payouts, hv, h⟩ := h
  cases payouts with
  | none =>
    cases h
    refine ⟨effect_vault hm (.resolveEmpty caller outcomeId evidenceHash v hv) rfl rfl rfl ?_ rfl (by simp),
      (hw.setVault v).emit _⟩
    exact (trace_setVault v).trans (trace_milestone rfl)
  | some b =>
    simp only [bind_eq_ok, Except.ok.injEq] at h
    obtain ⟨w₁, h₁, _, _, rfl⟩ := h
    obtain ⟨hk, hw₁, ht⟩ := payRake_effect (hw.setVault v) (hw.market_ne hm).1 h₁
    refine ⟨effect_vault hm (.resolve caller outcomeId evidenceHash v b hv) hk.vaults hk.factory hk.escrow ?_ rfl ?_,
      hw₁.emit _⟩
    · have := ((trace_setVault v).trans ht).trans (show
        Trace w₁ (w₁.emit (.vault market (.MarketResolved outcomeId b evidenceHash))) _ _ from trace_milestone rfl)
      simpa using this
    · intro x hx
      split at hx
      · cases hx
      · cases hx; exact .inl rfl

theorem creatorVoid_effect {evidenceHash : Bytes32} (hw : Wired D w)
    (h : creatorVoid w caller market evidenceHash = .ok w') : Effect D w w' ∧ Wired D w' := by
  simp only [creatorVoid, bind_eq_ok, requireMarket_eq_ok, Except.ok.injEq] at h
  obtain ⟨_, hm, v, hv, rfl⟩ := h
  refine ⟨effect_vault hm (.creatorVoid caller evidenceHash v hv) rfl rfl rfl ?_ rfl (by simp),
    (hw.setVault v).emit _⟩
  exact (trace_setVault v).trans (trace_milestone rfl)

theorem voidAfterDeadline_effect (hw : Wired D w) (h : voidAfterDeadline w caller market = .ok w') :
    Effect D w w' ∧ Wired D w' := by
  simp only [voidAfterDeadline, bind_eq_ok, requireMarket_eq_ok, Except.ok.injEq] at h
  obtain ⟨_, hm, v, hv, rfl⟩ := h
  refine ⟨effect_vault hm (.voidAfterDeadline caller v hv) rfl rfl rfl ?_ rfl (by simp), (hw.setVault v).emit _⟩
  exact (trace_setVault v).trans (trace_milestone rfl)

/-! ## Claims -/

/-- A claim: the vault's new storage, quiet events, a payment from the vault, and the claim's own event. -/
theorem claim_effect {v : Vault} {es : List Event} {amount : Nat} {w₁ : Core} {e : VaultEvent} (hw : Wired D w)
    (hm : w.factory.isMarket market = true)
    (step : VaultStep D market w.now (w.vaults market) v (some e) (some ⟨market, owner, amount⟩))
    (hq : ∀ x ∈ es, Quiet x) (hp : ((w.setVault market v).emitAll es).pay market owner amount = .ok w₁)
    (he : e.isMilestone = true) (hf : e.bonusFunded = 0) :
    Effect D w (w₁.emit (.vault market e)) ∧ Wired D (w₁.emit (.vault market e)) := by
  have hk := kept_pay hp
  refine ⟨effect_vault hm step hk.vaults hk.factory hk.escrow ?_ ?_ ?_, ?_⟩
  · exact (((trace_setVault v).trans (trace_emitAll hq)).trans (trace_pay hp)).trans (trace_milestone he)
  · simpa using hf
  · rintro x hx
    cases hx
    exact .inl rfl
  · exact (Wired.pay ((hw.setVault v).emitAll es) (hw.market_ne hm).1 hp).emit _

theorem quiet_finalRemainder (market : Address) (pool : PoolId) (owner : Address) (units remainingUnits amount : Nat) :
    ∀ x ∈ finalRemainder market pool owner units remainingUnits amount, Quiet x := by
  intro x hx
  unfold finalRemainder at hx
  split at hx
  · rw [List.mem_singleton.mp hx]; exact ⟨rfl, rfl⟩
  · cases hx

theorem claimWinningsFor_effect (hw : Wired D w) (h : claimWinningsFor D w caller market owner = .ok w') :
    Effect D w w' ∧ Wired D w' := by
  simp only [claimWinningsFor, bind_eq_ok, requireMarket_eq_ok, Except.ok.injEq, Prod.exists] at h
  obtain ⟨_, hm, v, units, payout, hv, w₁, hp, rfl⟩ := h
  refine claim_effect hw hm (.claimWinningsFor caller owner v units payout hv) (fun x hx => ?_) hp rfl rfl
  rcases List.mem_append.mp hx with hx | hx
  · exact quiet_finalRemainder _ _ _ _ _ _ x hx
  · rw [List.mem_singleton.mp hx]; exact ⟨rfl, rfl⟩

theorem claimEarlyBirdFor_effect (hw : Wired D w) (h : claimEarlyBirdFor w caller market owner = .ok w') :
    Effect D w w' ∧ Wired D w' := by
  simp only [claimEarlyBirdFor, bind_eq_ok, requireMarket_eq_ok, Except.ok.injEq, Prod.exists] at h
  obtain ⟨_, hm, v, score, reward, hv, w₁, hp, rfl⟩ := h
  exact claim_effect hw hm (.claimEarlyBirdFor caller owner v score reward hv) (quiet_finalRemainder _ _ _ _ _ _) hp rfl
    rfl

theorem refundFor_effect (hw : Wired D w) (h : refundFor D w caller market owner = .ok w') :
    Effect D w w' ∧ Wired D w' := by
  simp only [refundFor, bind_eq_ok, requireMarket_eq_ok, Except.ok.injEq, Prod.exists] at h
  obtain ⟨_, hm, v, amount, hv, w₁, hp, rfl⟩ := h
  refine claim_effect hw hm (.refundFor caller owner v amount hv) (fun x hx => ?_) hp rfl rfl
  obtain ⟨_, _, rfl⟩ := List.mem_map.mp hx
  exact ⟨rfl, rfl⟩

theorem claimTimeoutBonusFor_effect (hw : Wired D w) (h : claimTimeoutBonusFor w caller market owner = .ok w') :
    Effect D w w' ∧ Wired D w' := by
  simp only [claimTimeoutBonusFor, bind_eq_ok, requireMarket_eq_ok, Except.ok.injEq, Prod.exists] at h
  obtain ⟨_, hm, v, units, reward, hv, w₁, hp, rfl⟩ := h
  exact claim_effect hw hm (.claimTimeoutBonusFor caller owner v units reward hv) (quiet_finalRemainder _ _ _ _ _ _) hp
    rfl rfl

/-! ## Shares -/

/-- A call that changes shares only. -/
theorem shares_effect {v : Vault} {es : List Event} (hw : Wired D w) (hm : w.factory.isMarket market = true)
    (step : VaultStep D market w.now (w.vaults market) v none none) (hq : ∀ x ∈ es, Quiet x) :
    Effect D w ((w.setVault market v).emitAll es) ∧ Wired D ((w.setVault market v).emitAll es) :=
  ⟨effect_vault hm step rfl rfl rfl ((trace_setVault v).trans (trace_emitAll hq)) rfl (by simp),
    (hw.setVault v).emitAll es⟩

theorem quiet_singleton {e : Event} (h : Quiet e) : ∀ x ∈ [e], Quiet x := by
  intro x hx
  rw [List.mem_singleton.mp hx]
  exact h

theorem burnLosingPosition_effect {outcomeId : Nat} (hw : Wired D w)
    (h : burnLosingPosition w caller market outcomeId = .ok w') : Effect D w w' ∧ Wired D w' := by
  simp only [burnLosingPosition, bind_eq_ok, requireMarket_eq_ok, Except.ok.injEq, Prod.exists] at h
  obtain ⟨_, hm, v, units, hv, rfl⟩ := h
  refine shares_effect hw hm (.burnLosingPosition caller outcomeId units v hv) fun x hx => ?_
  rcases List.mem_pair.mp hx with rfl | rfl <;> exact ⟨rfl, rfl⟩

theorem moveShares_effect {id value : Nat} (hw : Wired D w)
    (h : moveShares w caller market source target id value = .ok w') : Effect D w w' ∧ Wired D w' := by
  simp only [moveShares, bind_eq_ok, requireMarket_eq_ok, Except.ok.injEq] at h
  obtain ⟨_, hm, shares, hs, rfl⟩ := h
  exact shares_effect hw hm (.transfer source target shares (Shares.safeTransferFrom_eq_ok hs).2.1
    (Shares.safeTransferFrom_moved hs))
    (quiet_singleton ⟨rfl, rfl⟩)

theorem safeTransferFrom_effect {id value : Nat} {accepts : Bool} (hw : Wired D w)
    (h : safeTransferFrom D w caller market source target id value accepts = .ok w') :
    Effect D w w' ∧ Wired D w' := by
  simp only [safeTransferFrom, bind_eq_ok, Except.ok.injEq] at h
  obtain ⟨w₁, h₁, _, _, rfl⟩ := h
  exact moveShares_effect hw h₁

theorem safeBatchTransferFrom_effect {parts : List (Nat × Nat)} {accepts : Bool} (hw : Wired D w)
    (h : safeBatchTransferFrom D w caller market source target parts accepts = .ok w') :
    Effect D w w' ∧ Wired D w' := by
  simp only [safeBatchTransferFrom, bind_eq_ok, requireMarket_eq_ok, Except.ok.injEq] at h
  obtain ⟨_, hm, shares, hs, _, _, rfl⟩ := h
  obtain ⟨_, ht, hmoved⟩ := Shares.safeBatchTransferFrom_eq_ok hs
  exact shares_effect hw hm (.transfer source target shares ht hmoved) (quiet_singleton ⟨rfl, rfl⟩)

theorem setApprovalForAll_effect {operator : Address} {approved : Bool} (hw : Wired D w)
    (h : setApprovalForAll w caller market operator approved = .ok w') : Effect D w w' ∧ Wired D w' := by
  simp only [setApprovalForAll, bind_eq_ok, requireMarket_eq_ok, Except.ok.injEq] at h
  obtain ⟨_, hm, rfl⟩ := h
  exact shares_effect hw hm (.approval caller operator approved) (quiet_singleton ⟨rfl, rfl⟩)

/-! ## Bonds and fees -/

theorem fundTimeoutBonus_effect (w₀ : Core) {w₁ : Core} {amount : Nat} (hw : Wired D w₁)
    (h : fundTimeoutBonus w₁ D.bondEscrow market amount = .ok w') (hk : w₁.vaults = w₀.vaults ∧ w₁.now = w₀.now) :
    ∃ v previous current, w₁.factory.isMarket market = true ∧
      (w₀.vaults market).fundTimeoutBonus D.bondEscrow amount = .ok v ∧
      w'.vaults = Function.update w₀.vaults market v ∧ w'.factory = w₁.factory ∧ w'.escrow = w₁.escrow ∧
      Trace w₁ w' [(market, .TimeoutBonusFunded amount v.totalPrincipal previous current)] [] ∧ Wired D w' := by
  simp only [fundTimeoutBonus, bind_eq_ok, requireMarket_eq_ok, Except.ok.injEq, Prod.exists] at h
  obtain ⟨_, hm, v, hv, w₂, previous, current, hs, _, _, rfl⟩ := h
  obtain ⟨hk₂, ht₂⟩ := kept_sync hs
  rw [hk.1] at hv
  refine ⟨v, previous, current, hm, hv, ?_, hk₂.factory, hk₂.escrow, ?_, ((hw.setVault v).sync hs).emit _⟩
  · rw [← hk.1]
    exact hk₂.vaults
  · exact ((trace_setVault v).trans ht₂).trans (trace_milestone rfl)

theorem settleBond_effect (hw : Wired D w) (h : settleBond D w market = .ok w') : Effect D w w' ∧ Wired D w' := by
  simp only [settleBond, bind_eq_ok, revertIf_eq_ok, Prod.exists, Bool.not_eq_true] at h
  obtain ⟨_, hc, _, hs, _, ho, e, b, hu, h⟩ := h
  obtain ⟨_, rfl, _⟩ := Escrow.unlock_eq_ok.mp hu
  have hset : Trace w { w with escrow := e } [] [] := .of_same rfl rfl rfl
  split at h
  · rename_i hd
    simp only [bind_eq_ok, Except.ok.injEq] at h
    obtain ⟨w₁, hp, w₂, hf, rfl⟩ := h
    have hk := kept_pay hp
    have hw₁ := (hw.setEscrow e).pay D.bondEscrow_ne_feeVault hp
    obtain ⟨v, previous, current, hm, hv, hvaults, hfactory, hescrow, ht, hw₂⟩ :=
      fundTimeoutBonus_effect w hw₁ hf ⟨hk.vaults, hk.now⟩
    rw [hk.factory] at hm hfactory
    have hne := (hw.market_ne hm).2.1.symm
    refine ⟨.fund market v previous current hm hc hs (.fundTimeoutBonus v _ previous current hne hd.2 hv) hd hvaults
      hfactory ?_ ?_, hw₂.emit _⟩
    · show w.escrow.unlock market = .ok (w₂.escrow, w.escrow.bondOf market)
      rw [hescrow, hk.escrow]
      exact hu
    · exact ((hset.trans (trace_pay hp)).trans ht).trans (trace_emit ⟨rfl, rfl⟩)
  · rename_i hd
    cases h
    refine ⟨.credit market e rfl rfl hc hs ho hd hu rfl ?_, ((hw.setEscrow e).setEscrow _).emitAll _⟩
    have hset' : Trace w { w with escrow := e.credit (w.escrow.bondOf market).creator (w.escrow.bondOf market).amount }
        [] [] := .of_same rfl rfl rfl
    refine hset'.trans (trace_emitAll fun x hx => ?_)
    rcases List.mem_append.mp hx with hx | hx
    · split at hx
      · rw [List.mem_singleton.mp hx]; exact ⟨rfl, rfl⟩
      · cases hx
    · rw [List.mem_singleton.mp hx]; exact ⟨rfl, rfl⟩

theorem claimBondFor_effect {creator : Address} (hw : Wired D w) (h : claimBondFor D w caller creator = .ok w') :
    Effect D w w' ∧ Wired D w' := by
  simp only [claimBondFor, bind_eq_ok, Except.ok.injEq, Prod.exists] at h
  obtain ⟨credits, amount, hc, w₁, hp, rfl⟩ := h
  have hk := kept_pay hp
  have hset : Trace w { w with escrow := { w.escrow with credits := credits } } [] [] := .of_same rfl rfl rfl
  exact ⟨.claim creator credits amount hk.vaults hk.factory hc hk.escrow
      ((hset.trans (trace_pay hp)).trans (trace_emit ⟨rfl, rfl⟩)),
    (Wired.pay (hw.setEscrow _) D.bondEscrow_ne_feeVault hp).emit _⟩

theorem claimFeesFor_effect {beneficiary : Address} (hw : Wired D w)
    (h : claimFeesFor D w caller beneficiary = .ok w') : Effect D w w' ∧ Wired D w' := by
  simp only [claimFeesFor, bind_eq_ok, Except.ok.injEq, Prod.exists] at h
  obtain ⟨credits, amount, hc, w₁, hp, rfl⟩ := h
  have hk := kept_pay hp
  obtain ⟨_, _, hle, hcredits⟩ := Credits.claim_eq_ok hc
  have hset : Trace w { w with feeVault := { w.feeVault with credits := credits } } [] [] := .of_same rfl rfl rfl
  refine ⟨.other _ hk.vaults (by rw [show (w₁.emit _).factory = w₁.factory from rfl, hk.factory]) hk.escrow
    ((hset.trans (trace_pay hp)).trans (trace_emit ⟨rfl, rfl⟩)) fun a _ _ hne => ?_, ?_⟩
  · simp [Payment.sent, hne.symm]
  · obtain ⟨_, rfl⟩ := pay_eq_ok hp
    refine Wired.emit ?_ _
    refine { hw with feeCredits := ?_ }
    have hbal := move_cash w.token.balanceOf beneficiary (pay_eq_ok hp).1 D.feeVault
    have hcred := hw.feeCredits
    simp only [Payment.sent, if_true] at hbal
    simp only [hcredits]
    omega

/-! ## Markets -/

/-- What the factory checks of the parameters of a market. -/
structure ValidParams (p : CreateMarketParams) : Prop where
  marketCap : p.marketPrimaryCap ≤ HARD_MAX_FULL_MARKET_CAP
  userCap : p.perUserPrimaryCap ≤ p.marketPrimaryCap
  minimum : 0 < p.minimumPrimaryUnits
  bond : 0 < p.creatorBond

theorem validate_eq_ok {p : CreateMarketParams} {e : EconomicSnapshot} (hc : w.config.Bounded)
    (h : validate D w p = .ok e) : ValidParams p ∧ e.Bounded := by
  simp only [validate, validateMinimum, bind_eq_ok, revertIf_eq_ok, not_or, not_lt] at h
  obtain ⟨_, _, _, _, _, _, _, _, _, _, _, _, _, _, _, _, _, _, _, ⟨_, hcap⟩, _, ⟨_, _, huser⟩, _, ⟨hmin, _⟩, _, _, _,
    ⟨hbond, _⟩, he⟩ := h
  refine ⟨⟨hcap.trans ?_, huser, lt_of_lt_of_le (by decide) hmin, ?_⟩, Config.snapshot_bounds hc he⟩
  · split
    · exact hc.fullCap
    · exact hc.cloneCap.trans (by decide)
  · exact lt_of_lt_of_le (lt_of_lt_of_le (show 0 < MIN_CREATOR_BOND by decide) (le_max_left _ _)) hbond

theorem customFees_eq_ok {e e' : EconomicSnapshot} {fees : Option (Nat × Nat)} (he : e.Bounded)
    (h : customFees e fees = .ok e') : e'.Bounded := by
  cases fees with
  | none => cases h; exact he
  | some f =>
    simp only [customFees, bind_eq_ok, Config.atMost_eq_ok, Except.ok.injEq] at h
    obtain ⟨_, h₁, _, h₂, rfl⟩ := h
    exact { he with protocolShare := h₁, platformC2CFee := h₂ }

/-- A newly registered market is wired to the guard and the fee vault. -/
theorem registered_wired {v : Vault} {g : Guard} {f : FeeVault} (hw : Wired D w)
    (hnew : (D.outside market || D.fixed market || w.factory.isMarket market) = false)
    (hg : w.guard.registerMarket market = .ok g) (hf : w.feeVault.registerAccruer market = .ok f) :
    Wired D (registered w caller market v g f) := by
  simp only [Bool.or_eq_false_iff] at hnew
  simp only [Guard.registerMarket, FeeVault.registerAccruer, bind_eq_ok, revertIf_eq_ok, Except.ok.injEq] at hg hf
  obtain ⟨_, _, _, _, rfl⟩ := hg
  obtain ⟨_, _, rfl⟩ := hf
  have hcases : ∀ {P : Address → Bool} {m : Address}, Function.update P market true m = true ↔ m = market ∨
    P m = true := by
    intro P m
    rw [Function.update_apply]
    split
    · rename_i he; simp [he]
    · rename_i he; simp [he]
  refine { hw with
    market := ?_, registered := ?_, onlyMarkets := ?_, accruers := ?_, factoryAccrues := ?_, marketplaceAccrues := ?_ }
  · intro m hm
    rcases hcases.mp hm with rfl | hm
    · exact hnew.1
    · exact hw.market m hm
  · intro m hm
    exact hcases.mpr ((hcases.mp hm).imp id (hw.registered m))
  · intro m hm
    exact hcases.mpr ((hcases.mp hm).imp id (hw.onlyMarkets m))
  · intro m hm
    exact hcases.mpr ((hcases.mp hm).imp id (hw.accruers m))
  · exact hcases.mpr (.inr hw.factoryAccrues)
  · exact hcases.mpr (.inr hw.marketplaceAccrues)

theorem payCreationFee_effect (hw : Wired D w) (ho : D.outside caller = true)
    (h : payCreationFee D w caller market = .ok w') :
    ∃ ps, Kept w w' ∧ Wired D w' ∧ Trace w w' [] ps ∧ ∀ a, D.outside a = false → tally (Payment.sent a) ps = 0 := by
  unfold payCreationFee at h
  split at h
  · cases h
    exact ⟨[], ⟨rfl, rfl, rfl, rfl⟩, hw, .of_same rfl rfl rfl, fun _ _ => rfl⟩
  · simp only [bind_eq_ok] at h
    obtain ⟨w₁, h₁, h₂⟩ := h
    obtain ⟨hk, ht⟩ := kept_accrue h₂
    refine ⟨_, (kept_pullExact h₁).trans hk, (hw.pullExact h₁).accrue h₂, (trace_pullExact h₁).trans ht, fun a ha => ?_⟩
    have hne : caller ≠ a := by rintro rfl; rw [ho] at ha; cases ha
    simp [Payment.sent, hne]

theorem createMarket_effect {p : CreateMarketParams} {platformFees : Option (Nat × Nat)} (hw : Wired D w)
    (ho : D.outside caller = true) (h : createMarket D w caller p platformFees market = .ok w') :
    Effect D w w' ∧ Wired D w' := by
  simp only [createMarket, lockBond, bind_eq_ok, revertIf_eq_ok, Except.ok.injEq, Bool.not_eq_true] at h
  obtain ⟨_, _, _, _, _, _, e, he, e', he', _, _, _, hnew, v, hv, g, hg, f, hf, w₁, h₁, w₂,
    ⟨w₃, h₃, b, hb, rfl⟩, rfl⟩ := h
  have hval := validate_eq_ok hw.config he
  have hw₀ : Wired D (registered w caller market v g f) := registered_wired hw hnew hg hf
  have hset : Trace w (registered w caller market v g f) [] [] := .of_same rfl rfl rfl
  obtain ⟨ps, hk₁, hw₁, ht₁, hps⟩ := payCreationFee_effect (hw₀.emitAll _) ho h₁
  have hk := hk₁.trans (kept_pullExact h₃)
  have hescrow : w₃.escrow = w.escrow := hk.escrow
  rw [hescrow] at hb
  obtain ⟨_, _, _, hle, hb'⟩ := Escrow.lockBond_eq_ok hb
  have hlog : Trace (registered w caller market v g f) ((registered w caller market v g f).emitAll
      [.vault market (.MarketInitialized v.init), .vault market (.MarketMetadataUpdated p.terms),
        .MarketRegistered market,
        .AccruerRegistered market]) [] [] := trace_events rfl
  have hbond : Trace w₃ { w₃ with escrow := b } [] [] := .of_same rfl rfl rfl
  refine ⟨.create caller market p e' v b _ (Bool.or_eq_false_iff.mp hnew).2 ho (customFees_eq_ok hval.2 he') ⟨e, he⟩ hv
    hk.vaults ?_ ⟨_, hb⟩ rfl ?_ ((((((hset.trans hlog).trans ht₁).trans (trace_pullExact h₃)).trans hbond).trans
      (trace_emit ⟨rfl, rfl⟩)).trans (trace_emit ⟨rfl, rfl⟩)) fun a ha => ?_, ?_⟩
  · exact congrArg Factory.isMarket hk.factory
  · show b.totalLocked + b.credits.totalCredits ≤ w₃.token.balanceOf D.bondEscrow
    rw [hb']
    simp only
    omega
  · have hne : caller ≠ a := by rintro rfl; rw [ho] at ha; cases ha
    simp [hps a ha, Payment.sent, hne]
  · exact (((hw₁.pullExact h₃).setEscrow b).emit _).emit _

/-! ## All calls -/

/-- A call that only changes what neither vaults nor bonds depend on. -/
theorem other_effect {ps : List Payment} (hk : Kept w w') (ht : Trace w w' [] ps)
    (hu : ∀ a, D.outside a = false → tally (Payment.sent a) ps = 0) : Effect D w w' :=
  .other ps hk.vaults (congrArg Factory.isMarket hk.factory) hk.escrow ht fun a ha _ _ => hu a ha

/-- Every call has one of the effects and keeps the contracts wired. -/
theorem exec_effect {c : CoreCall} (hw : Wired D w)
    (hmin : ∀ m, w.factory.isMarket m = true → 0 < (w.vaults m).init.minimumPrimaryUnits)
    (h : exec D w caller c = .ok w') : Effect D w w' ∧ Wired D w' := by
  simp only [exec, bind_eq_ok, revertIf_eq_ok, Bool.not_eq_false] at h
  obtain ⟨_, ho, h⟩ := h
  have hunsent : ∀ {target : Address} {amount : Nat} (a : Address), D.outside a = false →
      tally (Payment.sent a) [⟨caller, target, amount⟩] = 0 := by
    intro target amount a ha
    have hne : caller ≠ a := by rintro rfl; rw [ho] at ha; cases ha
    simp [Payment.sent, hne]
  cases c with
  | createMarket params platformFees market => exact createMarket_effect hw ho h
  | updateBeforeFirstBuy market terms => exact updateBeforeFirstBuy_effect hw h
  | buy => exact buy_effect hw hmin h
  | buyWithPermit2 => exact buyWithPermit2_effect hw hmin h
  | resolve => exact resolve_effect hw h
  | creatorVoid => exact creatorVoid_effect hw h
  | voidAfterDeadline => exact voidAfterDeadline_effect hw h
  | claimWinningsFor => exact claimWinningsFor_effect hw h
  | claimEarlyBirdFor => exact claimEarlyBirdFor_effect hw h
  | refundFor => exact refundFor_effect hw h
  | claimTimeoutBonusFor => exact claimTimeoutBonusFor_effect hw h
  | burnLosingPosition => exact burnLosingPosition_effect hw h
  | safeTransferFrom => exact safeTransferFrom_effect hw h
  | safeBatchTransferFrom => exact safeBatchTransferFrom_effect hw h
  | setApprovalForAll => exact setApprovalForAll_effect hw h
  | settleBond => exact settleBond_effect hw h
  | claimBondFor => exact claimBondFor_effect hw h
  | claimFeesFor => exact claimFeesFor_effect hw h
  | accrue =>
    obtain ⟨hk, ht⟩ := kept_accrue h
    exact ⟨other_effect hk ht (fun _ _ => rfl), hw.accrue h⟩
  | sync =>
    simp only [bind_eq_ok, Except.ok.injEq, Prod.exists] at h
    obtain ⟨w₁, _, _, hs, rfl⟩ := h
    obtain ⟨hk, ht⟩ := kept_sync hs
    exact ⟨other_effect hk ht (fun _ _ => rfl), hw.sync hs⟩
  | raiseCap =>
    simp only [Guard.raiseCap, bind_eq_ok, revertIf_eq_ok, Except.ok.injEq] at h
    obtain ⟨_, _, g, ⟨_, _, rfl⟩, rfl⟩ := h
    exact ⟨other_effect ⟨rfl, rfl, rfl, rfl⟩ (.of_same rfl rfl rfl) (fun _ _ => rfl), hw.setGuard hw.balanced rfl⟩
  | retireForever =>
    simp only [Guard.retireForever, bind_eq_ok, revertIf_eq_ok, Except.ok.injEq] at h
    obtain ⟨_, _, g, ⟨_, _, rfl⟩, rfl⟩ := h
    exact ⟨other_effect ⟨rfl, rfl, rfl, rfl⟩ (.of_same rfl rfl rfl) (fun _ _ => rfl), hw.setGuard hw.balanced rfl⟩
  | updateConfig =>
    simp only [bind_eq_ok, Except.ok.injEq] at h
    obtain ⟨_, _, c, hc, rfl⟩ := h
    exact ⟨other_effect ⟨rfl, rfl, rfl, rfl⟩ (.of_same rfl rfl rfl) (fun _ _ => rfl),
      { hw with config := Config.update_bounded hw.config hc }⟩
  | setDeprecated =>
    simp only [bind_eq_ok, Except.ok.injEq] at h
    obtain ⟨_, _, rfl⟩ := h
    exact ⟨.other [] rfl rfl rfl (.of_same rfl rfl rfl) fun _ _ _ _ => rfl, { hw with }⟩
  | transferToken =>
    have hne : caller ≠ D.feeVault := by rintro rfl; rw [D.feeVault_inside] at ho; cases ho
    exact ⟨other_effect (kept_pay h) (trace_pay h) hunsent, hw.pay hne h⟩
  | transferTokenFrom source target amount =>
    refine ⟨other_effect (kept_payFrom h) (trace_payFrom h) (fun a ha => ?_), hw.payFrom h⟩
    by_cases hs : source = a
    · have hz := hw.allowance_zero (hs ▸ ha) h
      simp [Payment.sent, hz]
    · simp [Payment.sent, hs]
  | approveToken spender amount =>
    cases h
    refine ⟨other_effect ⟨rfl, rfl, rfl, rfl⟩ (.of_same rfl rfl rfl) (fun _ _ => rfl),
      { hw with insulated := fun a ha s => ?_ }⟩
    have hne : a ≠ caller := by rintro rfl; rw [ho] at ha; cases ha
    show update₂ w.token.allowance caller spender amount a s = 0
    rw [update₂_of_ne _ _ _ hne]
    exact hw.insulated a ha s
  | issueToken target amount =>
    cases h
    have hle : ∀ a, w.token.balanceOf a + Payment.received a ⟨0, target, amount⟩ ≤
        Function.update w.token.balanceOf target (w.token.balanceOf target + amount) a := by
      intro a
      by_cases ht : a = target
      · subst ht; simp [Payment.received]
      · simp [Payment.received, ht, Ne.symm ht]
    refine ⟨.other [⟨0, target, amount⟩] rfl rfl rfl ⟨rfl, ⟨[.Transfer 0 target amount], rfl, rfl, rfl⟩, fun a => ?_⟩
      fun a _ h0 _ => ?_, ?_⟩
    · simp only [tally_cons, tally_nil, Nat.add_zero]
      exact (hle a).trans (Nat.le_add_right _ _)
    · simp [Payment.sent, h0.symm]
    · exact hw.of_same rfl rfl rfl rfl rfl ((Nat.le_add_right _ _).trans (hle D.feeVault))
  | setRefusals => cases h; exact ⟨other_effect ⟨rfl, rfl, rfl, rfl⟩ (.of_same rfl rfl rfl) (fun _ _ => rfl),
      { hw with }⟩
  | setEmergency => cases h; exact ⟨other_effect ⟨rfl, rfl, rfl, rfl⟩ (.of_same rfl rfl rfl) (fun _ _ => rfl),
      { hw with }⟩

end

end Core

end Cpredict
