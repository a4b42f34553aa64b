import Cpredict.Core.Accounting
import Cpredict.Protocol.Marketplaces

/-!
# The fee vault and the exposure guard over runs of the protocol

The states of the core that runs reach, alone or under one of the marketplaces (`Arises`), are all in order. So the fee
vault owes each beneficiary what was accrued and not yet paid and can always pay it (`fee_ledger`), and until it is
retired the exposure guard bounds what all markets owe together (`exposure_guarded`).
-/

namespace Cpredict

open Outcome Balances Tally Finset

/-- A state of the core that a run of the protocol reaches, alone or with one of the marketplaces. -/
inductive Core.Arises (D : Deployment) (w : Core) : Prop
  | core (h : Core.Reachable D w)
  | orderbook (q : Prop) (W : World) (h : World.Reachable D q W) (same : W.core = w)
  | fixedPrice (W : FixedPrice.State) (h : FixedPrice.State.Reachable D W) (same : W.core = w)

/-- Whether a call buys from a market. -/
def CoreCall.isPurchase : CoreCall → Bool
  | .buy .. => true
  | .buyWithPermit2 .. => true
  | _ => false

namespace Core

section

variable {D : Deployment} {S : Set Address} {w w₁ w' : Core} {caller market : Address}

theorem Arises.inOrder (h : Arises D w) : InOrder D ∅ w := by
  cases h with
  | core h => exact InOrder.forget ⟨Reachable.sound h, Reachable.booked h, Reachable.ledgered h⟩
  | orderbook q W h same => exact same ▸ (World.Reachable.inOrder h).forget
  | fixedPrice W h same => exact same ▸ (FixedPrice.State.Reachable.inOrder h).forget

/-! ## The fee vault -/

/-- The fee vault pays a credit whole, unless the token refuses the transfer. -/
theorem claimFeesFor_ends {b : Address} (h : InOrder D S w) (hc : w.feeVault.credits.creditOf b ≠ 0) :
    Ends (claimFeesFor D w caller b)
      (fun w' => drawnBy D b w'.log = accruedTo b w.log ∧ w'.feeVault.credits.creditOf b = 0)
      (Refused w D.feeVault b (w.feeVault.credits.creditOf b)) := by
  have hle : w.feeVault.credits.creditOf b ≤ w.feeVault.credits.totalCredits := by
    rw [h.booked.credits]
    exact le_sum w.feeVault.credits.creditOf (mem_univ b)
  have hclaim : w.feeVault.credits.claim b = .ok (⟨Function.update w.feeVault.credits.creditOf b 0,
      w.feeVault.credits.totalCredits - w.feeVault.credits.creditOf b⟩, w.feeVault.credits.creditOf b) := by
    unfold Credits.claim
    simp only [revertIf_neg _ hc, ok_bind, checkedSub_of_le _ hle]
  unfold claimFeesFor
  rw [hclaim, ok_bind]
  refine Ends.bind (pay_ends (hle.trans h.sound.wired.feeCredits)) fun w₁ hp _ => Ends.ok ?_
  obtain ⟨_, rfl⟩ := pay_eq_ok hp
  have hacc := h.booked.accrued b
  refine ⟨?_, by simp [emit]⟩
  simp only [emit, drawnBy_append, drawnBy_one, Event.drawnBy, and_self, if_true]
  omega

/-- What has just been paid in can be accrued, in two parts. -/
theorem deposit_accrues {source sender first second : Address} {amount rest : Nat} (kind kind' : FeeKind)
    (ref ref' : FeeReference) (h : InOrder D S w) (ha : w.feeVault.authorizedAccruer sender = true)
    (hs : source ≠ D.feeVault) (h₁ : first ≠ 0) (h₂ : second ≠ 0)
    (hp : w.pay source D.feeVault (amount + rest) = .ok w₁) :
    ∃ w₂ w₃, w₁.accrue D sender first amount kind ref = .ok w₂ ∧
      w₂.accrue D sender second rest kind' ref' = .ok w₃ := by
  obtain ⟨_, hw₁⟩ := pay_eq_ok hp
  obtain ⟨w₂, w₃, hw₂, hw₃, _⟩ := accrue_paid (D := D) w₁ kind kind' ref ref' h.sound.wired ha h₁ h₂
    (by rw [hw₁]) (by rw [hw₁]; exact move_to _ _ hs)
  exact ⟨w₂, w₃, hw₂, hw₃⟩

/-- The ledger of the fee vault, whatever runs of the core and of the marketplaces do: its credits add up and are
covered, each beneficiary's is what was accrued less what the vault has paid, every credit can be claimed whole unless
the token refuses, and every contract that accrues can accrue what it has just paid in. -/
theorem fee_ledger (h : Arises D w) :
    (w.feeVault.credits.Balanced ∧ w.feeVault.credits.totalCredits ≤ w.token.balanceOf D.feeVault) ∧
      (∀ b, accruedTo b w.log = drawnBy D b w.log + w.feeVault.credits.creditOf b) ∧
      (∀ caller b, w.feeVault.credits.creditOf b ≠ 0 → Ends (claimFeesFor D w caller b)
        (fun w' => drawnBy D b w'.log = accruedTo b w.log ∧ w'.feeVault.credits.creditOf b = 0)
        (Refused w D.feeVault b (w.feeVault.credits.creditOf b))) ∧
      ∀ sender, (w.factory.isMarket sender = true ∨ sender = D.factory ∨ sender = D.marketplace) →
        ∀ source first second amount rest kind kind' ref ref' w₁, source ≠ D.feeVault → first ≠ 0 → second ≠ 0 →
          w.pay source D.feeVault (amount + rest) = .ok w₁ →
          ∃ w₂ w₃, w₁.accrue D sender first amount kind ref = .ok w₂ ∧
            w₂.accrue D sender second rest kind' ref' = .ok w₃ := by
  have ho := h.inOrder
  have hw := ho.sound.wired
  refine ⟨⟨ho.booked.credits, hw.feeCredits⟩, ho.booked.accrued, fun caller b hc => claimFeesFor_ends ho hc, ?_⟩
  intro sender hsender source first second amount rest kind kind' ref ref' w₁ hs h₁ h₂ hp
  refine deposit_accrues kind kind' ref ref' ho ?_ hs h₁ h₂ hp
  rcases hsender with hm | rfl | rfl
  · exact hw.accruers sender hm
  · exact hw.factoryAccrues
  · exact hw.marketplaceAccrues

/-! ## The exposure guard -/

/-- A reservation stays within the cap. -/
theorem reserve_capped {g g' : Guard} {sender : Address} {amount : Nat} (h : g.reserve sender amount = .ok g')
    (hz : amount ≠ 0) (hr : g.retired = false) : g'.totalReportedExposure ≤ g'.exposureCap ∧ g'.retired = false := by
  simp only [Guard.reserve, bind_eq_ok, revertIf_eq_ok, hr, Bool.false_eq_true, if_false, Except.ok.injEq, not_lt] at h
  obtain ⟨_, _, _, hle, rfl⟩ := h
  refine ⟨?_, rfl⟩
  simp only
  split at hle <;> omega

/-- Every purchase is reserved with the guard. -/
theorem purchase_capped {c : CoreCall} (h : Sound D w) (hx : exec D w caller c = .ok w') (hp : c.isPurchase = true)
    (hr : w.guard.retired = false) : w'.guard.totalReportedExposure ≤ w'.guard.exposureCap ∧
      w'.guard.retired = false := by
  have hcomplete : ∀ {w₁ : Core} {spender buyer market : Address} {outcomeId desiredUnits filledUnits :
    Nat} {accepts : Bool},
      w.factory.isMarket market = true → (w.vaults market).Buyable w.now buyer outcomeId filledUnits →
      w.pullExact spender buyer market filledUnits = .ok w₁ →
      completeBuy D w₁ caller market buyer outcomeId desiredUnits filledUnits accepts = .ok w' →
      w'.guard.totalReportedExposure ≤ w'.guard.exposureCap ∧ w'.guard.retired = false := by
    intro w₁ spender buyer market outcomeId desiredUnits filledUnits accepts hm hb hpull hbuy
    have hz : filledUnits ≠ 0 := by have := h.minimum market hm; have := hb.minimum; omega
    obtain ⟨_, _, rfl⟩ := payFrom_eq_ok (pullExact_eq_ok hpull).1
    simp only [completeBuy, bind_eq_ok, Except.ok.injEq] at hbuy
    obtain ⟨g, hg, v, _, _, _, rfl⟩ := hbuy
    exact reserve_capped hg hz hr
  simp only [exec, bind_eq_ok] at hx
  obtain ⟨_, _, hx⟩ := hx
  cases c with
  | buy =>
    simp only [buy, bind_eq_ok, requireMarket_eq_ok] at hx
    obtain ⟨_, hm, _, hf, w₁, hpull, hx⟩ := hx
    exact hcomplete hm (Vault.prepareBuy_eq_ok hf) hpull hx
  | buyWithPermit2 =>
    simp only [buyWithPermit2, bind_eq_ok, requireMarket_eq_ok] at hx
    obtain ⟨_, hm, _, _, _, _, _, hf, _, _, _, _, w₁, hpull, hx⟩ := hx
    exact hcomplete hm (Vault.prepareBuy_eq_ok hf) hpull hx
  | _ => cases hp

/-- A report of a market replaces the one before. -/
theorem sync_reports (h : InOrder D S w) (hm : w.factory.isMarket market = true) :
    ∃ w' previous current, w.sync market = .ok (w', previous, current) ∧
      (w.guard.retired = false → w'.guard.reportedExposure market = (w.vaults market).guardExposure) := by
  obtain ⟨g, previous, current, hg⟩ := Guard.sync_succeeds h.sound.wired.balanced (h.sound.wired.registered market hm)
    (w.vaults market).guardExposure
  have hrep : w.guard.retired = false → g.reportedExposure market = (w.vaults market).guardExposure := by
    intro hr
    simp only [Guard.sync, bind_eq_ok, hr, Bool.false_eq_true, if_false, Except.ok.injEq, Prod.mk.injEq] at hg
    obtain ⟨_, _, _, _, rfl, _⟩ := hg
    exact Function.update_self _ _ _
  unfold sync
  rw [hg, ok_bind]
  refine ⟨_, previous, current, rfl, fun hr => ?_⟩
  rw [← hrep hr]
  split <;> rfl

/-- What all markets owe together is within what the guard has been told. -/
theorem exposures_le (h : InOrder D S w) (hr : w.guard.retired = false) :
    ∑ m, (w.vaults m).guardExposure ≤ w.guard.totalReportedExposure := by
  rw [h.sound.wired.balanced]
  exact sum_le_sum fun m _ => h.booked.reported hr m

/-- The exposure guard, whatever runs of the core and of the marketplaces do: its total is the sum of its reports, every
market can be reported anew at any time, and until it is retired no market owes more than its report and after every
purchase all markets together owe no more than the cap. -/
theorem exposure_guarded (h : Arises D w) :
    w.guard.Balanced ∧
      (∀ m, w.factory.isMarket m = true → ∃ w' previous current, w.sync m = .ok (w', previous, current) ∧
        (w.guard.retired = false → w'.guard.reportedExposure m = (w.vaults m).guardExposure)) ∧
      (w.guard.retired = false → (∀ m, (w.vaults m).guardExposure ≤ w.guard.reportedExposure m) ∧
        ∑ m, (w.vaults m).guardExposure ≤ w.guard.totalReportedExposure ∧
        ∀ caller c w', exec D w caller c = .ok w' → c.isPurchase = true →
          ∑ m, (w'.vaults m).guardExposure ≤ w'.guard.exposureCap) := by
  have ho := h.inOrder
  refine ⟨ho.sound.wired.balanced, fun m hm => sync_reports ho hm, fun hr =>
    ⟨ho.booked.reported hr, exposures_le ho hr, ?_⟩⟩
  intro caller c w' hx hp
  obtain ⟨hcap, hr'⟩ := purchase_capped ho.sound hx hp hr
  exact (exposures_le (ho.exec (Set.notMem_empty caller) hx) hr').trans hcap

end

end Core

/-- The sample market after its resolution: the treasury can claim what was accrued for it. -/
theorem fee_ledger_sample :
    accruedTo (addr 200) (Sample.played Sample.resolution).log = 80000 ∧
      Ends (Core.claimFeesFor Sample.deployment (Sample.played Sample.resolution) Sample.bob (addr 200))
        (fun w' => drawnBy Sample.deployment (addr 200) w'.log =
            accruedTo (addr 200) (Sample.played Sample.resolution).log ∧ w'.feeVault.credits.creditOf (addr 200) = 0)
        (Core.Refused (Sample.played Sample.resolution) Sample.deployment.feeVault (addr 200)
          ((Sample.played Sample.resolution).feeVault.credits.creditOf (addr 200))) := by
  obtain ⟨_, _, hclaim, _⟩ := Core.fee_ledger (.core (Sample.played_reachable Sample.resolution))
  exact ⟨by decide +kernel, hclaim Sample.bob (addr 200) (by decide +kernel)⟩

/-- The sample market after its purchases: it owes what it has reported. -/
theorem exposure_guarded_sample :
    ((Sample.played Sample.purchases).vaults Sample.market).guardExposure = 4000000 ∧
      ((Sample.played Sample.purchases).vaults Sample.market).guardExposure ≤
        (Sample.played Sample.purchases).guard.reportedExposure Sample.market := by
  obtain ⟨_, _, hbound⟩ := Core.exposure_guarded (.core (Sample.played_reachable Sample.purchases))
  exact ⟨by decide +kernel, (hbound (by decide +kernel)).1 Sample.market⟩

end Cpredict
