import Cpredict.Core.Lifecycle

/-!
# The timeout bonus

The bond of a market that nobody resolved in time is shared by the units refunded. At every moment the bonus is divided
by exactly the units that were refunded and have not claimed it, and those that still can be refunded
(`timeout_bonus`), so in the end the whole bond has gone to refunded holders.
-/

namespace Cpredict

open Outcome Tally Finset

namespace Core

variable {D : Deployment} {w : Core} {m : Address}

/-- When all principal is refunded and all bonuses are claimed, the bonus pool is empty. -/
theorem bonus_exhausted {v : Vault} (hp : v.Pools) (hf : v.timeoutBonusFunded = true)
    (hr : v.voidReason = .timeout) (h₀ : v.remainingRefundPrincipal = 0) (hu : ∀ u, v.timeoutBonusUnits u = 0) :
    v.remainingTimeoutBonusPool = 0 := by
  have hsum := hp.bonus_sum hr
  rw [if_pos hf, h₀, sum_eq_zero fun u _ => hu u] at hsum
  exact hp.bonus_empty hf hsum.symm

/-- In every reachable state of a market voided by timeout: the divisor of the bonus is exact before and after the
funding, no refunded unit earns the bonus twice, a claim with units is paid, and once everything is refunded and
claimed the whole bond of the creator has been paid out as the bonus. -/
theorem timeout_bonus (hr : Reachable D w) (hm : w.factory.isMarket m = true)
    (ht : (w.vaults m).voidReason = .timeout) :
    ((w.vaults m).timeoutBonusFunded = false →
        ∑ u, (w.vaults m).timeoutBonusUnits u + (w.vaults m).remainingRefundPrincipal = (w.vaults m).totalPrincipal) ∧
      ((w.vaults m).timeoutBonusFunded = true →
        ∑ u, (w.vaults m).timeoutBonusUnits u + (w.vaults m).remainingRefundPrincipal =
          (w.vaults m).remainingTimeoutBonusUnits) ∧
      (∀ caller owner, (w.vaults m).timeoutBonusFunded = true → (w.vaults m).timeoutBonusUnits owner ≠ 0 →
        (∃ v' reward, (w.vaults m).claimTimeoutBonusFor owner =
          .ok (v', (w.vaults m).timeoutBonusUnits owner, reward)) ∧
        Paid w m owner (ProRata.share ((w.vaults m).timeoutBonusUnits owner) (w.vaults m).remainingTimeoutBonusUnits
          (w.vaults m).remainingTimeoutBonusPool) (claimTimeoutBonusFor w caller m owner)) ∧
      (∀ u, total (VaultEvent.refundedUnits u) (milestones m w.log) =
        (w.vaults m).timeoutBonusUnits u + total (VaultEvent.bonusUnits u) (milestones m w.log)) ∧
      ((w.vaults m).timeoutBonusFunded = true → (w.vaults m).remainingRefundPrincipal = 0 →
        (∀ u, (w.vaults m).timeoutBonusUnits u = 0) →
        total VaultEvent.bonusPaid (milestones m w.log) = (w.vaults m).init.creatorBond ∧
          paidBy m w.log = (w.vaults m).totalPrincipal + (w.vaults m).init.creatorBond) := by
  have h := Reachable.sound hr
  obtain ⟨hmkt, hbond⟩ := h.markets m hm
  have hsum := hmkt.pools.bonus_sum ht
  refine ⟨fun hf => ?_, fun hf => ?_, fun caller owner hf hu => ⟨?_, ?_⟩, hmkt.history.bonus, fun hf h₀ hu => ?_⟩
  · rwa [if_neg (by rw [hf]; decide)] at hsum
  · rwa [if_pos hf] at hsum
  · obtain ⟨v', hv'⟩ := Vault.claimTimeoutBonusFor_succeeds hmkt.pools hf hu
    exact ⟨v', _, hv'⟩
  · exact (claims_payable h hm).timeoutBonus caller owner hf hu
  · have hpool := bonus_exhausted hmkt.pools hf ht h₀ hu
    have hinj := hbond.injected
    rw [if_pos hf] at hinj
    have hpaid := hmkt.history.pool
    have hcons := hmkt.conserved
    have hincome := hmkt.history.income
    have hvoid : (w.vaults m).marketState = .voided := hmkt.pools.reason.mp (by rw [ht]; decide)
    simp only [Vault.liabilities, hvoid, h₀, hpool] at hcons
    refine ⟨?_, ?_⟩
    · omega
    · omega

end Core

/-- The sample market after its timeout: one buyer has been refunded before the funding, the other has not. -/
theorem timeout_bonus_sample :
    (∑ u, ((Sample.played Sample.timeout).vaults Sample.market).timeoutBonusUnits u +
        ((Sample.played Sample.timeout).vaults Sample.market).remainingRefundPrincipal =
          ((Sample.played Sample.timeout).vaults Sample.market).remainingTimeoutBonusUnits) ∧
      ((Sample.played Sample.timeout).vaults Sample.market).remainingRefundPrincipal = 1000000 ∧
      ((Sample.played Sample.timeout).vaults Sample.market).remainingTimeoutBonusUnits = 4000000 :=
  ⟨(Core.timeout_bonus (Sample.played_reachable _) (by decide +kernel) (by decide +kernel)).2.1 (by decide +kernel),
    by decide +kernel, by decide +kernel⟩

end Cpredict
