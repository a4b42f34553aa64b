import Cpredict.Lib.Tally
import Cpredict.Vault.Ledger

/-!
# The pools of a vault

What a vault owes moves between its pools and out to its users. A step changes the liabilities by what the vault
receives less what it pays (`VaultStep.conserves`), and the pools keep their own invariant `Pools`: no pool outlives the
units that share it, and the timeout bonus is shared by exactly the units that were refunded or still can be.
-/

namespace Cpredict

open Outcome Packing MulDiv ProRata Balances Finset

namespace Vault

/-- What the pools of a vault rely on. -/
structure Pools (v : Vault) : Prop where
  reason : v.voidReason ≠ .none ↔ v.marketState = .voided
  breakdown : v.marketState = .resolved → v.payoutBreakdown = v.calculatePayouts
  winner_empty : v.marketState = .resolved → v.remainingWinningUnits = 0 → v.remainingWinnerPool = 0
  early_empty : v.marketState = .resolved → v.remainingEarlyBirdScore = 0 → v.remainingEarlyBirdPool = 0
  not_timeout : v.voidReason ≠ .timeout → v.timeoutBonusFunded = false ∧ ∀ u, v.timeoutBonusUnits u = 0
  unfunded : v.timeoutBonusFunded = false → v.remainingTimeoutBonusPool = 0
  bonus_sum : v.voidReason = .timeout → ∑ u, v.timeoutBonusUnits u + v.remainingRefundPrincipal =
    if v.timeoutBonusFunded = true then v.remainingTimeoutBonusUnits else v.totalPrincipal
  bonus_empty : v.timeoutBonusFunded = true → v.remainingTimeoutBonusUnits = 0 → v.remainingTimeoutBonusPool = 0

/-! ## The split of the principal -/

section

variable {D : Deployment} {v v' : Vault} {now : Nat} {market buyer owner marketplace : Address}

theorem rake_le (v : Vault) (h : v.init.economics.Bounded) : 10 * v.calculatePayouts.totalRake ≤ v.totalPrincipal := by
  have hrate : v.init.economics.creatorRakeBps ≤ 1000 := h.creatorRake
  have hdiv : v.calculatePayouts.totalRake * BPS ≤ v.totalPrincipal * v.init.economics.creatorRakeBps :=
    mulDiv_mul_le _ _ _
  have hmul := Nat.mul_le_mul_left v.totalPrincipal hrate
  unfold BPS at hdiv
  omega

/-- The parts of the breakdown add up to the principal, and the winners get at least nine tenths of it. -/
theorem calculatePayouts_split (v : Vault) (h : v.init.economics.Bounded) :
    v.calculatePayouts.protocolFee + v.calculatePayouts.creatorFee + v.calculatePayouts.earlyBirdPool +
        v.calculatePayouts.winnerPool = v.totalPrincipal ∧
      9 * v.totalPrincipal ≤ 10 * v.calculatePayouts.winnerPool := by
  have hrake := rake_le v h
  have hprotocol : v.calculatePayouts.protocolFee ≤ v.calculatePayouts.totalRake :=
    mulDiv_le_left (h.protocolShare.trans (by decide))
  have hearly : v.calculatePayouts.earlyBirdPool ≤ v.calculatePayouts.totalRake - v.calculatePayouts.protocolFee := by
    simp only [calculatePayouts]
    split
    · exact mulDiv_le_left (h.earlyBirdShare.trans (by decide))
    · exact Nat.zero_le _
  have hcreator : v.calculatePayouts.creatorFee =
    v.calculatePayouts.totalRake - v.calculatePayouts.protocolFee - v.calculatePayouts.earlyBirdPool := rfl
  have hwinner : v.calculatePayouts.winnerPool = v.totalPrincipal - v.calculatePayouts.totalRake := rfl
  constructor <;> omega

/-- Without early-bird score there is no early-bird pool. -/
theorem earlyBirdPool_of_no_score (v : Vault) (h : v.totalEarlyBirdScore = 0) :
    v.calculatePayouts.earlyBirdPool = 0 := by
  simp [calculatePayouts, h]

/-! ## The invariant of the pools -/

theorem Pools.reason_none (hp : v.Pools) (h : v.marketState ≠ .voided) : v.voidReason = .none := by
  refine Decidable.byContradiction fun hn => ?_
  exact h (hp.reason.mp hn)

theorem Pools.void (hp : v.Pools) (ho : v.marketState = .open) {reason : VoidReason} (hr : reason ≠ .none) :
    (v.void reason).Pools := by
  have hnone := hp.reason_none (by rw [ho]; decide)
  obtain ⟨hf, hu⟩ := hp.not_timeout (by rw [hnone]; decide)
  refine ⟨?_, ?_, ?_, ?_, fun _ => ⟨hf, hu⟩, fun _ => hp.unfunded hf, fun _ => ?_, ?_⟩
  · exact ⟨fun _ => rfl, fun _ => hr⟩
  · intro h; cases h
  · intro h; cases h
  · intro h; cases h
  · simp [Vault.void, hf, hu, totalPrincipal]
  · simp [Vault.void, hf]

theorem Pools.resolved (hp : v.Pools) (ho : v.marketState = .open) {outcomeId : Nat}
    (hs : v.shares.totalSupply outcomeId ≠ 0) : (v.resolved outcomeId).Pools := by
  have hnone := hp.reason_none (by rw [ho]; decide)
  exact { hp with
    reason := ⟨fun he => absurd hnone he, fun he => by cases he⟩
    breakdown := fun _ => rfl
    winner_empty := fun _ hz => absurd hz hs
    early_empty := fun _ hz => earlyBirdPool_of_no_score v hz }

theorem Pools.refundFor (hp : v.Pools) {amount : Nat}
    (h : v.refundFor marketplace owner = .ok (v', amount)) : v'.Pools := by
  obtain ⟨hv, _, _, hle, _, _, rfl⟩ := refundFor_eq_ok h
  refine { hp with not_timeout := fun hr => ?_, bonus_sum := fun hr => ?_ }
  · replace hr : v.voidReason ≠ .timeout := hr
    obtain ⟨hf, hu⟩ := hp.not_timeout hr
    exact ⟨hf, fun u => by simp only [if_neg hr]; exact hu u⟩
  · replace hr : v.voidReason = .timeout := hr
    have hsum := hp.bonus_sum hr
    have := sum_update v.timeoutBonusUnits (mem_univ owner) (v.timeoutBonusUnits owner + amount)
    simp only [hr, if_true]
    simp only [totalPrincipal] at hsum ⊢
    omega

theorem Pools.claimTimeoutBonusFor (hp : v.Pools) {units reward : Nat}
    (h : v.claimTimeoutBonusFor owner = .ok (v', units, reward)) : v'.Pools := by
  obtain ⟨hf, rfl, _, hle, rfl, _, rfl⟩ := claimTimeoutBonusFor_eq_ok.mp h
  refine { hp with not_timeout := fun hr => ?_, unfunded := fun hn => ?_, bonus_sum := fun hr => ?_, bonus_empty := ?_ }
  · rw [(hp.not_timeout hr).1] at hf; cases hf
  · simp only [hf] at hn; cases hn
  · have hsum := hp.bonus_sum hr
    have := sum_update v.timeoutBonusUnits (mem_univ owner) 0
    simp only [hf, if_true] at hsum ⊢
    omega
  · intro _ hz
    exact rest_eq_zero hle hz

end

end Vault

/-! ## Steps -/

section

variable {D : Deployment} {market : Address} {now : Nat} {v v' : Vault} {e : Option VaultEvent} {p : Option Payment}

theorem VaultStep.pools (h : VaultStep D market now v v' e p) (hp : v.Pools) : v'.Pools := by
  cases h with
  | terms _ _ _ h =>
    obtain ⟨rfl, _, _, ho, _⟩ := Vault.updateBeforeFirstBuy_eq_ok h
    exact { hp with breakdown := fun he => absurd (ho.symm.trans he) (by decide) }
  | buy _ _ _ _ _ hb _ h =>
    obtain ⟨_, _, _, _, _, _, rfl⟩ := Vault.completeBuy_eq_ok.mp h
    have hnone := hp.reason_none (by rw [hb.isOpen]; decide)
    exact { hp with
      breakdown := fun he => absurd (hb.isOpen.symm.trans he) (by decide)
      bonus_sum := fun he => absurd (hnone.symm.trans he) (by decide) }
  | resolve _ _ _ _ _ h =>
    obtain ⟨_, ho, _, _, _, ⟨_, _, hn⟩ | ⟨hs, rfl, _⟩⟩ := Vault.resolve_eq_ok h
    · cases hn
    · exact hp.resolved ho hs
  | resolveEmpty _ _ _ _ h =>
    obtain ⟨_, ho, _, _, _, ⟨_, rfl, _⟩ | ⟨_, _, hn⟩⟩ := Vault.resolve_eq_ok h
    · exact hp.void ho (by decide)
    · cases hn
  | creatorVoid _ _ _ h =>
    obtain ⟨_, ho, _, rfl⟩ := Vault.creatorVoid_eq_ok.mp h
    exact hp.void ho (by decide)
  | voidAfterDeadline _ _ h =>
    obtain ⟨ho, _, rfl⟩ := Vault.voidAfterDeadline_eq_ok.mp h
    exact hp.void ho (by decide)
  | claimWinningsFor _ _ _ _ _ h =>
    obtain ⟨_, _, _, hle, rfl, _, _, rfl⟩ := Vault.claimWinningsFor_eq_ok h
    exact { hp with winner_empty := fun _ hz => rest_eq_zero hle hz }
  | claimEarlyBirdFor _ _ _ _ _ h =>
    obtain ⟨_, _, _, hle, rfl, rfl⟩ := Vault.claimEarlyBirdFor_eq_ok h
    exact { hp with early_empty := fun _ hz => rest_eq_zero hle hz }
  | refundFor _ _ _ _ h => exact hp.refundFor h
  | fundTimeoutBonus _ _ _ _ _ hz h =>
    obtain ⟨_, hv, hr, hf, _, rfl⟩ := Vault.fundTimeoutBonus_eq_ok.mp h
    have hsum := hp.bonus_sum hr
    rw [hf] at hsum
    exact { hp with
      not_timeout := fun hn => absurd hr hn
      unfunded := fun hn => by cases hn
      bonus_sum := fun _ => by simpa using hsum
      bonus_empty := fun _ he => absurd he hz }
  | claimTimeoutBonusFor _ _ _ _ _ h => exact hp.claimTimeoutBonusFor h
  | burnLosingPosition _ _ _ _ h =>
    obtain ⟨_, _, _, _, _, _, _, rfl⟩ := Vault.burnLosingPosition_eq_ok h
    exact { hp with }
  | transfer => exact { hp with }
  | approval => exact { hp with }

/-- The fees that `resolve` pays, if any. -/
theorem sent_fees (market feeVault : Address) (fees : Nat) :
    Tally.tally (Payment.sent market) (if fees = 0 then none else some (Payment.mk market feeVault fees)).toList =
      fees := by
  split
  · rename_i hz; rw [hz]; rfl
  · simp [Payment.sent]

/-- What a vault owes after a step and what it paid is what it owed before and what it received. -/
theorem VaultStep.conserves (h : VaultStep D market now v v' e p) (hc : v.Configured D) (hp : v.Pools) :
    v'.liabilities + Tally.tally (Payment.sent market) p.toList =
        v.liabilities + Tally.tally VaultEvent.income e.toList ∧
      Tally.tally VaultEvent.income e.toList ≤ Tally.tally (Payment.received market) p.toList := by
  have hvoid : ∀ reason, v.marketState = .open → (v.void reason).liabilities = v.liabilities := by
    intro reason ho
    have hnone := hp.reason_none (by rw [ho]; decide)
    have hpool := hp.unfunded (hp.not_timeout (by rw [hnone]; decide)).1
    simp [Vault.liabilities, Vault.void, ho, hpool]
  cases h with
  | terms _ _ _ h =>
    obtain ⟨rfl, _⟩ := Vault.updateBeforeFirstBuy_eq_ok h
    exact ⟨rfl, le_rfl⟩
  | buy _ _ _ _ _ hb hne h =>
    have hh := Vault.bought_halves h
    obtain ⟨_, _, _, _, _, _, hv'⟩ := Vault.completeBuy_eq_ok.mp h
    have hopen : v'.marketState = .open := by rw [hv']; exact hb.isOpen
    simp only [Vault.liabilities, hb.isOpen, hopen, hh.totalPrincipal]
    simp [Payment.sent, Payment.received, VaultEvent.income, hne]
  | resolve _ outcomeId _ _ _ h =>
    obtain ⟨_, ho, _, _, _, ⟨_, _, hn⟩ | ⟨_, rfl, hb⟩⟩ := Vault.resolve_eq_ok h
    · cases hn
    · cases hb
      obtain ⟨hsplit, _⟩ := v.calculatePayouts_split hc.economics
      have hliab : (v.resolved outcomeId).liabilities = v.calculatePayouts.winnerPool +
        v.calculatePayouts.earlyBirdPool := rfl
      have hopen : v.liabilities = v.totalPrincipal := by simp [Vault.liabilities, ho]
      rw [hliab, hopen, sent_fees]
      simp only [Option.toList, Tally.tally_cons, Tally.tally_nil, VaultEvent.income]
      omega
  | resolveEmpty _ _ _ _ h =>
    obtain ⟨_, ho, _, _, _, ⟨_, rfl, _⟩ | ⟨_, _, hn⟩⟩ := Vault.resolve_eq_ok h
    · simp [hvoid _ ho, VaultEvent.income]
    · cases hn
  | creatorVoid _ _ _ h =>
    obtain ⟨_, ho, _, rfl⟩ := Vault.creatorVoid_eq_ok.mp h
    simp [hvoid _ ho, VaultEvent.income]
  | voidAfterDeadline _ _ h =>
    obtain ⟨ho, _, rfl⟩ := Vault.voidAfterDeadline_eq_ok.mp h
    simp [hvoid _ ho, VaultEvent.income]
  | claimWinningsFor _ _ _ _ _ h =>
    obtain ⟨hr, _, _, hle, rfl, _, _, rfl⟩ := Vault.claimWinningsFor_eq_ok h
    have := share_le v.remainingWinnerPool hle
    simp [Vault.liabilities, hr, VaultEvent.income, Payment.sent]
    omega
  | claimEarlyBirdFor _ _ _ _ _ h =>
    obtain ⟨hr, _, _, hle, rfl, rfl⟩ := Vault.claimEarlyBirdFor_eq_ok h
    have := share_le v.remainingEarlyBirdPool hle
    simp [Vault.liabilities, hr, VaultEvent.income, Payment.sent]
    omega
  | refundFor _ _ _ _ h =>
    obtain ⟨hv, _, _, hle, _, _, rfl⟩ := Vault.refundFor_eq_ok h
    simp [Vault.liabilities, hv, VaultEvent.income, Payment.sent]
    omega
  | fundTimeoutBonus _ _ _ _ hne _ h =>
    obtain ⟨_, hv, _, hf, _, rfl⟩ := Vault.fundTimeoutBonus_eq_ok.mp h
    simp [Vault.liabilities, hv, VaultEvent.income, Payment.sent, Payment.received, hne, hp.unfunded hf]
  | claimTimeoutBonusFor _ _ _ _ _ h =>
    obtain ⟨hf, _, _, _, _, hle, rfl⟩ := Vault.claimTimeoutBonusFor_eq_ok.mp h
    have hv : v.marketState = .voided := by
      refine hp.reason.mp fun hn => ?_
      rw [(hp.not_timeout (by rw [hn]; decide)).1] at hf
      cases hf
    simp [Vault.liabilities, hv, VaultEvent.income, Payment.sent]
    omega
  | burnLosingPosition _ _ _ _ h =>
    obtain ⟨_, _, _, _, _, _, _, rfl⟩ := Vault.burnLosingPosition_eq_ok h
    exact ⟨rfl, le_rfl⟩
  | transfer => exact ⟨rfl, le_rfl⟩
  | approval => exact ⟨rfl, le_rfl⟩

end

end Cpredict
