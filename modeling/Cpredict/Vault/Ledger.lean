import Cpredict.Core.Config
import Cpredict.Vault.Step

/-!
# The accounts of a vault

`Configured` collects what the factory guarantees of a vault's parameters, and `Ledger` relates the aggregate counters
to the sums over buyers, holders and outcomes that they stand for. Every step keeps both (`VaultStep.configured`,
`VaultStep.ledger`), and under them a purchase never fails for want of space in a packed word (`completeBuy_fits`).
-/

namespace Cpredict

open Outcome Packing MulDiv ProRata Balances Finset

namespace Vault

/-- What holds of the parameters of a vault that the factory has set up. -/
structure Configured (D : Deployment) (v : Vault) : Prop where
  initialized : v.initialized = true
  bondEscrow : v.init.bondEscrow = D.bondEscrow
  creator_outside : D.outside v.init.creator = true
  outcomes_ge : 2 ≤ v.init.outcomeCount
  outcomes_le : v.init.outcomeCount ≤ 32
  marketCap : v.init.marketPrimaryCap ≤ HARD_MAX_FULL_MARKET_CAP
  userCap : v.init.perUserPrimaryCap ≤ v.init.marketPrimaryCap
  minimum : 0 < v.init.minimumPrimaryUnits
  bond : 0 < v.init.creatorBond
  economics : v.init.economics.Bounded
  treasury : v.terms.creatorTreasury ≠ 0
  times : ValidTimes v.init.createdAt v.terms

/-- The score that the early-bird claims divide by. -/
def currentScore (v : Vault) : Nat :=
  match v.marketState with
  | .resolved => v.remainingEarlyBirdScore
  | _ => v.totalEarlyBirdScore

/-- The counter of each state that the supplies add up to. -/
def SupplyMatches (v : Vault) : Prop :=
  match v.marketState with
  | .open => ∀ o, v.shares.totalSupply o = v.principalByOutcome o
  | .resolved => v.winningOutcome < v.init.outcomeCount ∧
      v.shares.totalSupply v.winningOutcome = v.remainingWinningUnits
  | .voided => ∑ o ∈ range v.init.outcomeCount, v.shares.totalSupply o = v.remainingRefundPrincipal

/-- The counters of a vault are the sums they stand for, within the caps. -/
structure Ledger (v : Vault) : Prop where
  principal_le_cap : v.totalPrincipal ≤ v.init.marketPrimaryCap
  bought_le_cap : ∀ u, v.cumulativePrimaryBought u ≤ v.init.perUserPrimaryCap
  bought_sum : ∑ u, v.cumulativePrimaryBought u = v.totalPrincipal
  outcome_sum : ∑ o ∈ range v.init.outcomeCount, v.principalByOutcome o = v.totalPrincipal
  outcome_none : ∀ o, v.init.outcomeCount ≤ o → v.principalByOutcome o = 0
  score_le : v.totalEarlyBirdScore ≤ 3 * v.totalPrincipal
  score_sum : ∑ u, v.earlyBirdScore u = v.currentScore
  current_le : v.currentScore ≤ v.totalEarlyBirdScore
  backed : v.shares.Backed
  supply_none : ∀ o, v.init.outcomeCount ≤ o → v.shares.totalSupply o = 0
  supply : v.SupplyMatches
  noZero : ∀ o, v.shares.balanceOf o 0 = 0

/-! ## Purchases -/

section

variable {D : Deployment} {v v' : Vault} {now : Nat} {market buyer owner : Address}

/-- No purchase overflows a half of a packed word. -/
theorem completeBuy_fits {outcomeId filledUnits : Nat} (hc : v.Configured D) (hl : v.Ledger)
    (hb : v.Buyable now buyer outcomeId filledUnits) :
    v.totalPrincipal + filledUnits < 2 ^ 128 ∧ v.totalEarlyBirdScore + v.scoreOf now filledUnits < 2 ^ 128 ∧
      v.cumulativePrimaryBought buyer + filledUnits < 2 ^ 128 ∧
      v.earlyBirdScore buyer + v.scoreOf now filledUnits < 2 ^ 128 := by
  have hcap : v.totalPrincipal + filledUnits ≤ 5000000000 := hb.marketCap.trans hc.marketCap
  have huser : v.cumulativePrimaryBought buyer + filledUnits ≤ 5000000000 :=
    (hb.userCap.trans hc.userCap).trans hc.marketCap
  have hscore : v.scoreOf now filledUnits ≤ filledUnits * 3 := Nat.mul_le_mul_left _ (v.earlyBirdWeight_le now)
  have htotal := hl.score_le
  have hone : v.earlyBirdScore buyer ≤ v.totalEarlyBirdScore :=
    (le_sum v.earlyBirdScore (mem_univ buyer)).trans (hl.score_sum ▸ hl.current_le)
  have hbig : 3 * 5000000000 < 2 ^ 128 := by norm_num
  exact ⟨by omega, by omega, by omega, by omega⟩

theorem Ledger.buy {outcomeId filledUnits : Nat} (hl : v.Ledger) (hb : v.Buyable now buyer outcomeId filledUnits)
    (h : v.completeBuy now buyer outcomeId filledUnits = .ok v') : v'.Ledger := by
  have hh := bought_halves h
  obtain ⟨_, _, _, _, shares, hm, rfl⟩ := completeBuy_eq_ok.mp h
  obtain ⟨hne0, hbal, hs, _⟩ := Shares.mint_eq_ok hm
  have hscore : v.scoreOf now filledUnits ≤ filledUnits * 3 := Nat.mul_le_mul_left _ (v.earlyBirdWeight_le now)
  have hopen : (v.bought now buyer outcomeId filledUnits shares).marketState = .open := hb.isOpen
  have hcur : v.currentScore = v.totalEarlyBirdScore := by simp [currentScore, hb.isOpen]
  have hcur' : (v.bought now buyer outcomeId filledUnits shares).currentScore =
      (v.bought now buyer outcomeId filledUnits shares).totalEarlyBirdScore := by simp [currentScore, hopen]
  refine ⟨?_, fun u => ?_, ?_, ?_, fun o ho => ?_, ?_, ?_, hcur'.le, hl.backed.mint hm, fun o ho => ?_, ?_, fun o => ?_⟩
  · rw [hh.totalPrincipal]; exact hb.marketCap
  · rw [hh.cumulativePrimaryBought, Function.update_apply]
    split
    · exact hb.userCap
    · exact hl.bought_le_cap u
  · have := sum_update v.cumulativePrimaryBought (mem_univ buyer) (v.cumulativePrimaryBought buyer + filledUnits)
    have := hl.bought_sum
    rw [hh.cumulativePrimaryBought, hh.totalPrincipal]
    omega
  · have := sum_update v.principalByOutcome (mem_range.mpr hb.outcome) (v.principalByOutcome outcomeId + filledUnits)
    have := hl.outcome_sum
    rw [hh.totalPrincipal]
    simp only [bought]
    omega
  · have hne : o ≠ outcomeId := by have := hb.outcome; simp only [bought] at ho; omega
    simp only [bought, Function.update_of_ne hne]
    exact hl.outcome_none o ho
  · have := hl.score_le
    rw [hh.totalPrincipal, hh.totalEarlyBirdScore]
    omega
  · have := sum_update v.earlyBirdScore (mem_univ buyer) (v.earlyBirdScore buyer + v.scoreOf now filledUnits)
    have := hl.score_sum
    rw [hcur', hh.earlyBirdScore, hh.totalEarlyBirdScore]
    omega
  · have hne : o ≠ outcomeId := by have := hb.outcome; simp only [bought] at ho; omega
    simp only [bought, hs, Function.update_of_ne hne]
    exact hl.supply_none o ho
  · have hsup := hl.supply
    simp only [SupplyMatches, hb.isOpen] at hsup
    simp only [SupplyMatches, hopen]
    intro o
    simp only [bought, hs, Function.update_apply, hsup]
  · show shares.balanceOf o 0 = 0
    rw [hbal, update₂_other_holder _ _ hne0.symm]
    exact hl.noZero o

/-! ## The terminal transitions -/

theorem Ledger.void (hl : v.Ledger) (ho : v.marketState = .open) (reason : VoidReason) : (v.void reason).Ledger := by
  have hsup := hl.supply
  simp only [SupplyMatches, ho] at hsup
  have hcur : v.currentScore = v.totalEarlyBirdScore := by simp [currentScore, ho]
  refine { hl with score_sum := ?_, current_le := le_rfl, supply := ?_ }
  · exact hl.score_sum.trans hcur
  · show ∑ o ∈ range v.init.outcomeCount, v.shares.totalSupply o = v.totalPrincipal
    rw [← hl.outcome_sum]
    exact sum_same fun o _ => hsup o

theorem Ledger.resolved (hl : v.Ledger) (ho : v.marketState = .open) {outcomeId : Nat}
    (hn : outcomeId < v.init.outcomeCount) : (v.resolved outcomeId).Ledger := by
  have hcur : v.currentScore = v.totalEarlyBirdScore := by simp [currentScore, ho]
  exact { hl with score_sum := hl.score_sum.trans hcur, current_le := le_rfl, supply := ⟨hn, rfl⟩ }

/-! ## Claims -/

theorem Ledger.claimWinningsFor (hl : v.Ledger) {marketplace : Address} {units payout : Nat}
    (h : v.claimWinningsFor marketplace owner = .ok (v', units, payout)) : v'.Ledger := by
  obtain ⟨hr, _, _, _, _, shares, hs, rfl⟩ := claimWinningsFor_eq_ok h
  obtain ⟨_, _, ht, _⟩ := Shares.burn_eq_ok hs
  have hsup := hl.supply
  simp only [SupplyMatches, hr] at hsup
  refine { hl with
    backed := hl.backed.burn hs
    supply_none := fun o ho => ?_
    supply := ?_
    noZero := fun o => Nat.le_zero.mp ((Shares.burn_le hs o 0).trans (hl.noZero o).le) }
  · have hne : o ≠ v.winningOutcome := by have := hsup.1; simp only at ho; omega
    simp only [ht, Function.update_of_ne hne]
    exact hl.supply_none o ho
  · simp only [SupplyMatches, hr, ht, Function.update_self]
    exact ⟨hsup.1, by rw [hsup.2]⟩

theorem earlyBird_halves (v : Vault) (owner : Address) (remainingScore remainingPool : Nat) :
    let w := { v with
      packedBuyerAccounting := Function.update v.packedBuyerAccounting owner (v.cumulativePrimaryBought owner)
      remainingEarlyBirdScore := remainingScore
      remainingEarlyBirdPool := remainingPool }
    w.cumulativePrimaryBought = v.cumulativePrimaryBought ∧
      w.earlyBirdScore = Function.update v.earlyBirdScore owner 0 := by
  have hlt : v.cumulativePrimaryBought owner < 2 ^ 128 := by
    unfold cumulativePrimaryBought
    rw [low_eq]
    exact Nat.mod_lt _ (by positivity)
  constructor <;> funext u
  · simp only [cumulativePrimaryBought, Function.update_apply]
    split
    · rename_i he
      subst he
      rw [low_eq]
      exact Nat.mod_eq_of_lt hlt
    · rfl
  · simp only [earlyBirdScore, Function.update_apply]
    split
    · rw [high_eq]
      exact Nat.div_eq_of_lt hlt
    · rfl

theorem Ledger.claimEarlyBirdFor (hl : v.Ledger) {score reward : Nat}
    (h : v.claimEarlyBirdFor owner = .ok (v', score, reward)) : v'.Ledger := by
  obtain ⟨hr, rfl, _, hle, _, rfl⟩ := claimEarlyBirdFor_eq_ok h
  obtain ⟨hlow, hhigh⟩ := earlyBird_halves v owner (v.remainingEarlyBirdScore - v.earlyBirdScore owner)
    (v.remainingEarlyBirdPool - reward)
  have hcur : v.currentScore = v.remainingEarlyBirdScore := by simp [currentScore, hr]
  refine { hl with bought_le_cap := fun u => ?_, bought_sum := ?_, score_sum := ?_, current_le := ?_ }
  · rw [hlow]; exact hl.bought_le_cap u
  · rw [hlow]; exact hl.bought_sum
  · have := sum_update v.earlyBirdScore (mem_univ owner) 0
    have := hl.score_sum
    rw [hhigh]
    simp only [currentScore, hr]
    omega
  · have := hl.current_le
    simp only [currentScore, hr]
    simp only [totalEarlyBirdScore] at this ⊢
    omega

/-- The burns of a refund take from the supplies what the owner holds. -/
theorem refund_supply {shares : Shares} (hb : v.shares.Backed)
    (hs : burnAll owner (List.range v.init.outcomeCount) v.shares = .ok shares) :
    shares.Backed ∧ (∀ o, v.init.outcomeCount ≤ o → shares.totalSupply o = v.shares.totalSupply o) ∧
      ∑ o ∈ range v.init.outcomeCount, shares.totalSupply o + v.heldUnits owner =
        ∑ o ∈ range v.init.outcomeCount, v.shares.totalSupply o := by
  obtain ⟨hbal, hsup, _⟩ := burnAll_eq_ok List.nodup_range hs
  refine ⟨fun o => ?_, fun o ho => ?_, ?_⟩
  · have hle := hb.balance_le o owner
    rw [hbal, hsup]
    simp only [List.mem_range]
    by_cases ho : o < v.init.outcomeCount
    · have := sum_update (v.shares.balanceOf o) (mem_univ owner) 0
      have hsum := hb o
      simp only [ho, true_and, if_true]
      simp only [Function.update_apply] at this
      omega
    · simp only [ho, false_and, if_false]
      exact hb o
  · rw [hsup]
    simp [Nat.not_lt.mpr ho]
  · unfold heldUnits
    rw [← sum_add_distrib]
    refine sum_congr rfl fun o ho => ?_
    have hle := hb.balance_le o owner
    rw [hsup]
    simp only [List.mem_range, mem_range.mp ho, if_true]
    omega

theorem Ledger.refundFor (hl : v.Ledger) {marketplace : Address} {amount : Nat}
    (h : v.refundFor marketplace owner = .ok (v', amount)) : v'.Ledger := by
  obtain ⟨hv, rfl, _, _, shares, hs, rfl⟩ := refundFor_eq_ok h
  obtain ⟨hback, hout, hsum⟩ := refund_supply hl.backed hs
  have hsup := hl.supply
  simp only [SupplyMatches, hv] at hsup
  refine { hl with
    backed := hback
    supply_none := fun o ho => (hout o ho).trans (hl.supply_none o ho)
    supply := ?_
    noZero := fun o => ?_ }
  · simp only [SupplyMatches, hv]
    omega
  · rw [(burnAll_eq_ok List.nodup_range hs).1]
    simp only
    split
    · rfl
    · exact hl.noZero o

theorem Ledger.burnLosingPosition (hl : v.Ledger) {caller : Address} {outcomeId units : Nat}
    (h : v.burnLosingPosition caller outcomeId = .ok (v', units)) : v'.Ledger := by
  obtain ⟨hr, hn, hw, _, _, shares, hs, rfl⟩ := burnLosingPosition_eq_ok h
  obtain ⟨_, _, ht, _⟩ := Shares.burn_eq_ok hs
  have hsup := hl.supply
  simp only [SupplyMatches, hr] at hsup
  refine { hl with
    backed := hl.backed.burn hs
    supply_none := fun o ho => ?_
    supply := ?_
    noZero := fun o => Nat.le_zero.mp ((Shares.burn_le hs o 0).trans (hl.noZero o).le) }
  · have hne : o ≠ outcomeId := by simp only at ho; omega
    simp only [ht, Function.update_of_ne hne]
    exact hl.supply_none o ho
  · simp only [SupplyMatches, hr, ht, Function.update_of_ne hw.symm]
    exact hsup

theorem Ledger.transfer (hl : v.Ledger) {source target : Address} {shares : Shares} (ht : target ≠ 0)
    (h : Shares.Moved v.shares shares source target) : { v with shares := shares }.Ledger := by
  refine { hl with
    backed := hl.backed.moved h
    supply_none := fun o ho => by rw [h.totalSupply]; exact hl.supply_none o ho
    supply := ?_
    noZero := fun o => Nat.le_zero.mp ((h.losers o 0 ht.symm).trans (hl.noZero o).le) }
  have hsup := hl.supply
  unfold SupplyMatches at *
  rw [h.totalSupply]
  exact hsup

end

end Vault

/-! ## Steps -/

variable {D : Deployment} {market : Address} {now : Nat} {v v' : Vault} {e : Option VaultEvent} {p : Option Payment}

/-- Every step keeps the counters equal to their sums. -/
theorem VaultStep.ledger (h : VaultStep D market now v v' e p) (hl : v.Ledger) : v'.Ledger := by
  cases h with
  | terms _ _ _ h => obtain ⟨rfl, _⟩ := Vault.updateBeforeFirstBuy_eq_ok h; exact { hl with }
  | buy _ _ _ _ _ hb _ h => exact hl.buy hb h
  | resolve _ _ _ _ _ h =>
    obtain ⟨_, ho, _, _, hn, ⟨_, _, hp⟩ | ⟨_, rfl, _⟩⟩ := Vault.resolve_eq_ok h
    · cases hp
    · exact hl.resolved ho hn
  | resolveEmpty _ _ _ _ h =>
    obtain ⟨_, ho, _, _, _, ⟨_, rfl, _⟩ | ⟨_, _, hp⟩⟩ := Vault.resolve_eq_ok h
    · exact hl.void ho _
    · cases hp
  | creatorVoid _ _ _ h => obtain ⟨_, ho, _, rfl⟩ := Vault.creatorVoid_eq_ok.mp h; exact hl.void ho _
  | voidAfterDeadline _ _ h => obtain ⟨ho, _, rfl⟩ := Vault.voidAfterDeadline_eq_ok.mp h; exact hl.void ho _
  | claimWinningsFor _ _ _ _ _ h => exact hl.claimWinningsFor h
  | claimEarlyBirdFor _ _ _ _ _ h => exact hl.claimEarlyBirdFor h
  | refundFor _ _ _ _ h => exact hl.refundFor h
  | fundTimeoutBonus _ _ _ _ _ _ h =>
    obtain ⟨_, _, _, _, _, rfl⟩ := Vault.fundTimeoutBonus_eq_ok.mp h; exact { hl with }
  | claimTimeoutBonusFor _ _ _ _ _ h =>
    obtain ⟨_, _, _, _, _, _, rfl⟩ := Vault.claimTimeoutBonusFor_eq_ok.mp h; exact { hl with }
  | burnLosingPosition _ _ _ _ h => exact hl.burnLosingPosition h
  | transfer _ _ _ ht h => exact hl.transfer ht h
  | approval => exact { hl with }

/-- What the factory guarantees stays true: terms are replaced by valid ones only. -/
theorem VaultStep.configured (h : VaultStep D market now v v' e p) (hc : v.Configured D) : v'.Configured D := by
  have hf := h.frame
  have hterms : v'.terms.creatorTreasury ≠ 0 ∧ Vault.ValidTimes v.init.createdAt v'.terms := by
    rcases hf.terms with he | hn
    · rw [he]; exact ⟨hc.treasury, hc.times⟩
    · exact ⟨hn.treasury, hn.times⟩
  obtain ⟨hi, hd, ho, h₁, h₂, h₃, h₄, h₅, h₆, h₇, _, _⟩ := hc
  refine ⟨hf.initialized.trans hi, ?_, ?_, ?_, ?_, ?_, ?_, ?_, ?_, ?_, hterms.1, ?_⟩ <;> rw [hf.init]
  · exact hd
  · exact ho
  · exact h₁
  · exact h₂
  · exact h₃
  · exact h₄
  · exact h₅
  · exact h₆
  · exact h₇
  · exact hterms.2

end Cpredict
