import Cpredict.Events
import Cpredict.Vault.Model

/-!
# What one call does to a vault

An inversion lemma for every function of `Vault/Model.lean`, and the step relation `VaultStep` over them: a step has
the events that the vault emits and the payments of the payment token that go with it. Later modules use the inversion
lemmas and never unfold the functions.
-/

namespace Cpredict

open Outcome Packing MulDiv ProRata Balances

namespace Vault

variable {v v' : Vault} {now : Nat} {caller marketplace owner buyer : Address}

@[simp] theorem toUint128_eq_ok {n r : Nat} : toUint128 n = .ok r ↔ n < 2 ^ 128 ∧ n = r := by
  simp only [toUint128, bind_eq_ok, revertIf_eq_ok, not_le, Except.ok.injEq]
  constructor
  · rintro ⟨_, h, e⟩; exact ⟨h, e⟩
  · rintro ⟨h, e⟩; exact ⟨(), h, e⟩

@[simp] theorem packUint128Pair_eq_ok {lo hi r : Nat} :
    packUint128Pair lo hi = .ok r ↔ lo < 2 ^ 128 ∧ hi < 2 ^ 128 ∧ pack 128 lo hi = r := by
  simp only [packUint128Pair, bind_eq_ok, toUint128_eq_ok, Except.ok.injEq]
  constructor
  · rintro ⟨_, ⟨hl, rfl⟩, _, ⟨hh, rfl⟩, e⟩; exact ⟨hl, hh, e⟩
  · rintro ⟨hl, hh, e⟩; exact ⟨_, ⟨hl, rfl⟩, _, ⟨hh, rfl⟩, e⟩

/-! ## Terms -/

/-- The times that `_validateTimes` accepts. -/
structure ValidTimes (createdAt : Nat) (terms : MarketTerms) : Prop where
  close_ge : createdAt + 5 * 60 ≤ terms.closeAt
  close_le : terms.closeAt ≤ createdAt + 90 * 24 * 3600
  close_le_deadline : terms.closeAt ≤ terms.outcomeDeadlineAt

theorem setTerms_eq_ok {terms : MarketTerms} (h : v.setTerms terms = .ok v') :
    v' = { v with terms := terms } ∧ terms.creatorTreasury ≠ 0 ∧ ValidTimes v.init.createdAt terms := by
  simp only [setTerms, validateTimes, bind_eq_ok, revertIf_eq_ok, Except.ok.injEq, not_or, not_lt] at h
  obtain ⟨_, _, _, ht, _, _, _, _, _, _, _, ⟨_, ⟨h₁, h₂⟩, h₃, _⟩, rfl⟩ := h
  exact ⟨rfl, ht, h₁, h₂, h₃⟩

/-- What a vault that its factory has initialised looks like. -/
theorem initializeVault_eq_ok {sender : Address} {init : MarketInit} {terms : MarketTerms}
    (h : v.initializeVault sender init terms = .ok v') :
    v' = { v with initialized := true, init := init, terms := terms } ∧ sender = init.factory ∧ init.creator ≠ 0 ∧
      init.economics.protocolTreasury ≠ 0 ∧ 2 ≤ init.outcomeCount ∧ init.outcomeCount ≤ 32 ∧
      terms.creatorTreasury ≠ 0 ∧ ValidTimes init.createdAt terms := by
  simp only [initializeVault, bind_eq_ok, revertIf_eq_ok, not_or, not_lt, ne_eq, Decidable.not_not] at h
  obtain ⟨_, _, _, hs, _, hz, _, ⟨h₁, h₂⟩, _, _, h⟩ := h
  obtain ⟨rfl, ht, hv⟩ := setTerms_eq_ok h
  exact ⟨rfl, hs, hz.2.2.2.2.2.2.2.1, hz.2.2.2.2.2.2.2.2.2, h₁, h₂, ht, hv⟩

theorem updateBeforeFirstBuy_eq_ok {terms : MarketTerms} (h : v.updateBeforeFirstBuy now caller terms = .ok v') :
    v' = { v with terms := terms } ∧ caller = v.init.creator ∧ v.totalPrincipal = 0 ∧ v.marketState = .open ∧
      terms.creatorTreasury ≠ 0 ∧ ValidTimes v.init.createdAt terms ∧ now < terms.closeAt := by
  simp only [updateBeforeFirstBuy, firstBuyOccurred, bind_eq_ok, revertIf_eq_ok, ne_eq, Decidable.not_not, bne_iff_ne,
    not_le, Except.ok.injEq] at h
  obtain ⟨_, hc, _, hp, _, ho, u, hu, _, ht, rfl⟩ := h
  obtain ⟨rfl, hz, hv⟩ := setTerms_eq_ok hu
  exact ⟨rfl, hc, hp, ho, hz, hv, ht⟩

/-! ## Purchases -/

/-- The purchases that `_prepareBuy` lets through. -/
structure Buyable (v : Vault) (now : Nat) (buyer : Address) (outcomeId filledUnits : Nat) : Prop where
  notZero : buyer ≠ 0
  isOpen : v.marketState = .open
  beforeClose : now < v.terms.closeAt
  outcome : outcomeId < v.init.outcomeCount
  marketCap : v.totalPrincipal + filledUnits ≤ v.init.marketPrimaryCap
  userCap : v.cumulativePrimaryBought buyer + filledUnits ≤ v.init.perUserPrimaryCap
  minimum : v.init.minimumPrimaryUnits ≤ filledUnits

theorem prepareBuy_eq_ok {paused : Bool} {outcomeId desiredUnits minUnits maxPayment deadline filledUnits : Nat}
    (h : v.prepareBuy now paused buyer outcomeId desiredUnits minUnits maxPayment deadline = .ok filledUnits) :
    v.Buyable now buyer outcomeId filledUnits := by
  simp only [prepareBuy, bind_eq_ok, revertIf_eq_ok, checkedSub_eq_ok, Except.ok.injEq, not_or, not_lt, not_le, ne_eq,
    Decidable.not_not] at h
  obtain ⟨_, hb, _, ⟨ho, ht⟩, _, _, _, _, _, hout, _, _, _, ⟨h₁, rfl⟩, _, ⟨h₂, rfl⟩, _, ⟨_, hm⟩, _, _, rfl⟩ := h
  exact ⟨hb, ho, ht, hout, by omega, by omega, hm⟩

/-- The score that a purchase adds. -/
def scoreOf (v : Vault) (now filledUnits : Nat) : Nat := filledUnits * v.earlyBirdWeight now

theorem earlyBirdWeight_le (v : Vault) (t : Nat) : v.earlyBirdWeight t ≤ 3 := by
  simp only [earlyBirdWeight]
  split_ifs <;> omega

/-- The storage after a purchase that mints `shares`. -/
def bought (v : Vault) (now : Nat) (buyer : Address) (outcomeId filledUnits : Nat) (shares : Shares) : Vault :=
  { v with
    packedMarketAccounting := pack 128 (v.totalPrincipal + filledUnits)
      (v.totalEarlyBirdScore + v.scoreOf now filledUnits)
    packedBuyerAccounting := Function.update v.packedBuyerAccounting buyer
      (pack 128 (v.cumulativePrimaryBought buyer + filledUnits) (v.earlyBirdScore buyer + v.scoreOf now filledUnits))
    principalByOutcome := Function.update v.principalByOutcome outcomeId (v.principalByOutcome outcomeId + filledUnits)
    shares := shares }

/-- A purchase goes through exactly when the sums fit their halves of the packed words and the buyer can hold shares. -/
theorem completeBuy_eq_ok {outcomeId filledUnits : Nat} :
    v.completeBuy now buyer outcomeId filledUnits = .ok v' ↔
      v.totalPrincipal + filledUnits < 2 ^ 128 ∧ v.totalEarlyBirdScore + v.scoreOf now filledUnits < 2 ^ 128 ∧
      v.cumulativePrimaryBought buyer + filledUnits < 2 ^ 128 ∧
      v.earlyBirdScore buyer + v.scoreOf now filledUnits < 2 ^ 128 ∧
      ∃ shares, v.shares.mint buyer outcomeId filledUnits = .ok shares ∧
        v' = v.bought now buyer outcomeId filledUnits shares := by
  have hscore : (if v.earlyBirdWeight now ≠ 0 then filledUnits * v.earlyBirdWeight now else 0) =
      v.scoreOf now filledUnits := by
    unfold scoreOf
    split
    · rfl
    · rename_i hz; rw [not_not.mp hz, Nat.mul_zero]
  simp only [completeBuy, setMarketAccounting, hscore, bind_eq_ok, packUint128Pair_eq_ok, Except.ok.injEq]
  constructor
  · rintro ⟨_, ⟨_, ⟨h₁, h₂, rfl⟩, rfl⟩, _, ⟨h₃, h₄, rfl⟩, s, hs, rfl⟩
    exact ⟨h₁, h₂, h₃, h₄, s, hs, rfl⟩
  · rintro ⟨h₁, h₂, h₃, h₄, s, hs, rfl⟩
    exact ⟨_, ⟨_, ⟨h₁, h₂, rfl⟩, rfl⟩, _, ⟨h₃, h₄, rfl⟩, s, hs, rfl⟩

/-- What a purchase changes, half by half. -/
structure Bought (v v' : Vault) (now : Nat) (buyer : Address) (outcomeId filledUnits : Nat) : Prop where
  totalPrincipal : v'.totalPrincipal = v.totalPrincipal + filledUnits
  totalEarlyBirdScore : v'.totalEarlyBirdScore = v.totalEarlyBirdScore + v.scoreOf now filledUnits
  cumulativePrimaryBought : v'.cumulativePrimaryBought =
    Function.update v.cumulativePrimaryBought buyer (v.cumulativePrimaryBought buyer + filledUnits)
  earlyBirdScore : v'.earlyBirdScore =
    Function.update v.earlyBirdScore buyer (v.earlyBirdScore buyer + v.scoreOf now filledUnits)

theorem bought_halves {outcomeId filledUnits : Nat} (h : v.completeBuy now buyer outcomeId filledUnits = .ok v') :
    Bought v v' now buyer outcomeId filledUnits := by
  obtain ⟨h₁, _, h₃, _, shares, _, rfl⟩ := completeBuy_eq_ok.mp h
  refine ⟨low_pack h₁ _, high_pack h₁ _, ?_, ?_⟩ <;> funext u
  · unfold cumulativePrimaryBought bought
    simp only [Function.update_apply]
    split
    · exact low_pack h₃ _
    · rfl
  · unfold earlyBirdScore bought
    simp only [Function.update_apply]
    split
    · exact high_pack h₃ _
    · rfl

/-! ## The terminal transitions -/

/-- The storage after `resolve` pays out by the breakdown of `_calculatePayouts`. -/
def resolved (v : Vault) (outcomeId : Nat) : Vault :=
  { v with
    marketState := .resolved
    winningOutcome := outcomeId
    payoutBreakdown := v.calculatePayouts
    remainingWinningUnits := v.shares.totalSupply outcomeId
    remainingWinnerPool := v.calculatePayouts.winnerPool
    remainingEarlyBirdScore := v.totalEarlyBirdScore
    remainingEarlyBirdPool := v.calculatePayouts.earlyBirdPool }

theorem resolve_eq_ok {outcomeId : Nat} {payouts : Option PayoutBreakdown}
    (h : v.resolve now caller outcomeId = .ok (v', payouts)) :
    caller = v.init.creator ∧ v.marketState = .open ∧ v.terms.closeAt ≤ now ∧ now < v.resolutionDeadline ∧
      outcomeId < v.init.outcomeCount ∧
      ((v.shares.totalSupply outcomeId = 0 ∧ v' = v.void .noWinningSupply ∧ payouts = none) ∨
        (v.shares.totalSupply outcomeId ≠ 0 ∧ v' = v.resolved outcomeId ∧ payouts = some v.calculatePayouts)) := by
  simp only [resolve, bind_eq_ok, revertIf_eq_ok, ne_eq, Decidable.not_not, not_lt, not_le] at h
  obtain ⟨_, hc, _, ho, _, h₁, _, h₂, _, hn, h⟩ := h
  refine ⟨hc, ho, h₁, h₂, hn, ?_⟩
  split at h
  · rename_i hz; cases h; exact .inl ⟨hz, rfl, rfl⟩
  · rename_i hz
    simp only [toUint8, bind_eq_ok, revertIf_eq_ok, Except.ok.injEq, Prod.mk.injEq] at h
    obtain ⟨_, ⟨_, _, rfl⟩, rfl, rfl⟩ := h
    exact .inr ⟨hz, rfl, rfl⟩

theorem creatorVoid_eq_ok :
    v.creatorVoid now caller = .ok v' ↔
      caller = v.init.creator ∧ v.marketState = .open ∧ now < v.resolutionDeadline ∧ v' = v.void .creator := by
  simp only [creatorVoid, bind_eq_ok, revertIf_eq_ok, ne_eq, Decidable.not_not, not_le, Except.ok.injEq]
  constructor
  · rintro ⟨_, h₁, _, h₂, _, h₃, rfl⟩; exact ⟨h₁, h₂, h₃, rfl⟩
  · rintro ⟨h₁, h₂, h₃, rfl⟩; exact ⟨(), h₁, (), h₂, (), h₃, rfl⟩

theorem voidAfterDeadline_eq_ok :
    v.voidAfterDeadline now = .ok v' ↔ v.marketState = .open ∧ v.resolutionDeadline ≤ now ∧ v' = v.void .timeout := by
  simp only [voidAfterDeadline, bind_eq_ok, revertIf_eq_ok, ne_eq, Decidable.not_not, not_lt, Except.ok.injEq]
  constructor
  · rintro ⟨_, h₁, _, h₂, rfl⟩; exact ⟨h₁, h₂, rfl⟩
  · rintro ⟨h₁, h₂, rfl⟩; exact ⟨(), h₁, (), h₂, rfl⟩

/-! ## Claims -/

theorem consumeRemainingPool_eq_ok {units remainingUnits remainingPool r : Nat} :
    consumeRemainingPool units remainingUnits remainingPool = .ok r ↔
      units ≠ 0 ∧ units ≤ remainingUnits ∧ share units remainingUnits remainingPool = r := by
  simp only [consumeRemainingPool, bind_eq_ok, revertIf_eq_ok, not_or, not_lt, Except.ok.injEq]
  constructor
  · rintro ⟨_, ⟨h₁, _, h₃⟩, e⟩; exact ⟨h₁, h₃, e⟩
  · rintro ⟨h₁, h₃, e⟩; exact ⟨(), ⟨h₁, by omega, h₃⟩, e⟩

theorem rejectProtocolMarketplaceOwner_eq_ok {u : Unit} :
    rejectProtocolMarketplaceOwner marketplace owner = .ok u ↔ (marketplace = 0 ∨ owner ≠ marketplace) := by
  simp only [rejectProtocolMarketplaceOwner, revertIf_eq_ok, not_and_or, ne_eq, Decidable.not_not]

/-- A claim of winnings burns the whole winning position and pays its share of the winner pool. -/
theorem claimWinningsFor_eq_ok {units payout : Nat}
    (h : v.claimWinningsFor marketplace owner = .ok (v', units, payout)) :
    v.marketState = .resolved ∧ units = v.shares.balanceOf v.winningOutcome owner ∧ units ≠ 0 ∧
      units ≤ v.remainingWinningUnits ∧ payout = share units v.remainingWinningUnits v.remainingWinnerPool ∧
      ∃ shares, v.shares.burn owner v.winningOutcome units = .ok shares ∧
        v' = { v with
               remainingWinningUnits := v.remainingWinningUnits - units
               remainingWinnerPool := v.remainingWinnerPool - payout
               shares := shares } := by
  simp only [claimWinningsFor, bind_eq_ok, revertIf_eq_ok, checkedSub_eq_ok, consumeRemainingPool_eq_ok,
    Except.ok.injEq, Prod.mk.injEq, ne_eq, Decidable.not_not] at h
  obtain ⟨_, hr, _, _, _, h0, _, ⟨_, hle, rfl⟩, _, ⟨_, rfl⟩, _, ⟨_, rfl⟩, s, hs, rfl, rfl, rfl⟩ := h
  exact ⟨hr, rfl, h0, hle, rfl, s, hs, rfl⟩

/-- An early-bird claim clears the buyer's score and pays its share of the early-bird pool. -/
theorem claimEarlyBirdFor_eq_ok {score reward : Nat} (h : v.claimEarlyBirdFor owner = .ok (v', score, reward)) :
    v.marketState = .resolved ∧ score = v.earlyBirdScore owner ∧ score ≠ 0 ∧ score ≤ v.remainingEarlyBirdScore ∧
      reward = share score v.remainingEarlyBirdScore v.remainingEarlyBirdPool ∧
      v' = { v with
             packedBuyerAccounting := Function.update v.packedBuyerAccounting owner (v.cumulativePrimaryBought owner)
             remainingEarlyBirdScore := v.remainingEarlyBirdScore - score
             remainingEarlyBirdPool := v.remainingEarlyBirdPool - reward } := by
  simp only [claimEarlyBirdFor, bind_eq_ok, revertIf_eq_ok, checkedSub_eq_ok, consumeRemainingPool_eq_ok,
    Except.ok.injEq, Prod.mk.injEq, ne_eq, Decidable.not_not] at h
  obtain ⟨_, hr, _, _, _, ⟨h0, hle, rfl⟩, _, ⟨_, rfl⟩, _, ⟨_, rfl⟩, rfl, rfl, rfl⟩ := h
  exact ⟨hr, rfl, h0, hle, rfl, rfl⟩

theorem burnHeld_eq_ok {outcomeId : Nat} {s s' : Shares} (h : burnHeld owner outcomeId s = .ok s') :
    s'.balanceOf = update₂ s.balanceOf outcomeId owner 0 ∧
      s'.totalSupply =
        Function.update s.totalSupply outcomeId (s.totalSupply outcomeId - s.balanceOf outcomeId owner) ∧
      s'.isApprovedForAll = s.isApprovedForAll := by
  unfold burnHeld at h
  split at h
  · obtain ⟨_, h₁, h₂, h₃⟩ := Shares.burn_eq_ok h
    rw [Nat.sub_self] at h₁
    exact ⟨h₁, h₂, h₃⟩
  · rename_i hz
    cases h
    have hz : s.balanceOf outcomeId owner = 0 := not_not.mp hz
    refine ⟨?_, ?_, rfl⟩
    · unfold update₂
      rw [← hz, Function.update_eq_self, Function.update_eq_self]
    · rw [hz, Nat.sub_zero, Function.update_eq_self]

/-- The loop of `refundFor` burns the holder's balance of every outcome in the list. -/
theorem burnAll_eq_ok : ∀ {ids : List Nat} {s s' : Shares}, ids.Nodup → burnAll owner ids s = .ok s' →
    s'.balanceOf = (fun id a => if id ∈ ids ∧ a = owner then 0 else s.balanceOf id a) ∧
      s'.totalSupply = (fun id => if id ∈ ids then s.totalSupply id - s.balanceOf id owner else s.totalSupply id) ∧
      s'.isApprovedForAll = s.isApprovedForAll
  | [], s, s', _, h => by
    cases h
    simp
  | id :: rest, s, s', hnd, h => by
    obtain ⟨hnot, hrest⟩ := List.nodup_cons.mp hnd
    simp only [burnAll, bind_eq_ok] at h
    obtain ⟨t, ht, h⟩ := h
    obtain ⟨hb, hs, ha⟩ := burnAll_eq_ok hrest h
    obtain ⟨hb₁, hs₁, ha₁⟩ := burnHeld_eq_ok ht
    refine ⟨?_, ?_, ha.trans ha₁⟩
    · rw [hb, hb₁]
      funext j a
      by_cases hj : j = id
      · subst hj
        by_cases hao : a = owner
        · simp [hao, update₂]
        · simp [hao, update₂]
      · rw [update₂_of_ne _ _ _ hj]
        simp [hj]
    · rw [hs, hs₁, hb₁]
      funext j
      by_cases hj : j = id
      · subst hj; simp [hnot]
      · simp [hj, update₂_of_ne _ _ _ hj]

/-- A refund burns everything its owner holds and pays it back unit for unit. -/
theorem refundFor_eq_ok {amount : Nat} (h : v.refundFor marketplace owner = .ok (v', amount)) :
    v.marketState = .voided ∧ amount = v.heldUnits owner ∧ amount ≠ 0 ∧ amount ≤ v.remainingRefundPrincipal ∧
      ∃ shares, burnAll owner (List.range v.init.outcomeCount) v.shares = .ok shares ∧
        v' = { v with
               remainingRefundPrincipal := v.remainingRefundPrincipal - amount
               timeoutBonusUnits := if v.voidReason = .timeout then
                   Function.update v.timeoutBonusUnits owner (v.timeoutBonusUnits owner + amount)
                 else v.timeoutBonusUnits
               shares := shares } := by
  simp only [refundFor, bind_eq_ok, revertIf_eq_ok, checkedSub_eq_ok, Except.ok.injEq, Prod.mk.injEq, ne_eq,
    Decidable.not_not] at h
  obtain ⟨_, hv, _, _, _, h0, _, ⟨hle, rfl⟩, s, hs, rfl, rfl⟩ := h
  exact ⟨hv, rfl, h0, hle, s, hs, rfl⟩

theorem fundTimeoutBonus_eq_ok {amount : Nat} :
    v.fundTimeoutBonus caller amount = .ok v' ↔
      caller = v.init.bondEscrow ∧ v.marketState = .voided ∧ v.voidReason = .timeout ∧ v.timeoutBonusFunded = false ∧
      amount ≠ 0 ∧
      v' = { v with
             timeoutBonusFunded := true
             remainingTimeoutBonusUnits := v.totalPrincipal
             remainingTimeoutBonusPool := amount } := by
  simp only [fundTimeoutBonus, bind_eq_ok, revertIf_eq_ok, Except.ok.injEq, ne_eq, Decidable.not_not, not_or,
    Bool.not_eq_true]
  constructor
  · rintro ⟨_, h₁, _, ⟨h₂, h₃⟩, _, h₄, _, h₅, rfl⟩; exact ⟨h₁, h₂, h₃, h₄, h₅, rfl⟩
  · rintro ⟨h₁, h₂, h₃, h₄, h₅, rfl⟩; exact ⟨(), h₁, (), ⟨h₂, h₃⟩, (), h₄, (), h₅, rfl⟩

/-- A bonus claim uses up its owner's units and pays their share of the bonus pool. -/
theorem claimTimeoutBonusFor_eq_ok {units reward : Nat} :
    v.claimTimeoutBonusFor owner = .ok (v', units, reward) ↔
      v.timeoutBonusFunded = true ∧ units = v.timeoutBonusUnits owner ∧ units ≠ 0 ∧
      units ≤ v.remainingTimeoutBonusUnits ∧
      reward = share units v.remainingTimeoutBonusUnits v.remainingTimeoutBonusPool ∧
      reward ≤ v.remainingTimeoutBonusPool ∧
      v' = { v with
             timeoutBonusUnits := Function.update v.timeoutBonusUnits owner 0
             remainingTimeoutBonusUnits := v.remainingTimeoutBonusUnits - units
             remainingTimeoutBonusPool := v.remainingTimeoutBonusPool - reward } := by
  simp only [claimTimeoutBonusFor, bind_eq_ok, revertIf_eq_ok, checkedSub_eq_ok, consumeRemainingPool_eq_ok,
    Except.ok.injEq, Prod.mk.injEq, Bool.not_eq_false]
  constructor
  · rintro ⟨_, hf, _, h0, _, ⟨_, hle, rfl⟩, _, ⟨_, rfl⟩, _, ⟨hp, rfl⟩, rfl, rfl, rfl⟩
    exact ⟨hf, rfl, h0, hle, rfl, hp, rfl⟩
  · rintro ⟨hf, rfl, h0, hle, rfl, hp, rfl⟩
    exact ⟨(), hf, (), h0, _, ⟨h0, hle, rfl⟩, _, ⟨hle, rfl⟩, _, ⟨hp, rfl⟩, rfl, rfl, rfl⟩

theorem burnLosingPosition_eq_ok {outcomeId units : Nat} (h : v.burnLosingPosition caller outcomeId = .ok (v', units)) :
    v.marketState = .resolved ∧ outcomeId < v.init.outcomeCount ∧ outcomeId ≠ v.winningOutcome ∧
      units = v.shares.balanceOf outcomeId caller ∧ units ≠ 0 ∧
      ∃ shares, v.shares.burn caller outcomeId units = .ok shares ∧ v' = { v with shares := shares } := by
  simp only [burnLosingPosition, bind_eq_ok, revertIf_eq_ok, Except.ok.injEq, Prod.mk.injEq, ne_eq, Decidable.not_not,
    not_or, not_le] at h
  obtain ⟨_, hr, _, ⟨h₁, h₂⟩, _, h0, s, hs, rfl, rfl⟩ := h
  exact ⟨hr, h₁, h₂, rfl, h0, s, hs, rfl⟩

end Vault

/-! ## Steps -/

/-- A movement of the payment token. -/
structure Payment where
  source : Address
  target : Address
  amount : Nat
deriving DecidableEq

/-- What a payment takes from `a`. -/
def Payment.sent (a : Address) (p : Payment) : Nat := if p.source = a then p.amount else 0

/-- What a payment brings to `a`. -/
def Payment.received (a : Address) (p : Payment) : Nat := if p.target = a then p.amount else 0

/-- What an event says the vault has received. -/
def VaultEvent.income : VaultEvent → Nat
  | .PrimaryPurchased _ _ _ _ payment _ _ _ => payment
  | .TimeoutBonusFunded amount _ _ _ => amount
  | _ => 0

/-- One call on the vault at `market`: the storage after it, the milestone it logs and the payment it makes, if any. -/
inductive VaultStep (D : Deployment) (market : Address) (now : Nat) (v : Vault) :
    Vault → Option VaultEvent → Option Payment → Prop
  | terms (caller : Address) (terms : MarketTerms) (v' : Vault) :
    v.updateBeforeFirstBuy now caller terms = .ok v' → VaultStep D market now v v' none none
  | buy (buyer : Address) (outcomeId desiredUnits filledUnits : Nat) (v' : Vault) :
    v.Buyable now buyer outcomeId filledUnits → buyer ≠ market →
    v.completeBuy now buyer outcomeId filledUnits = .ok v' →
    VaultStep D market now v v'
      (some (.PrimaryPurchased buyer outcomeId desiredUnits filledUnits filledUnits (v.earlyBirdWeight now)
        (v'.cumulativePrimaryBought buyer) v'.totalPrincipal))
      (some ⟨buyer, market, filledUnits⟩)
  | resolve (caller : Address) (outcomeId : Nat) (evidenceHash : Bytes32) (v' : Vault) (b : PayoutBreakdown) :
    v.resolve now caller outcomeId = .ok (v', some b) →
    VaultStep D market now v v' (some (.MarketResolved outcomeId b evidenceHash))
      (if b.protocolFee + b.creatorFee = 0 then none else some ⟨market, D.feeVault, b.protocolFee + b.creatorFee⟩)
  | resolveEmpty (caller : Address) (outcomeId : Nat) (evidenceHash : Bytes32) (v' : Vault) :
    v.resolve now caller outcomeId = .ok (v', none) →
    VaultStep D market now v v' (some (.MarketVoided .noWinningSupply caller v'.totalPrincipal evidenceHash)) none
  | creatorVoid (caller : Address) (evidenceHash : Bytes32) (v' : Vault) :
    v.creatorVoid now caller = .ok v' →
    VaultStep D market now v v' (some (.MarketVoided .creator caller v'.totalPrincipal evidenceHash)) none
  | voidAfterDeadline (caller : Address) (v' : Vault) :
    v.voidAfterDeadline now = .ok v' →
    VaultStep D market now v v' (some (.MarketVoided .timeout caller v'.totalPrincipal 0)) none
  | claimWinningsFor (caller owner : Address) (v' : Vault) (units payout : Nat) :
    v.claimWinningsFor D.marketplace owner = .ok (v', units, payout) →
    VaultStep D market now v v' (some (.WinnerClaimed owner caller units payout)) (some ⟨market, owner, payout⟩)
  | claimEarlyBirdFor (caller owner : Address) (v' : Vault) (score reward : Nat) :
    v.claimEarlyBirdFor owner = .ok (v', score, reward) →
    VaultStep D market now v v' (some (.EarlyBirdClaimed owner caller score reward)) (some ⟨market, owner, reward⟩)
  | refundFor (caller owner : Address) (v' : Vault) (amount : Nat) :
    v.refundFor D.marketplace owner = .ok (v', amount) →
    VaultStep D market now v v'
      (some (.PrincipalRefunded owner caller amount amount (decide (v'.voidReason = .timeout))))
      (some ⟨market, owner, amount⟩)
  | fundTimeoutBonus (v' : Vault) (amount previous current : Nat) :
    D.bondEscrow ≠ market → v.totalPrincipal ≠ 0 → v.fundTimeoutBonus D.bondEscrow amount = .ok v' →
    VaultStep D market now v v' (some (.TimeoutBonusFunded amount v'.totalPrincipal previous current))
      (some ⟨D.bondEscrow, market, amount⟩)
  | claimTimeoutBonusFor (caller owner : Address) (v' : Vault) (units reward : Nat) :
    v.claimTimeoutBonusFor owner = .ok (v', units, reward) →
    VaultStep D market now v v' (some (.TimeoutBonusClaimed owner caller units reward)) (some ⟨market, owner, reward⟩)
  | burnLosingPosition (caller : Address) (outcomeId units : Nat) (v' : Vault) :
    v.burnLosingPosition caller outcomeId = .ok (v', units) → VaultStep D market now v v' none none
  | transfer (source target : Address) (shares : Shares) : target ≠ 0 →
    Shares.Moved v.shares shares source target → VaultStep D market now v { v with shares := shares } none none
  | approval (caller operator : Address) (approved : Bool) :
    VaultStep D market now v { v with shares := v.shares.setApprovalForAll caller operator approved } none none

/-- Terms set anew, which happens only before the first purchase. -/
structure NewTerms (v v' : Vault) : Prop where
  isOpen : v.marketState = .open
  noPurchase : v.totalPrincipal = 0
  treasury : v'.terms.creatorTreasury ≠ 0
  times : Vault.ValidTimes v.init.createdAt v'.terms

/-- The events of the terminal transitions. -/
def VaultEvent.isEnding : VaultEvent → Bool
  | .MarketResolved .. => true
  | .MarketVoided .. => true
  | _ => false

/-- A terminal event that fits the outcome of the vault, logged within the time window of its transition. -/
def Vault.Ending (v : Vault) (t : Nat) : VaultEvent → Prop
  | .MarketResolved outcomeId b _ => v.marketState = .resolved ∧ v.winningOutcome = outcomeId ∧ v.payoutBreakdown = b ∧
      v.terms.closeAt ≤ t ∧ t < v.resolutionDeadline
  | .MarketVoided reason _ principal _ => v.marketState = .voided ∧ v.voidReason = reason ∧
      v.totalPrincipal = principal ∧
      match reason with
      | .creator => t < v.resolutionDeadline
      | .noWinningSupply => v.terms.closeAt ≤ t ∧ t < v.resolutionDeadline
      | .timeout => v.resolutionDeadline ≤ t
      | .none => False
  | _ => False

/-- The outcome of the market is the same before and after. -/
structure SameOutcome (v v' : Vault) : Prop where
  marketState : v'.marketState = v.marketState
  voidReason : v'.voidReason = v.voidReason
  winningOutcome : v'.winningOutcome = v.winningOutcome
  payoutBreakdown : v'.payoutBreakdown = v.payoutBreakdown

/-- What a step leaves alone: the parameters always, the terms from the first purchase on, the outcome of the market
once it has one. -/
structure Frame (v v' : Vault) (now : Nat) (e : Option VaultEvent) : Prop where
  init : v'.init = v.init
  initialized : v'.initialized = v.initialized
  terms : v'.terms = v.terms ∨ NewTerms v v'
  principal : v.totalPrincipal ≤ v'.totalPrincipal
  outcome : (SameOutcome v v' ∧ ∀ x ∈ e, x.isEnding = false) ∨
    (v.marketState = .open ∧ v'.terms = v.terms ∧ ∃ x, e = some x ∧ x.isEnding = true ∧ v'.Ending now x)

theorem Frame.of_same {v v' : Vault} {now : Nat} {e : Option VaultEvent} (init : v'.init = v.init)
    (initialized : v'.initialized = v.initialized) (terms : v'.terms = v.terms)
    (principal : v.totalPrincipal ≤ v'.totalPrincipal) (outcome : SameOutcome v v')
    (event : ∀ x ∈ e, x.isEnding = false) :
    Frame v v' now e :=
  ⟨init, initialized, .inl terms, principal, .inl ⟨outcome, event⟩⟩

theorem Frame.of_ended {v v' : Vault} {now : Nat} {x : VaultEvent} (init : v'.init = v.init)
    (initialized : v'.initialized = v.initialized) (terms : v'.terms = v.terms)
    (principal : v.totalPrincipal ≤ v'.totalPrincipal) (isOpen : v.marketState = .open) (event : x.isEnding = true)
    (ending : v'.Ending now x) : Frame v v' now (some x) :=
  ⟨init, initialized, .inl terms, principal, .inr ⟨isOpen, terms, x, rfl, event, ending⟩⟩

section

variable {D : Deployment} {market : Address} {now : Nat} {v v' : Vault} {e : Option VaultEvent} {p : Option Payment}

theorem VaultStep.frame (h : VaultStep D market now v v' e p) : Frame v v' now e := by
  cases h with
  | terms _ _ _ h =>
    obtain ⟨rfl, _, hp, ho, hz, ht, _⟩ := Vault.updateBeforeFirstBuy_eq_ok h
    exact ⟨rfl, rfl, .inr ⟨ho, hp, hz, ht⟩, le_rfl, .inl ⟨⟨rfl, rfl, rfl, rfl⟩, by simp⟩⟩
  | buy _ _ _ _ _ _ _ h =>
    have hh := Vault.bought_halves h
    obtain ⟨_, _, _, _, _, _, rfl⟩ := Vault.completeBuy_eq_ok.mp h
    exact .of_same rfl rfl rfl (by rw [hh.totalPrincipal]; omega) ⟨rfl, rfl, rfl, rfl⟩ (by simp [VaultEvent.isEnding])
  | resolve _ _ _ _ _ h =>
    obtain ⟨_, ho, h₁, h₂, _, ⟨_, _, hp⟩ | ⟨_, rfl, hb⟩⟩ := Vault.resolve_eq_ok h
    · cases hp
    · cases hb
      exact .of_ended rfl rfl rfl le_rfl ho rfl ⟨rfl, rfl, rfl, h₁, h₂⟩
  | resolveEmpty _ _ _ _ h =>
    obtain ⟨_, ho, h₁, h₂, _, ⟨_, rfl, _⟩ | ⟨_, _, hp⟩⟩ := Vault.resolve_eq_ok h
    · exact .of_ended rfl rfl rfl le_rfl ho rfl ⟨rfl, rfl, rfl, h₁, h₂⟩
    · cases hp
  | creatorVoid _ _ _ h =>
    obtain ⟨_, ho, h₁, rfl⟩ := Vault.creatorVoid_eq_ok.mp h
    exact .of_ended rfl rfl rfl le_rfl ho rfl ⟨rfl, rfl, rfl, h₁⟩
  | voidAfterDeadline _ _ h =>
    obtain ⟨ho, h₁, rfl⟩ := Vault.voidAfterDeadline_eq_ok.mp h
    exact .of_ended rfl rfl rfl le_rfl ho rfl ⟨rfl, rfl, rfl, h₁⟩
  | claimWinningsFor _ _ _ _ _ h =>
    obtain ⟨_, _, _, _, _, _, _, rfl⟩ := Vault.claimWinningsFor_eq_ok h
    exact .of_same rfl rfl rfl le_rfl ⟨rfl, rfl, rfl, rfl⟩ (by simp [VaultEvent.isEnding])
  | claimEarlyBirdFor _ _ _ _ _ h =>
    obtain ⟨_, _, _, _, _, rfl⟩ := Vault.claimEarlyBirdFor_eq_ok h
    exact .of_same rfl rfl rfl le_rfl ⟨rfl, rfl, rfl, rfl⟩ (by simp [VaultEvent.isEnding])
  | refundFor _ _ _ _ h =>
    obtain ⟨_, _, _, _, _, _, rfl⟩ := Vault.refundFor_eq_ok h
    exact .of_same rfl rfl rfl le_rfl ⟨rfl, rfl, rfl, rfl⟩ (by simp [VaultEvent.isEnding])
  | fundTimeoutBonus _ _ _ _ _ _ h =>
    obtain ⟨_, _, _, _, _, rfl⟩ := Vault.fundTimeoutBonus_eq_ok.mp h
    exact .of_same rfl rfl rfl le_rfl ⟨rfl, rfl, rfl, rfl⟩ (by simp [VaultEvent.isEnding])
  | claimTimeoutBonusFor _ _ _ _ _ h =>
    obtain ⟨_, _, _, _, _, _, rfl⟩ := Vault.claimTimeoutBonusFor_eq_ok.mp h
    exact .of_same rfl rfl rfl le_rfl ⟨rfl, rfl, rfl, rfl⟩ (by simp [VaultEvent.isEnding])
  | burnLosingPosition _ _ _ _ h =>
    obtain ⟨_, _, _, _, _, _, _, rfl⟩ := Vault.burnLosingPosition_eq_ok h
    exact .of_same rfl rfl rfl le_rfl ⟨rfl, rfl, rfl, rfl⟩ (by simp)
  | transfer => exact .of_same rfl rfl rfl le_rfl ⟨rfl, rfl, rfl, rfl⟩ (by simp)
  | approval => exact .of_same rfl rfl rfl le_rfl ⟨rfl, rfl, rfl, rfl⟩ (by simp)

end

end Cpredict
