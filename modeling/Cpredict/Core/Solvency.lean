import Cpredict.Core.Accounting

/-!
# Solvency

A vault always holds what it owes (`liabilities_le_balance`), so its coverage check never fails and every claim that
its owner is entitled to is paid, unless the payment token itself refuses the transfer. What it has paid out is what it
received less what it owes, and that is nothing once everything has been claimed (`vault_solvency`).
-/

namespace Cpredict

open Outcome Balances ProRata Finset Tally

namespace Vault

variable {D : Deployment} {v : Vault} {marketplace owner : Address}

/-! ## Entitled claims go through -/

theorem burn_succeeds {s : Shares} {id value : Nat} (ho : owner ≠ 0) (hle : value ≤ s.balanceOf id owner) :
    ∃ s', s.burn owner id value = .ok s' := by
  unfold Shares.burn
  rw [revertIf_neg _ ho, ok_bind, revertIf_neg _ (not_lt.mpr hle), ok_bind]
  exact ⟨_, rfl⟩

theorem claimWinningsFor_succeeds (hl : v.Ledger) (hr : v.marketState = .resolved) (hm : owner ≠ marketplace)
    (hb : v.shares.balanceOf v.winningOutcome owner ≠ 0) :
    ∃ v', v.claimWinningsFor marketplace owner = .ok (v', v.shares.balanceOf v.winningOutcome owner,
      share (v.shares.balanceOf v.winningOutcome owner) v.remainingWinningUnits v.remainingWinnerPool) := by
  have ho : owner ≠ 0 := by rintro rfl; exact hb (hl.noZero _)
  have hle : v.shares.balanceOf v.winningOutcome owner ≤ v.remainingWinningUnits := by
    have hsup := hl.supply
    simp only [SupplyMatches, hr] at hsup
    rw [← hsup.2]
    exact hl.backed.balance_le _ _
  obtain ⟨s, hs⟩ := burn_succeeds (s := v.shares) ho (le_refl (v.shares.balanceOf v.winningOutcome owner))
  simp only [claimWinningsFor]
  rw [revertIf_neg _ (by simp [hr]), ok_bind, rejectProtocolMarketplaceOwner_eq_ok (u := ()) |>.mpr (.inr hm), ok_bind,
    revertIf_neg _ hb, ok_bind, consumeRemainingPool_eq_ok.mpr ⟨hb, hle, rfl⟩, ok_bind, checkedSub_of_le _ hle, ok_bind,
    checkedSub_of_le _ (share_le _ hle), ok_bind, hs, ok_bind]
  exact ⟨_, rfl⟩

theorem claimEarlyBirdFor_succeeds (hl : v.Ledger) (hr : v.marketState = .resolved) (hs : v.earlyBirdScore owner ≠ 0)
    (hp : v.remainingEarlyBirdPool ≠ 0) :
    ∃ v', v.claimEarlyBirdFor owner = .ok (v', v.earlyBirdScore owner,
      share (v.earlyBirdScore owner) v.remainingEarlyBirdScore v.remainingEarlyBirdPool) := by
  have hle : v.earlyBirdScore owner ≤ v.remainingEarlyBirdScore := by
    have hsum := hl.score_sum
    simp only [currentScore, hr] at hsum
    rw [← hsum]
    exact le_sum v.earlyBirdScore (mem_univ owner)
  simp only [claimEarlyBirdFor]
  rw [show Packing.high 128 (v.packedBuyerAccounting owner) = v.earlyBirdScore owner from rfl,
    revertIf_neg _ (by simp [hr]), ok_bind, revertIf_neg _ (by simp only [not_or]; exact ⟨hs, hp⟩), ok_bind,
    consumeRemainingPool_eq_ok.mpr ⟨hs, hle, rfl⟩, ok_bind, checkedSub_of_le _ hle, ok_bind,
    checkedSub_of_le _ (share_le _ hle), ok_bind]
  exact ⟨_, rfl⟩

theorem burnAll_succeeds (ho : owner ≠ 0) : ∀ (ids : List Nat) (s : Shares), ∃ s', burnAll owner ids s = .ok s'
  | [], s => ⟨s, rfl⟩
  | id :: rest, s => by
    have hone : ∃ t, burnHeld owner id s = .ok t := by
      unfold burnHeld
      split
      · exact burn_succeeds ho le_rfl
      · exact ⟨s, rfl⟩
    obtain ⟨t, ht⟩ := hone
    obtain ⟨s', hs'⟩ := burnAll_succeeds ho rest t
    exact ⟨s', by unfold burnAll; rw [ht]; exact hs'⟩

theorem heldUnits_le (hl : v.Ledger) (hv : v.marketState = .voided) :
    v.heldUnits owner ≤ v.remainingRefundPrincipal := by
  have hsup := hl.supply
  simp only [SupplyMatches, hv] at hsup
  rw [← hsup]
  exact sum_le_sum fun o _ => hl.backed.balance_le o owner

theorem heldUnits_zero (hl : v.Ledger) : v.heldUnits 0 = 0 := sum_eq_zero fun o _ => hl.noZero o

theorem refundFor_succeeds (hl : v.Ledger) (hv : v.marketState = .voided) (hm : owner ≠ marketplace)
    (hb : v.heldUnits owner ≠ 0) : ∃ v', v.refundFor marketplace owner = .ok (v', v.heldUnits owner) := by
  have ho : owner ≠ 0 := by rintro rfl; exact hb (heldUnits_zero hl)
  obtain ⟨s, hs⟩ := burnAll_succeeds ho (List.range v.init.outcomeCount) v.shares
  simp only [refundFor]
  rw [revertIf_neg _ (by simp [hv]), ok_bind, rejectProtocolMarketplaceOwner_eq_ok (u := ()) |>.mpr (.inr hm), ok_bind,
    revertIf_neg _ hb, ok_bind, checkedSub_of_le _ (heldUnits_le hl hv), ok_bind, hs, ok_bind]
  exact ⟨_, rfl⟩

theorem claimTimeoutBonusFor_succeeds (hp : v.Pools) (hf : v.timeoutBonusFunded = true)
    (hu : v.timeoutBonusUnits owner ≠ 0) :
    ∃ v', v.claimTimeoutBonusFor owner = .ok (v', v.timeoutBonusUnits owner,
      share (v.timeoutBonusUnits owner) v.remainingTimeoutBonusUnits v.remainingTimeoutBonusPool) := by
  have hreason : v.voidReason = .timeout := by
    refine Decidable.byContradiction fun hn => ?_
    rw [(hp.not_timeout hn).1] at hf
    cases hf
  have hle : v.timeoutBonusUnits owner ≤ v.remainingTimeoutBonusUnits := by
    have hsum := hp.bonus_sum hreason
    rw [if_pos hf] at hsum
    have := le_sum v.timeoutBonusUnits (mem_univ owner)
    omega
  exact ⟨_, claimTimeoutBonusFor_eq_ok.mpr ⟨hf, rfl, hu, hle, rfl, share_le _ hle, rfl⟩⟩

/-! ## What is left when everything has been claimed -/

/-- Nobody is entitled to anything from the vault. -/
def AllClaimed (v : Vault) : Prop :=
  match v.marketState with
  | .open => False
  | .resolved => (∀ u, v.shares.balanceOf v.winningOutcome u = 0) ∧
      ∀ u, v.earlyBirdScore u = 0 ∨ v.remainingEarlyBirdPool = 0
  | .voided => (∀ u, v.heldUnits u = 0) ∧ ∀ u, v.timeoutBonusUnits u = 0 ∨ v.timeoutBonusFunded = false

theorem sum_heldUnits (hl : v.Ledger) :
    ∑ u, v.heldUnits u = ∑ o ∈ range v.init.outcomeCount, v.shares.totalSupply o := by
  unfold heldUnits
  rw [sum_comm]
  exact sum_congr rfl fun o _ => hl.backed o

theorem liabilities_of_allClaimed (hl : v.Ledger) (hp : v.Pools) (h : v.AllClaimed) : v.liabilities = 0 := by
  unfold AllClaimed at h
  unfold liabilities
  cases hs : v.marketState <;> rw [hs] at h <;> simp only at h ⊢
  case resolved =>
    have hsup := hl.supply
    have hscore := hl.score_sum
    simp only [SupplyMatches, currentScore, hs] at hsup hscore
    have hwinner : v.remainingWinnerPool = 0 := by
      refine hp.winner_empty hs ?_
      rw [← hsup.2, ← hl.backed]
      exact sum_eq_zero fun u _ => h.1 u
    have hearly : v.remainingEarlyBirdPool = 0 := by
      refine Decidable.byContradiction fun hn => hn (hp.early_empty hs ?_)
      rw [← hscore]
      exact sum_eq_zero fun u _ => (h.2 u).resolve_right hn
    omega
  case voided =>
    have hsup := hl.supply
    simp only [SupplyMatches, hs] at hsup
    have hrefund : v.remainingRefundPrincipal = 0 := by
      rw [← hsup, ← sum_heldUnits hl]
      exact sum_eq_zero fun u _ => h.1 u
    cases hf : v.timeoutBonusFunded with
    | false => rw [hrefund, hp.unfunded hf]
    | true =>
      have hreason : v.voidReason = .timeout := by
        refine Decidable.byContradiction fun hn => ?_
        rw [(hp.not_timeout hn).1] at hf
        cases hf
      have hsum := hp.bonus_sum hreason
      rw [if_pos hf, hrefund, sum_eq_zero fun u _ => (h.2 u).resolve_right (by rw [hf]; decide)] at hsum
      rw [hrefund, hp.bonus_empty hf hsum.symm]

end Vault

namespace Core

variable {D : Deployment} {w w' : Core} {m : Address}

theorem liabilities_le_balance (h : Sound D w) (hm : w.factory.isMarket m = true) :
    (w.vaults m).liabilities ≤ w.token.balanceOf m := by
  obtain ⟨hmkt, _⟩ := h.markets m hm
  have := hmkt.conserved
  have := hmkt.received
  have := h.booked m
  omega

/-! ## Payments go through -/

/-- The payment token refuses a transfer for a reason of its own. -/
def Refused (w : Core) (source target : Address) (amount : Nat) (e : Err) : Prop :=
  e = .ERC20Refused ∧ w.token.refuses source target amount = true

theorem pay_ends {source target : Address} {amount : Nat} (h : amount ≤ w.token.balanceOf source) :
    Ends (w.pay source target amount) (fun _ => True) (Refused w source target amount) := by
  unfold pay Token.transfer
  cases hr : w.token.refuses source target amount with
  | true => exact ⟨rfl, hr⟩
  | false => simp [not_lt.mpr h, Ends]

theorem accrue_ends {sender beneficiary : Address} (amount : Nat) (kind : FeeKind) (ref : FeeReference)
    (ha : w.feeVault.authorizedAccruer sender = true) (hb : beneficiary ≠ 0)
    (hc : w.feeVault.credits.totalCredits + amount ≤ w.token.balanceOf D.feeVault) :
    ∃ w', w.accrue D sender beneficiary amount kind ref = .ok w' ∧
      w'.feeVault.authorizedAccruer = w.feeVault.authorizedAccruer ∧
      w'.feeVault.credits.totalCredits = w.feeVault.credits.totalCredits + amount ∧ w'.token = w.token ∧
      w'.vaults = w.vaults := by
  unfold accrue FeeVault.accrue
  rw [revertIf_neg _ (by simp [ha]), ok_bind, revertIf_neg _ hb, ok_bind]
  split
  · rename_i hz
    exact ⟨_, rfl, rfl, by simp [hz], rfl, rfl⟩
  · rename_i hz
    rw [revertIf_neg _ (not_lt.mpr hc), ok_bind]
    exact ⟨_, rfl, rfl, by simp [emit, Credits.add], by simp [emit], by simp [emit]⟩

/-- What has just been paid in can be accrued, in two parts. -/
theorem accrue_paid (w₁ : Core) {sender first second : Address} {amount rest : Nat} (kind kind' : FeeKind)
    (ref ref' : FeeReference) (hw : Wired D w) (ha : w.feeVault.authorizedAccruer sender = true) (h₁ : first ≠ 0)
    (h₂ : second ≠ 0) (hf : w₁.feeVault = w.feeVault)
    (hb : w₁.token.balanceOf D.feeVault = w.token.balanceOf D.feeVault + (amount + rest)) :
    ∃ w₂ w₃, w₁.accrue D sender first amount kind ref = .ok w₂ ∧
      w₂.accrue D sender second rest kind' ref' = .ok w₃ ∧ w₃.token = w₁.token ∧ w₂.vaults = w₁.vaults ∧
      w₃.vaults = w₁.vaults := by
  have hcov := hw.feeCredits
  obtain ⟨w₂, hw₂, hauth, htotal, htoken, hv₂⟩ := accrue_ends (D := D) amount kind ref (by rw [hf]; exact ha) h₁
    (w := w₁) (by rw [hf, hb]; omega)
  obtain ⟨w₃, hw₃, _, _, htoken', hv₃⟩ := accrue_ends (D := D) rest kind' ref' (by rw [hauth, hf]; exact ha) h₂
    (w := w₂) (by rw [htotal, htoken, hf, hb]; omega)
  exact ⟨w₂, w₃, hw₂, hw₃, htoken'.trans htoken, hv₂, hv₃.trans hv₂⟩

/-- The rake is paid and accrued, unless the token refuses. -/
theorem payRake_ends {b : PayoutBreakdown} (hw : Wired D w) (hm : w.factory.isMarket m = true)
    (hp : (w.vaults m).init.economics.protocolTreasury ≠ 0) (ht : (w.vaults m).terms.creatorTreasury ≠ 0)
    (hb : b.protocolFee + b.creatorFee ≤ w.token.balanceOf m) :
    Ends (payRake D w m b) (fun w' => w'.vaults = w.vaults ∧
        w.token.balanceOf m ≤ w'.token.balanceOf m + (b.protocolFee + b.creatorFee))
      (Refused w m D.feeVault (b.protocolFee + b.creatorFee)) := by
  unfold payRake
  simp only
  split
  · exact ⟨rfl, by omega⟩
  · refine Ends.bind (pay_ends hb) fun w₁ h₁ _ => ?_
    have hne := (hw.market_ne hm).1
    obtain ⟨hle, hw₁⟩ := pay_eq_ok h₁
    obtain ⟨w₂, w₃, h₂, h₃, ht₃, hv₂, hv₃⟩ := accrue_paid (D := D) w₁ .protocolRake .creatorRake (.market m) (.market m)
      hw (hw.accruers m hm) hp ht (by rw [hw₁]) (by rw [hw₁]; exact move_to _ _ hne)
    rw [h₂, ok_bind, h₃]
    refine ⟨hv₃.trans (by rw [hw₁]), ?_⟩
    rw [ht₃, hw₁]
    simp only [move_from _ _ hne]
    omega

/-! ## The coverage check -/

/-- An error that no coverage check raises. -/
def NotInsolvent (e : Err) : Prop := ∀ balance liabilities, e ≠ .Insolvent balance liabilities

def isInsolvent : Err → Bool
  | .Insolvent .. => true
  | _ => false

theorem notInsolvent_of {e : Err} (h : isInsolvent e = false) : NotInsolvent e := by
  rintro balance liabilities rfl
  cases h

theorem notInsolvent_of_accrue (e : Err) (h : e.ofAccrue = false) : NotInsolvent e := by
  rintro balance liabilities rfl
  cases h

theorem Refused.notInsolvent {source target : Address} {amount : Nat} {e : Err} (h : Refused w source target amount e) :
    NotInsolvent e := by
  rw [h.1]
  exact notInsolvent_of rfl

theorem resolve_vault_ends {E : Err → Prop} (hE : ∀ e, e.ofAccrue = false → E e) (v : Vault) (now : Nat)
    (caller : Address) (outcomeId : Nat) : Ends (v.resolve now caller outcomeId) (fun _ => True) E := by
  simp only [Vault.resolve]
  iterate 5 refine Ends.revertIf (fun _ => hE _ rfl) fun _ => ?_
  split
  · trivial
  · unfold Vault.toUint8
    by_cases hbig : 2 ^ 8 ≤ outcomeId
    · rw [revertIf_pos _ hbig]; exact hE _ rfl
    · rw [revertIf_neg _ hbig]; trivial

/-- The accruals and the coverage check of `resolve` never fail. -/
theorem resolve_covered {E : Err → Prop} (hE : ∀ e, e.ofAccrue = false → E e) (h : Sound D w) (caller : Address)
    (outcomeId : Nat) (evidenceHash : Bytes32) :
    Ends (resolve D w caller m outcomeId evidenceHash) (fun _ => True) E := by
  unfold resolve requireMarket
  refine Ends.revertIf (fun _ => hE _ rfl) fun hm => ?_
  have hm : w.factory.isMarket m = true := by simpa using hm
  refine Ends.bind (resolve_vault_ends hE _ _ _ _) fun x hx _ => ?_
  obtain ⟨v, payouts⟩ := x
  cases payouts with
  | none => trivial
  | some b =>
    obtain ⟨hmkt, _⟩ := h.markets m hm
    have hstep : VaultStep D m w.now (w.vaults m) v _ _ := .resolve caller outcomeId evidenceHash v b hx
    obtain ⟨hcons, _⟩ := hstep.conserves hmkt.configured hmkt.pools
    rw [sent_fees] at hcons
    have hinit := hstep.configured hmkt.configured
    have hbal := liabilities_le_balance h hm
    have hself : (w.setVault m v).vaults m = v := Function.update_self _ _ _
    simp only [Option.toList, tally_cons, tally_nil, VaultEvent.income] at hcons
    have hwired : Wired D (w.setVault m v) := h.wired.setVault v
    have hrake := payRake_ends (b := b) hwired hm (by rw [hself]; exact hinit.economics.treasury)
      (by rw [hself]; exact hinit.treasury)
      (show b.protocolFee + b.creatorFee ≤ (w.setVault m v).token.balanceOf m from
        show b.protocolFee + b.creatorFee ≤ w.token.balanceOf m by omega)
    refine Ends.bind (hrake.mono (fun _ h => h) fun e he => by rw [he.1]; exact hE _ rfl) fun w₁ _ hw₁ => ?_
    obtain ⟨hv₁, hb₁⟩ := hw₁
    have hcov : ¬w₁.token.balanceOf m < (w₁.vaults m).liabilities := by
      rw [hv₁, hself]
      change w.token.balanceOf m ≤ _ at hb₁
      omega
    unfold assertCoverage
    rw [revertIf_neg _ hcov]
    trivial

/-- The bonus is recorded, reported to the guard and covered. -/
theorem fundTimeoutBonus_succeeds {caller : Address} {amount : Nat} {v : Vault} (hm : w.factory.isMarket m = true)
    (hb : w.guard.Balanced) (hr : w.guard.registeredMarket m = true)
    (hv : (w.vaults m).fundTimeoutBonus caller amount = .ok v) (hc : v.liabilities ≤ w.token.balanceOf m) :
    ∃ w', fundTimeoutBonus w caller m amount = .ok w' := by
  have hself : (w.setVault m v).vaults m = v := Function.update_self _ _ _
  obtain ⟨g, previous, current, hg⟩ := Guard.sync_succeeds hb hr v.guardExposure
  have hsync : ∃ w₁, (w.setVault m v).sync m = .ok (w₁, previous, current) ∧ w₁.token = w.token ∧
      w₁.vaults = (w.setVault m v).vaults := by
    unfold sync
    rw [hself, show (w.setVault m v).guard = w.guard from rfl, hg, ok_bind]
    refine ⟨_, rfl, ?_, ?_⟩ <;> split <;> rfl
  obtain ⟨w₁, h₁, ht, hvs⟩ := hsync
  unfold fundTimeoutBonus assertCoverage
  rw [requireMarket_eq_ok (u := ()) |>.mpr hm, ok_bind, hv, ok_bind, h₁, ok_bind]
  simp only
  rw [hvs, ht, hself, revertIf_neg _ (not_lt.mpr hc), ok_bind]
  exact ⟨_, rfl⟩

theorem bond_le_locked (h : Sound D w) (hs : (w.escrow.bondOf m).settled = false) :
    (w.escrow.bondOf m).amount ≤ w.escrow.totalLocked := by
  have := le_sum (fun a => lockedAmount (w.escrow.bondOf a)) (mem_univ m)
  rw [h.escrow.locked]
  simpa [lockedAmount, hs] using this

theorem bond_creator_ne_zero (h : Sound D w) (hm : w.factory.isMarket m = true) : (w.escrow.bondOf m).creator ≠ 0 := by
  obtain ⟨hmkt, hbond⟩ := h.markets m hm
  intro h0
  have hout := hmkt.configured.creator_outside
  rw [← hbond.creator, h0, D.zero_outside] at hout
  cases hout

/-- A bond that can be settled is settled, unless the token refuses to move it. -/
theorem settleBond_ends (h : Sound D w) (hm : w.factory.isMarket m = true) (ho : (w.vaults m).marketState ≠ .open)
    (hs : (w.escrow.bondOf m).settled = false) :
    Ends (settleBond D w m) (fun _ => True) (Refused w D.bondEscrow m (w.escrow.bondOf m).amount) := by
  obtain ⟨hmkt, hbond⟩ := h.markets m hm
  have hle := bond_le_locked h hs
  have hunlock := Escrow.unlock_eq_ok.mpr ⟨hle, rfl, rfl⟩
  unfold settleBond
  rw [revertIf_neg _ (bond_creator_ne_zero h hm), ok_bind, revertIf_neg _ (by simp [hs]), ok_bind, revertIf_neg _ ho,
    ok_bind, hunlock,
    ok_bind]
  simp only
  split
  · rename_i hd
    have hcov := h.escrow.covered
    refine Ends.bind (pay_ends (show (w.escrow.bondOf m).amount ≤ w.token.balanceOf D.bondEscrow by omega))
      fun w₁ h₁ _ => ?_
    have hk := kept_pay h₁
    obtain ⟨_, hw₁⟩ := pay_eq_ok h₁
    have hne : D.bondEscrow ≠ m := (h.wired.market_ne hm).2.1.symm
    have hvoid : (w.vaults m).marketState = .voided ∧ (w.vaults m).voidReason = .timeout := by
      simpa [timedOut] using hd.1
    have hunfunded : (w.vaults m).timeoutBonusFunded = false := by
      cases hf : (w.vaults m).timeoutBonusFunded with
      | false => rfl
      | true => rw [(hbond.funded.mp hf).1] at hs; cases hs
    have hamount : (w.escrow.bondOf m).amount ≠ 0 := by rw [hbond.amount]; exact hmkt.configured.bond.ne'
    have hfund := Vault.fundTimeoutBonus_eq_ok.mpr
      ⟨hmkt.configured.bondEscrow.symm, hvoid.1, hvoid.2, hunfunded, hamount, rfl⟩
    have hstep : VaultStep D m w.now (w.vaults m) _ _ _ := .fundTimeoutBonus _ _ 0 0 hne hd.2 hfund
    obtain ⟨hcons, _⟩ := hstep.conserves hmkt.configured hmkt.pools
    simp only [Option.toList, tally_cons, tally_nil, Payment.sent, if_neg hne, VaultEvent.income] at hcons
    have hbal := liabilities_le_balance h hm
    have hto : w₁.token.balanceOf m = w.token.balanceOf m + (w.escrow.bondOf m).amount := by
      rw [hw₁]; exact move_to _ _ hne
    obtain ⟨w', hw'⟩ := fundTimeoutBonus_succeeds (w := w₁) (m := m) (by rw [hk.factory]; exact hm)
      (by rw [hw₁]; exact h.wired.balanced) (by rw [hw₁]; exact h.wired.registered m hm)
      (by rw [hk.vaults]; exact hfund)
      (by rw [hto]; omega)
    rw [hw', ok_bind]
    trivial
  · trivial

/-- The coverage check of `fundTimeoutBonus` never fails. -/
theorem settleBond_covered (h : Sound D w) (hm : w.factory.isMarket m = true) :
    Ends (settleBond D w m) (fun _ => True) NotInsolvent := by
  by_cases hs : (w.escrow.bondOf m).settled = true
  · unfold settleBond
    refine Ends.revertIf (fun _ => notInsolvent_of rfl) fun _ => ?_
    rw [revertIf_pos _ hs]
    nofun
  · by_cases ho : (w.vaults m).marketState = .open
    · unfold settleBond
      refine Ends.revertIf (fun _ => notInsolvent_of rfl) fun _ => ?_
      refine Ends.revertIf (fun _ => notInsolvent_of rfl) fun _ => ?_
      rw [revertIf_pos _ ho]
      nofun
    · exact (settleBond_ends h hm ho (by simpa using hs)).mono (fun _ h => h) fun _ => Refused.notInsolvent

/-! ## Claims are paid -/

/-- A claim of `owner` on the vault is paid `amount`, unless the token refuses the transfer. -/
def Paid (w : Core) (m owner : Address) (amount : Nat) (x : Except Err Core) : Prop :=
  Ends x (fun w' => paidBy m w'.log = paidBy m w.log + amount) (Refused w m owner amount)

/-- A payment that a vault's step makes is within its balance. -/
theorem payout_le {v' : Vault} {e : VaultEvent} {owner : Address} {amount : Nat} (h : Sound D w)
    (hm : w.factory.isMarket m = true)
    (hs : VaultStep D m w.now (w.vaults m) v' (some e) (some ⟨m, owner, amount⟩)) (he : e.income = 0) :
    amount ≤ w.token.balanceOf m := by
  obtain ⟨hmkt, _⟩ := h.markets m hm
  obtain ⟨hcons, _⟩ := hs.conserves hmkt.configured hmkt.pools
  have := liabilities_le_balance h hm
  simp only [Option.toList, tally_cons, tally_nil, Payment.sent, if_true, he] at hcons
  omega

/-- The last part of every claim: the payment and the event of the claim. -/
theorem pay_claim_ends {v : Vault} {es : List Event} {owner : Address} {amount : Nat} {e : VaultEvent}
    (hq : ∀ x ∈ es, Quiet x) (hle : amount ≤ w.token.balanceOf m) (he : e.isMilestone = true) :
    Paid w m owner amount
      (((w.setVault m v).emitAll es).pay m owner amount >>= fun w => .ok (w.emit (.vault m e))) := by
  have hpay : Ends (((w.setVault m v).emitAll es).pay m owner amount) (fun _ => True) (Refused w m owner amount) :=
    pay_ends (w := (w.setVault m v).emitAll es) hle
  refine Ends.bind hpay fun w₁ h₁ _ => ?_
  have ht := (((trace_setVault v).trans (trace_emitAll hq)).trans (trace_pay h₁)).trans
    (show Trace w₁ (w₁.emit (.vault m e)) _ _ from trace_milestone he)
  show paidBy m _ = _
  rw [ht.paidBy]
  simp [Payment.sent]

/-- Every claim that its owner is entitled to is paid, unless the token refuses the transfer. -/
structure Payable (D : Deployment) (w : Core) (m : Address) : Prop where
  winnings : ∀ caller owner, (w.vaults m).marketState = .resolved → owner ≠ D.marketplace →
    (w.vaults m).shares.balanceOf (w.vaults m).winningOutcome owner ≠ 0 →
    Paid w m owner (share ((w.vaults m).shares.balanceOf (w.vaults m).winningOutcome owner)
      (w.vaults m).remainingWinningUnits (w.vaults m).remainingWinnerPool) (claimWinningsFor D w caller m owner)
  earlyBird : ∀ caller owner, (w.vaults m).marketState = .resolved → (w.vaults m).earlyBirdScore owner ≠ 0 →
    (w.vaults m).remainingEarlyBirdPool ≠ 0 →
    Paid w m owner (share ((w.vaults m).earlyBirdScore owner) (w.vaults m).remainingEarlyBirdScore
      (w.vaults m).remainingEarlyBirdPool) (claimEarlyBirdFor w caller m owner)
  refund : ∀ caller owner, (w.vaults m).marketState = .voided → owner ≠ D.marketplace →
    (w.vaults m).heldUnits owner ≠ 0 → Paid w m owner ((w.vaults m).heldUnits owner) (refundFor D w caller m owner)
  timeoutBonus : ∀ caller owner, (w.vaults m).timeoutBonusFunded = true → (w.vaults m).timeoutBonusUnits owner ≠ 0 →
    Paid w m owner (share ((w.vaults m).timeoutBonusUnits owner) (w.vaults m).remainingTimeoutBonusUnits
      (w.vaults m).remainingTimeoutBonusPool) (claimTimeoutBonusFor w caller m owner)

theorem claims_payable (h : Sound D w) (hm : w.factory.isMarket m = true) : Payable D w m := by
  obtain ⟨hmkt, _⟩ := h.markets m hm
  have hreq := requireMarket_eq_ok (u := ()) |>.mpr hm
  refine ⟨?_, ?_, ?_, ?_⟩
  · intro caller owner hr hne hb
    obtain ⟨v', hv'⟩ := Vault.claimWinningsFor_succeeds hmkt.ledger hr hne hb
    have hle := payout_le h hm (.claimWinningsFor caller owner v' _ _ hv') rfl
    simp only [claimWinningsFor]
    rw [hreq, ok_bind, hv', ok_bind]
    refine pay_claim_ends (fun x hx => ?_) hle rfl
    rcases List.mem_append.mp hx with hx | hx
    · exact quiet_finalRemainder _ _ _ _ _ _ x hx
    · exact quiet_singleton ⟨rfl, rfl⟩ x hx
  · intro caller owner hr hs hp
    obtain ⟨v', hv'⟩ := Vault.claimEarlyBirdFor_succeeds hmkt.ledger hr hs hp
    have hle := payout_le h hm (.claimEarlyBirdFor caller owner v' _ _ hv') rfl
    simp only [claimEarlyBirdFor]
    rw [hreq, ok_bind, hv', ok_bind]
    exact pay_claim_ends (quiet_finalRemainder _ _ _ _ _ _) hle rfl
  · intro caller owner hv hne hb
    obtain ⟨v', hv'⟩ := Vault.refundFor_succeeds hmkt.ledger hv hne hb
    have hle := payout_le h hm (.refundFor caller owner v' _ hv') rfl
    simp only [refundFor]
    rw [hreq, ok_bind, hv', ok_bind]
    refine pay_claim_ends (fun x hx => ?_) hle rfl
    obtain ⟨_, _, rfl⟩ := List.mem_map.mp hx
    exact ⟨rfl, rfl⟩
  · intro caller owner hf hu
    obtain ⟨v', hv'⟩ := Vault.claimTimeoutBonusFor_succeeds hmkt.pools hf hu
    have hle := payout_le h hm (.claimTimeoutBonusFor caller owner v' _ _ hv') rfl
    simp only [claimTimeoutBonusFor]
    rw [hreq, ok_bind, hv', ok_bind]
    exact pay_claim_ends (quiet_finalRemainder _ _ _ _ _ _) hle rfl

/-! ## The whole life of a market -/

/-- In every reachable state a vault holds what it owes. So its coverage check never fails, entitled claims are paid,
and over the whole run it has paid out what it received less what it owes, with nothing left once all is claimed. -/
theorem vault_solvency (hr : Reachable D w) (hm : w.factory.isMarket m = true) :
    (w.vaults m).liabilities ≤ w.token.balanceOf m ∧
      ((∀ caller outcomeId evidenceHash,
          Ends (resolve D w caller m outcomeId evidenceHash) (fun _ => True) NotInsolvent) ∧
        Ends (settleBond D w m) (fun _ => True) NotInsolvent) ∧
      Payable D w m ∧
      paidBy m w.log + (w.vaults m).liabilities =
        total VaultEvent.purchasedUnits (milestones m w.log) + total VaultEvent.bonusFunded (milestones m w.log) ∧
      total VaultEvent.purchasedUnits (milestones m w.log) + total VaultEvent.bonusFunded (milestones m w.log) ≤
        paidTo m w.log ∧
      ((w.vaults m).AllClaimed → paidBy m w.log =
        total VaultEvent.purchasedUnits (milestones m w.log) + total VaultEvent.bonusFunded (milestones m w.log)) ∧
      ((w.vaults m).calculatePayouts.protocolFee + (w.vaults m).calculatePayouts.creatorFee +
          (w.vaults m).calculatePayouts.earlyBirdPool + (w.vaults m).calculatePayouts.winnerPool =
          (w.vaults m).totalPrincipal ∧
        9 * (w.vaults m).totalPrincipal ≤ 10 * (w.vaults m).calculatePayouts.winnerPool) ∧
      ((w.vaults m).marketState = .resolved → (w.vaults m).payoutBreakdown = (w.vaults m).calculatePayouts) := by
  have h := Reachable.sound hr
  obtain ⟨hmkt, _⟩ := h.markets m hm
  have hcons : paidBy m w.log + (w.vaults m).liabilities =
      total VaultEvent.purchasedUnits (milestones m w.log) + total VaultEvent.bonusFunded (milestones m w.log) := by
    rw [hmkt.conserved, hmkt.history.income, hmkt.history.principal]
  refine ⟨liabilities_le_balance h hm,
    ⟨fun _ _ _ => resolve_covered notInsolvent_of_accrue h _ _ _, settleBond_covered h hm⟩,
    claims_payable h hm, hcons, ?_, fun hall => ?_, Vault.calculatePayouts_split _ hmkt.configured.economics,
    hmkt.pools.breakdown⟩
  · rw [hmkt.history.principal, ← hmkt.history.income]
    exact hmkt.received
  · rw [Vault.liabilities_of_allClaimed hmkt.ledger hmkt.pools hall] at hcons
    exact hcons

end Core

/-- The sample market after its resolution: it has paid the rake, and owes the rest of the principal. -/
theorem vault_solvency_sample :
    ((Sample.played Sample.resolution).vaults Sample.market).liabilities ≤
        (Sample.played Sample.resolution).token.balanceOf Sample.market ∧
      ((Sample.played Sample.resolution).vaults Sample.market).liabilities = 3664000 ∧
      paidBy Sample.market (Sample.played Sample.resolution).log = 336000 :=
  ⟨(Core.vault_solvency (Sample.played_reachable _) (by decide +kernel)).1, by decide +kernel, by decide +kernel⟩

end Cpredict
