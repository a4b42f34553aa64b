import Cpredict.Entitlements.Hydrate

/-!
# Displayed rights are what the contracts pay

Between the two stands `due`: what a vault owes an owner on a claim of each kind, none where there is nothing to
claim. The claim succeeds exactly when something is due, and pays it (`claim_due`); the row of a candidate that is
read from the vault's state is claimable exactly then, with that amount (`hydrateMarket_due`). So in every reachable
state the rows that are displayed tell what the calls do (`hydrate_told`).
-/

namespace Cpredict

namespace Entitlements

open Core Outcome ProRata

variable {D : Deployment} {w w' : Core} {v : Vault} {m owner caller : Address} {kind : EntitlementKind}

/-! ## What is due -/

/-- What the vault owes on a claim. -/
def due (v : Vault) (owner : Address) : EntitlementKind → Option Nat
  | .winner =>
    if v.marketState = .resolved ∧ v.shares.balanceOf v.winningOutcome owner ≠ 0 then
      some (share (v.shares.balanceOf v.winningOutcome owner) v.remainingWinningUnits v.remainingWinnerPool)
    else none
  | .earlyBird =>
    if v.marketState = .resolved ∧ v.earlyBirdScore owner ≠ 0 ∧ v.remainingEarlyBirdPool ≠ 0 then
      some (share (v.earlyBirdScore owner) v.remainingEarlyBirdScore v.remainingEarlyBirdPool)
    else none
  | .refund => if v.marketState = .voided ∧ v.heldUnits owner ≠ 0 then some (v.heldUnits owner) else none
  | .timeoutBonus =>
    if v.timeoutBonusFunded = true ∧ v.timeoutBonusUnits owner ≠ 0 then
      some (share (v.timeoutBonusUnits owner) v.remainingTimeoutBonusUnits v.remainingTimeoutBonusPool)
    else none
  | _ => none

/-- The call that claims a right on a market. -/
def claimCall (D : Deployment) (w : Core) (caller m owner : Address) : EntitlementKind → Option (Except Err Core)
  | .winner => some (claimWinningsFor D w caller m owner)
  | .earlyBird => some (claimEarlyBirdFor w caller m owner)
  | .refund => some (refundFor D w caller m owner)
  | .timeoutBonus => some (claimTimeoutBonusFor w caller m owner)
  | _ => none

/-- The call succeeds, and all that it does to the payment token is to pay `amount` from the market to the owner. -/
def Pays (w : Core) (m owner : Address) (amount : Nat) (call : Except Err Core) : Prop :=
  ∃ w', call = .ok w' ∧ w.token.transfer m owner amount = .ok w'.token

/-! ## The calls pay what is due -/

theorem pay_token {amount : Nat} (h : w.pay m owner amount = .ok w') :
    w.token.transfer m owner amount = .ok w'.token := by
  simp only [Core.pay, bind_eq_ok, Except.ok.injEq] at h
  obtain ⟨token, htoken, rfl⟩ := h
  exact htoken

theorem claimWinningsFor_due (h : claimWinningsFor D w caller m owner = .ok w') :
    ∃ amount, due (w.vaults m) owner .winner = some amount ∧ w.token.transfer m owner amount = .ok w'.token := by
  unfold claimWinningsFor at h
  obtain ⟨_, _, h⟩ := bind_eq_ok.mp h
  obtain ⟨⟨v, units, payout⟩, hv, h⟩ := bind_eq_ok.mp h
  obtain ⟨hr, rfl, hne, _, rfl, _⟩ := Vault.claimWinningsFor_eq_ok hv
  obtain ⟨w₁, hp, he⟩ := bind_eq_ok.mp h
  obtain rfl := Except.ok.inj he
  have ht := pay_token hp
  exact ⟨_, if_pos ⟨hr, hne⟩, ht⟩

theorem claimEarlyBirdFor_due (h : claimEarlyBirdFor w caller m owner = .ok w') :
    ∃ amount, due (w.vaults m) owner .earlyBird = some amount ∧ w.token.transfer m owner amount = .ok w'.token := by
  unfold claimEarlyBirdFor at h
  obtain ⟨_, _, h⟩ := bind_eq_ok.mp h
  obtain ⟨⟨v, score, reward⟩, hv, h⟩ := bind_eq_ok.mp h
  have hpool : (w.vaults m).remainingEarlyBirdPool ≠ 0 := by
    simp only [Vault.claimEarlyBirdFor, bind_eq_ok, revertIf_eq_ok, not_or] at hv
    obtain ⟨_, _, _, ⟨_, hpool⟩, _⟩ := hv
    exact hpool
  obtain ⟨hr, rfl, hne, _, rfl, _⟩ := Vault.claimEarlyBirdFor_eq_ok hv
  obtain ⟨w₁, hp, he⟩ := bind_eq_ok.mp h
  obtain rfl := Except.ok.inj he
  have ht := pay_token hp
  exact ⟨_, if_pos ⟨hr, hne, hpool⟩, ht⟩

theorem refundFor_due (h : refundFor D w caller m owner = .ok w') :
    ∃ amount, due (w.vaults m) owner .refund = some amount ∧ w.token.transfer m owner amount = .ok w'.token := by
  unfold refundFor at h
  obtain ⟨_, _, h⟩ := bind_eq_ok.mp h
  obtain ⟨⟨v, amount⟩, hv, h⟩ := bind_eq_ok.mp h
  obtain ⟨hr, rfl, hne, _⟩ := Vault.refundFor_eq_ok hv
  obtain ⟨w₁, hp, he⟩ := bind_eq_ok.mp h
  obtain rfl := Except.ok.inj he
  have ht := pay_token hp
  exact ⟨_, if_pos ⟨hr, hne⟩, ht⟩

theorem claimTimeoutBonusFor_due (h : claimTimeoutBonusFor w caller m owner = .ok w') :
    ∃ amount, due (w.vaults m) owner .timeoutBonus = some amount ∧ w.token.transfer m owner amount = .ok w'.token := by
  unfold claimTimeoutBonusFor at h
  obtain ⟨_, _, h⟩ := bind_eq_ok.mp h
  obtain ⟨⟨v, units, reward⟩, hv, h⟩ := bind_eq_ok.mp h
  obtain ⟨hf, rfl, hne, _, rfl, _⟩ := Vault.claimTimeoutBonusFor_eq_ok.mp hv
  obtain ⟨w₁, hp, he⟩ := bind_eq_ok.mp h
  obtain rfl := Except.ok.inj he
  have ht := pay_token hp
  exact ⟨_, if_pos ⟨hf, hne⟩, ht⟩

/-- A claim that succeeds pays what is due. -/
theorem due_of_claim {call : Except Err Core} (hc : claimCall D w caller m owner kind = some call) (h : call = .ok w') :
    ∃ amount, due (w.vaults m) owner kind = some amount ∧ w.token.transfer m owner amount = .ok w'.token := by
  subst h
  cases kind with
  | winner => exact claimWinningsFor_due (Option.some.inj hc)
  | earlyBird => exact claimEarlyBirdFor_due (Option.some.inj hc)
  | refund => exact refundFor_due (Option.some.inj hc)
  | timeoutBonus => exact claimTimeoutBonusFor_due (Option.some.inj hc)
  | _ => cases hc

/-- A payment that the token does not refuse goes through. -/
theorem ok_of_paid {amount : Nat} {x : Except Err Core} (h : Paid w m owner amount x)
    (hpay : w.token.refuses m owner amount = false) : ∃ w', x = .ok w' := by
  cases x with
  | ok w' => exact ⟨w', rfl⟩
  | error e =>
    have hr : Refused w m owner amount e := h
    rw [hr.2] at hpay
    cases hpay

/-- A claim on which something is due succeeds. -/
theorem claim_of_due {amount : Nat} {call : Except Err Core} (h : Sound D w) (hm : w.factory.isMarket m = true)
    (hne : owner ≠ D.marketplace) (hpay : ∀ amount, w.token.refuses m owner amount = false)
    (hc : claimCall D w caller m owner kind = some call) (hd : due (w.vaults m) owner kind = some amount) :
    ∃ w', call = .ok w' := by
  have hp := claims_payable h hm
  cases kind with
  | winner =>
    obtain rfl := Option.some.inj hc
    simp only [due, Option.ite_none_right_eq_some] at hd
    exact ok_of_paid (hp.winnings caller owner hd.1.1 hne hd.1.2) (hpay _)
  | earlyBird =>
    obtain rfl := Option.some.inj hc
    simp only [due, Option.ite_none_right_eq_some] at hd
    exact ok_of_paid (hp.earlyBird caller owner hd.1.1 hd.1.2.1 hd.1.2.2) (hpay _)
  | refund =>
    obtain rfl := Option.some.inj hc
    simp only [due, Option.ite_none_right_eq_some] at hd
    exact ok_of_paid (hp.refund caller owner hd.1.1 hne hd.1.2) (hpay _)
  | timeoutBonus =>
    obtain rfl := Option.some.inj hc
    simp only [due, Option.ite_none_right_eq_some] at hd
    exact ok_of_paid (hp.timeoutBonus caller owner hd.1.1 hd.1.2) (hpay _)
  | _ => cases hc

/-! ## The rows show what is due -/

/-- A row shows what is due: it is claimable, with the amount, exactly if something is. -/
def Shows (row : Option Entitlement) : Option Nat → Prop
  | some amount => ∃ e, row = some e ∧ e.status = .claimable ∧ e.amount = some amount
  | none => ∀ e, row = some e → e.status = .conditional

theorem shareOfPool_eq {units total : Nat} (pool : Nat) (hu : units ≠ 0) (hle : units ≤ total) :
    shareOfPool units total pool = some (share units total pool) := by
  unfold shareOfPool share
  rw [if_neg (by omega)]
  split
  · rfl
  · rw [Nat.mul_comm]

/-- The answer of the reader for a vault. -/
def rightsOf (v : Vault) (owner : Address) : MarketRights where
  state := stateCode v.marketState
  voidReason := reasonCode v.voidReason
  winningOutcome := v.winningOutcome
  balances := (List.range v.init.outcomeCount).map fun id => v.shares.balanceOf id owner
  winnerPool := v.remainingWinnerPool
  winningUnits := v.remainingWinningUnits
  earlyPool := v.remainingEarlyBirdPool
  earlyScore := v.remainingEarlyBirdScore
  ownerEarlyScore := v.earlyBirdScore owner
  timeoutFunded := v.timeoutBonusFunded
  timeoutPool := v.remainingTimeoutBonusPool
  timeoutTotalUnits := v.remainingTimeoutBonusUnits
  ownerTimeoutUnits := v.timeoutBonusUnits owner

theorem publicMarketState_of_pools (hp : v.Pools) :
    publicMarketState (stateCode v.marketState) (reasonCode v.voidReason) =
      some (stateCode v.marketState, reasonCode v.voidReason) := by
  have hr := hp.reason
  unfold publicMarketState
  rw [if_neg]
  cases hs : v.marketState <;> cases hv : v.voidReason <;> simp_all [stateCode, reasonCode]

theorem market_eq (hc : v.Configured D) (hp : v.Pools) : OnchainRightsReader.market v owner = some
    (rightsOf v owner) := by
  have hge := hc.outcomes_ge
  have hle := hc.outcomes_le
  unfold OnchainRightsReader.market
  rw [if_neg (by omega), publicMarketState_of_pools hp]
  rfl

theorem rightsOf_held : (rightsOf v owner).balances.sum = v.heldUnits owner := by
  show ((List.range v.init.outcomeCount).map fun id => v.shares.balanceOf id owner).sum = _
  exact (List.sum_toFinset _ List.nodup_range).symm.trans (by rw [List.toFinset_range]; rfl)

theorem rightsOf_winning (h : v.winningOutcome < v.init.outcomeCount) :
    (rightsOf v owner).balances.getD v.winningOutcome 0 = v.shares.balanceOf v.winningOutcome owner := by
  simp [rightsOf, List.getD_eq_getElem?_getD, h]

@[simp] theorem stateCode_resolved {s : MarketState} :
    stateCode s = 1 ↔ s = .resolved := by cases s <;> simp [stateCode]

@[simp] theorem stateCode_voided {s : MarketState} : stateCode s = 2 ↔ s = .voided := by cases s <;> simp [stateCode]

@[simp] theorem reasonCode_timeout {r : VoidReason} :
    reasonCode r = 3 ↔ r = .timeout := by cases r <;> simp [reasonCode]

/-- A row whose right is eligible shows the amount. -/
theorem shows_rated {e : Entitlement} {amount : Nat} : Shows (some (e.rated true (some amount))) (some amount) :=
  ⟨_, rfl, rfl, rfl⟩

/-- A row whose right is not eligible shows nothing. -/
theorem shows_idle {e : Entitlement} {amount : Nat} : Shows (some (e.rated false (some amount))) none := by
  intro e' he
  obtain rfl := Option.some.inj he
  rfl

/-- A row that may be dropped shows nothing if it shows nothing where it is kept. -/
theorem shows_unless {c : Prop} [Decidable c] {row : Option Entitlement} (h : ¬c → Shows row none) :
    Shows (if c then none else row) none := by
  split
  · exact fun _ h => nomatch h
  · rename_i hc
    exact h hc

section

variable (hl : v.Ledger) (hp : v.Pools) (e : Entitlement)

include hl

theorem hydrateMarket_winner (hk : e.kind = .winner) :
    Shows (hydrateMarket (rightsOf v owner) e) (due v owner .winner) := by
  simp only [hydrateMarket, hk]
  by_cases hr : v.marketState = .resolved
  · have hsup := hl.supply
    simp only [Vault.SupplyMatches, hr] at hsup
    have hle : v.shares.balanceOf v.winningOutcome owner ≤ v.remainingWinningUnits := by
      rw [← hsup.2]
      exact hl.backed.balance_le _ _
    have hw : (rightsOf v owner).balances.getD (rightsOf v owner).winningOutcome 0 =
        v.shares.balanceOf v.winningOutcome owner := rightsOf_winning hsup.1
    have hs : (rightsOf v owner).state = 1 := stateCode_resolved.mpr hr
    rw [hw, hs]
    by_cases hb : v.shares.balanceOf v.winningOutcome owner = 0
    · simp only [due, hb, hr]
      exact shows_idle
    · have hpos : 0 < v.shares.balanceOf v.winningOutcome owner := Nat.pos_of_ne_zero hb
      have hshare : shareOfPool (v.shares.balanceOf v.winningOutcome owner) (rightsOf v owner).winningUnits
          (rightsOf v owner).winnerPool = _ := shareOfPool_eq _ hb hle
      simp only [due, hr, hb, hpos, hshare, and_self, decide_true, if_true, ne_eq, not_false_eq_true]
      exact shows_rated
  · have hs : (rightsOf v owner).state ≠ 1 := fun h => hr (stateCode_resolved.mp h)
    simp only [due, hr, hs, false_and, decide_false, if_false, Bool.false_eq_true]
    exact shows_idle

omit hl in
theorem hydrateMarket_refund (hk : e.kind = .refund) :
    Shows (hydrateMarket (rightsOf v owner) e) (due v owner .refund) := by
  simp only [hydrateMarket, hk, rightsOf_held]
  by_cases hr : v.marketState = .voided
  · have hs : (rightsOf v owner).state = 2 := stateCode_voided.mpr hr
    rw [hs]
    by_cases hb : v.heldUnits owner = 0
    · simp only [due, hb, hr]
      exact shows_idle
    · have hpos : 0 < v.heldUnits owner := Nat.pos_of_ne_zero hb
      simp only [due, hr, hb, hpos, and_self, decide_true, if_true, ne_eq, not_false_eq_true]
      exact shows_rated
  · have hs : (rightsOf v owner).state ≠ 2 := fun h => hr (stateCode_voided.mp h)
    simp only [due, hr, hs, false_and, decide_false, if_false, Bool.false_eq_true]
    exact shows_idle

theorem hydrateMarket_earlyBird (hk : e.kind = .earlyBird) :
    Shows (hydrateMarket (rightsOf v owner) e) (due v owner .earlyBird) := by
  simp only [hydrateMarket, hk]
  by_cases hr : v.marketState = .resolved
  · have hsum := hl.score_sum
    simp only [Vault.currentScore, hr] at hsum
    have hle : v.earlyBirdScore owner ≤ v.remainingEarlyBirdScore := by
      rw [← hsum]
      exact Balances.le_sum v.earlyBirdScore (Finset.mem_univ owner)
    have hs : (rightsOf v owner).state = 1 := stateCode_resolved.mpr hr
    have hscore : (rightsOf v owner).ownerEarlyScore = v.earlyBirdScore owner := rfl
    have hpool : (rightsOf v owner).earlyPool = v.remainingEarlyBirdPool := rfl
    rw [hs, if_neg (by simp), hscore, hpool]
    by_cases hb : v.earlyBirdScore owner ≠ 0 ∧ v.remainingEarlyBirdPool ≠ 0
    · have hshare : shareOfPool (v.earlyBirdScore owner) (rightsOf v owner).earlyScore v.remainingEarlyBirdPool = _ :=
        shareOfPool_eq _ hb.1 hle
      simp only [due, hr, hb.1, hb.2, Nat.pos_of_ne_zero hb.1, Nat.pos_of_ne_zero hb.2, hshare, and_self, decide_true,
        if_true, ne_eq, not_false_eq_true]
      exact shows_rated
    · have hn : ¬(0 < v.earlyBirdScore owner ∧ 0 < v.remainingEarlyBirdPool) := by omega
      simp only [due, hr, hb, hn, and_false, decide_false, if_false, Bool.false_eq_true]
      exact shows_idle
  · have hs : (rightsOf v owner).state ≠ 1 := fun h => hr (stateCode_resolved.mp h)
    simp only [due, hr, false_and, if_false]
    exact shows_unless fun h => absurd hs h

include hp

/-- Before an owner's refund, what his refunded units would get is displayed but is not due. -/
theorem hydrateMarket_timeoutBonus (hk : e.kind = .timeoutBonus) :
    Shows (hydrateMarket (rightsOf v owner) e) (due v owner .timeoutBonus) := by
  simp only [hydrateMarket, hk, rightsOf_held]
  by_cases hr : v.voidReason = .timeout
  · have hvoid : v.marketState = .voided := hp.reason.mp (by rw [hr]; decide)
    have hs : (rightsOf v owner).state = 2 := stateCode_voided.mpr hvoid
    have hv : (rightsOf v owner).voidReason = 3 := reasonCode_timeout.mpr hr
    have hown : (rightsOf v owner).ownerTimeoutUnits = v.timeoutBonusUnits owner := rfl
    have hfund : (rightsOf v owner).timeoutFunded = v.timeoutBonusFunded := rfl
    rw [hs, hv, hown, hfund, if_neg (by simp)]
    have hsum := hp.bonus_sum hr
    have hone := Balances.le_sum v.timeoutBonusUnits (Finset.mem_univ owner)
    have hheld : v.heldUnits owner ≤ v.remainingRefundPrincipal := Vault.heldUnits_le hl hvoid
    cases hf : v.timeoutBonusFunded with
    | false =>
      simp only [due, hf, Bool.false_eq_true, false_and, if_false, decide_false]
      exact shows_unless fun _ => shows_idle
    | true =>
      rw [if_pos hf] at hsum
      by_cases hb : v.timeoutBonusUnits owner = 0
      · simp only [due, hb, lt_irrefl, ne_eq, not_true_eq_false, and_false, if_false, decide_false]
        refine shows_unless fun hne => ?_
        have hshare : shareOfPool (v.heldUnits owner) (rightsOf v owner).timeoutTotalUnits
          (rightsOf v owner).timeoutPool = _ :=
          shareOfPool_eq _ hne (show _ ≤ v.remainingTimeoutBonusUnits by omega)
        rw [if_pos trivial, hshare]
        exact shows_idle
      · have hpos : 0 < v.timeoutBonusUnits owner := Nat.pos_of_ne_zero hb
        have hshare : shareOfPool (v.timeoutBonusUnits owner) (rightsOf v owner).timeoutTotalUnits
            (rightsOf v owner).timeoutPool = _ := shareOfPool_eq _ hb (show _ ≤ v.remainingTimeoutBonusUnits by omega)
        simp only [due, hf, hb, hpos, hshare, and_self, decide_true, if_true, if_false, ne_eq, not_false_eq_true]
        exact shows_rated
  · obtain ⟨hf, hu⟩ := hp.not_timeout hr
    have hv : (rightsOf v owner).voidReason ≠ 3 := fun h => hr (reasonCode_timeout.mp h)
    simp only [due, hf, Bool.false_eq_true, false_and, if_false]
    exact shows_unless fun h => absurd (.inr hv) h

/-- Every right on a market is shown as it is due. -/
theorem hydrateMarket_due (hk : e.kind ≠ .escrow ∧ e.kind ≠ .bond ∧ e.kind ≠ .fees) :
    Shows (hydrateMarket (rightsOf v owner) e) (due v owner e.kind) := by
  cases h : e.kind with
  | holding =>
    simp only [hydrateMarket, h]
    intro e' he
    obtain rfl := Option.some.inj he
    rfl
  | winner => exact hydrateMarket_winner hl e h
  | refund => exact hydrateMarket_refund e h
  | earlyBird => exact hydrateMarket_earlyBird hl e h
  | timeoutBonus => exact hydrateMarket_timeoutBonus hl hp e h
  | escrow => exact absurd h hk.1
  | bond => exact absurd h hk.2.1
  | fees => exact absurd h hk.2.2

end

/-! ## What the rows tell -/

/-- A reader that returns the state `w`: a read that does not fail answers with it. -/
structure Returns (w : Core) (owner : Address) (reader : RightsReader) : Prop where
  market : ∀ turn m rights, reader.market turn m owner = some rights →
    OnchainRightsReader.market (w.vaults m) owner = some rights
  bond : ∀ turn m bond, reader.bond turn m owner = some bond → OnchainRightsReader.bond w m owner = some bond

/-- The candidates that are looked for: fees have no market, a bond may have none, an order in escrow has its number. -/
structure Entitlement.Shaped (w : Core) (c : Entitlement) : Prop where
  market : ∀ m, c.market = some m → w.factory.isMarket m = true
  right : c.market = none → c.kind = .fees ∨ c.kind = .bond ∨ c.kind = .escrow
  fees : c.kind = .fees → c.market = none
  escrow : c.kind = .escrow → c.listingId ≠ none

/-- A read for the candidate fails, the one that its turn makes or an earlier one of the same market. -/
def ReadFails (owner : Address) (reader : RightsReader) (turn : Nat) (c : Entitlement) : Prop :=
  ∃ t ≤ turn, match c.kind, c.market, c.listingId with
    | .fees, none, _ | .bond, none, _ => reader.credit t c.kind owner = none
    | .escrow, _, some listingId => reader.listing t listingId owner = none
    | .bond, some m, _ => reader.bond t m owner = none
    | _, some m, _ => reader.market t m owner = none
    | _, none, _ => False

/-- What a row tells of its candidate. -/
structure Told (D : Deployment) (w : Core) (owner : Address) (reader : RightsReader) (turn : Nat) (c : Entitlement)
    (row : Option Entitlement) : Prop where
  claim : ∀ m caller call, c.market = some m → claimCall D w caller m owner c.kind = some call →
    row.map (·.status) ≠ some .unknown → (row.map (·.status) = some .claimable ↔ ∃ w', call = .ok w') ∧
      (row.map (·.status) = some .claimable → ∃ amount, row.bind (·.amount) = some amount ∧ Pays w m owner amount call)
  bond : ∀ m, c.market = some m → c.kind = .bond → row.map (·.status) ≠ some .unknown →
    (row.map (·.status) = some .claimable ↔ ∃ w', settleBond D w m = .ok w' ∧
      w.escrow.credits.creditOf owner < w'.escrow.credits.creditOf owner) ∧
    (row.map (·.status) = some .claimable → ∃ amount w', row.bind (·.amount) = some amount ∧
      settleBond D w m = .ok w' ∧ w'.escrow.credits = w.escrow.credits.add owner amount)
  unknown : row.map (·.status) = some .unknown → ReadFails owner reader turn c

/-- A row that shows what is due tells what the claim does. -/
theorem Shows.told {row : Option Entitlement} {call : Except Err Core} (hr : Sound D w)
    (hm : w.factory.isMarket m = true) (hne : owner ≠ D.marketplace)
    (hpay : ∀ amount, w.token.refuses m owner amount = false) (hc : claimCall D w caller m owner kind = some call)
    (h : Shows row (due (w.vaults m) owner kind)) :
    (row.map (·.status) = some .claimable ↔ ∃ w', call = .ok w') ∧
      (row.map (·.status) = some .claimable → ∃ amount, row.bind (·.amount) = some amount ∧
        Pays w m owner amount call) := by
  cases hd : due (w.vaults m) owner kind with
  | none =>
    rw [hd] at h
    have hidle : row.map (·.status) ≠ some .claimable := by
      intro hs
      obtain ⟨e, he, hs⟩ := Option.map_eq_some_iff.mp hs
      rw [h e he] at hs
      cases hs
    refine ⟨⟨fun hs => absurd hs hidle, ?_⟩, fun hs => absurd hs hidle⟩
    rintro ⟨w', hw'⟩
    obtain ⟨amount, ha, _⟩ := due_of_claim hc hw'
    rw [hd] at ha
    cases ha
  | some amount =>
    rw [hd] at h
    obtain ⟨e, rfl, hs, ha⟩ := h
    obtain ⟨w', hw'⟩ := claim_of_due hr hm hne hpay hc hd
    obtain ⟨paid, hpaid, ht⟩ := due_of_claim hc hw'
    obtain rfl : amount = paid := Option.some.inj (hd.symm.trans hpaid)
    exact ⟨⟨fun _ => ⟨w', hw'⟩, fun _ => congrArg some hs⟩, fun _ => ⟨amount, ha, w', hw', ht⟩⟩

theorem Shows.known {row : Option Entitlement} {d : Option Nat} (h : Shows row d) :
    row.map (·.status) ≠ some .unknown := by
  intro hs
  obtain ⟨e, he, hs⟩ := Option.map_eq_some_iff.mp hs
  cases d with
  | none =>
    rw [h e he] at hs
    cases hs
  | some amount =>
    obtain ⟨e', he', hs', _⟩ := h
    obtain rfl : e' = e := Option.some.inj (he'.symm.trans he)
    rw [hs'] at hs
    cases hs

/-! ## The loop -/

section Loop

variable {reader : RightsReader} {reads : MarketReads} {turn : Nat} {c : Entitlement}

/-- The reads made before a turn. -/
def Recorded (owner : Address) (reader : RightsReader) (turn : Nat) (reads : MarketReads) : Prop :=
  ∀ m answer, reads.lookup m = some answer → ∃ t < turn, answer = reader.market t m owner

theorem Recorded.nil : Recorded owner reader 0 [] := nofun

/-- A read of a market is recorded, and its answer is that of this turn or an earlier one. -/
theorem Recorded.readMarket (h : Recorded owner reader turn reads) (m : Address) :
    Recorded owner reader (turn + 1) (readMarket owner reader turn reads m).1 ∧
      ∃ t ≤ turn, (Entitlements.readMarket owner reader turn reads m).2 = reader.market t m owner := by
  unfold Entitlements.readMarket
  cases hl : reads.lookup m with
  | some answer =>
    obtain ⟨t, ht, ha⟩ := h m answer hl
    refine ⟨fun m' answer' hl' => ?_, t, ht.le, ha⟩
    obtain ⟨t', ht', ha'⟩ := h m' answer' hl'
    exact ⟨t', by omega, ha'⟩
  | none =>
    refine ⟨fun m' answer' hl' => ?_, turn, le_rfl, rfl⟩
    by_cases hm : m' = m
    · subst hm
      rw [List.lookup_cons_self] at hl'
      exact ⟨turn, by omega, (Option.some.inj hl').symm⟩
    · rw [List.lookup_cons, beq_false_of_ne hm] at hl'
      obtain ⟨t', ht', ha'⟩ := h m' answer' hl'
      exact ⟨t', by omega, ha'⟩

@[simp] theorem failed_status (e : Entitlement) : e.failed.status = .unknown := rfl

/-- A row without a market's right tells nothing but whether its read fails. -/
theorem told_other {row : Option Entitlement} (hk : c.kind = .fees ∨ c.kind = .escrow ∨ c.kind = .bond ∧
    c.market = none)
    (h : row.map (·.status) = some .unknown → ReadFails owner reader turn c) : Told D w owner reader turn c row where
  claim := by
    intro m caller call _ hc
    rcases hk with hk | hk | ⟨hk, _⟩ <;> rw [hk] at hc <;> cases hc
  bond := by
    intro m hm hb
    rcases hk with hk | hk | ⟨_, hn⟩
    · rw [hk] at hb; cases hb
    · rw [hk] at hb; cases hb
    · rw [hn] at hm; cases hm
  unknown := h

theorem hydrateCredit_known (amount : Nat) (e : Entitlement) : (hydrateCredit amount e).status ≠ .unknown := by
  unfold hydrateCredit
  dsimp only
  split <;> decide

theorem hydrateListing_known (listing : ListingRights) (e : Entitlement) :
    (hydrateListing listing e).status ≠ .unknown := by
  unfold hydrateListing
  dsimp only
  split <;> decide

theorem hydrateBond_known (bond : BondRights) (e : Entitlement) : (hydrateBond bond e).status ≠ .unknown := by
  unfold hydrateBond
  dsimp only
  split
  · decide
  · split <;> decide

/-- The row of a right on a market. -/
theorem told_market {e : Entitlement} {answer : Option MarketRights} (hr : Sound D w) (hne : owner ≠ D.marketplace)
    (hread : Returns w owner reader) (hpay : ∀ m, w.factory.isMarket m = true →
      ∀ amount, w.token.refuses m owner amount = false)
    (hm : w.factory.isMarket m = true) (hcm : c.market = some m) (he : e.kind = c.kind)
    (hk : c.kind ≠ .escrow ∧ c.kind ≠ .bond ∧ c.kind ≠ .fees)
    (ha : ∃ t ≤ turn, answer = reader.market t m owner) :
    Told D w owner reader turn c (answer.elim (some e.failed) fun rights => hydrateMarket rights e) := by
  obtain ⟨hmkt, _⟩ := hr.markets m hm
  obtain ⟨t, ht, rfl⟩ := ha
  cases hrd : reader.market t m owner with
  | none =>
    refine ⟨fun _ _ _ _ _ hn => absurd rfl hn, fun _ _ hb => absurd hb hk.2.1, fun _ => ⟨t, ht, ?_⟩⟩
    rw [hcm]
    cases hkind : c.kind <;> simp_all
  | some rights =>
    have hrights := hread.market t m rights hrd
    rw [market_eq hmkt.configured hmkt.pools] at hrights
    obtain rfl := Option.some.inj hrights
    have hshow : Shows (hydrateMarket (rightsOf (w.vaults m) owner) e) (due (w.vaults m) owner e.kind) :=
      hydrateMarket_due hmkt.ledger hmkt.pools e (by rw [he]; exact hk)
    rw [he] at hshow
    refine ⟨fun m' caller call hm' hc _ => ?_, fun _ _ hb => absurd hb hk.2.1, fun h => absurd h hshow.known⟩
    obtain rfl : m = m' := Option.some.inj (hcm.symm.trans hm')
    exact hshow.told hr hm hne (hpay m hm) hc

/-- A bond that the reader knows belongs to the owner, and says where a settlement would put it. -/
theorem bond_eq {bond : BondRights} (hr : Sound D w) (hm : w.factory.isMarket m = true)
    (h : OnchainRightsReader.bond w m owner = some bond) :
    (w.escrow.bondOf m).creator = owner ∧ bond.amount = (w.escrow.bondOf m).amount ∧
      bond.settled = (w.escrow.bondOf m).settled ∧ (bond.terminal = true ↔ (w.vaults m).marketState ≠ .open) ∧
      (bond.slashed = true ↔ timedOut (w.vaults m) = true ∧ (w.vaults m).totalPrincipal ≠ 0) := by
  obtain ⟨hmkt, _⟩ := hr.markets m hm
  unfold OnchainRightsReader.bond at h
  split at h
  · cases h
  · rename_i hc
    rw [publicMarketState_of_pools hmkt.pools] at h
    obtain rfl := Option.some.inj h
    refine ⟨not_not.mp hc, rfl, rfl, ?_, ?_⟩
    · cases (w.vaults m).marketState <;> simp [stateCode]
    · simp only [BondRights.slashed, timedOut, bne_iff_ne, ne_eq, Bool.and_eq_true, Bool.not_eq_true',
        decide_eq_true_eq]
      cases (w.vaults m).marketState <;> cases (w.vaults m).voidReason <;> (simp [stateCode, reasonCode]; try omega)

theorem hydrateBond_claimable {bond : BondRights} {e : Entitlement} :
    (hydrateBond bond e).status = .claimable ↔ bond.settled = false ∧ bond.terminal = true ∧ bond.slashed = false := by
  unfold hydrateBond
  cases bond.settled <;> cases bond.terminal <;> cases bond.slashed <;> simp

/-- The row of a bond. -/
theorem told_bond {e : Entitlement} (hr : Sound D w) (hread : Returns w owner reader) (hm : w.factory.isMarket m = true)
    (hcm : c.market = some m) (hk : c.kind = .bond) :
    Told D w owner reader turn c (some ((reader.bond turn m owner).elim e.failed fun bond => hydrateBond bond e)) := by
  cases hrd : reader.bond turn m owner with
  | none =>
    refine ⟨fun _ _ _ _ _ hn => absurd rfl hn, fun _ _ _ hn => absurd rfl hn, fun _ => ⟨turn, le_rfl, ?_⟩⟩
    rw [hcm, hk]
    exact hrd
  | some bond =>
    obtain ⟨howner, hamount, hsettled, hterminal, hslashed⟩ := bond_eq hr hm (hread.bond turn m bond hrd)
    refine ⟨fun _ _ _ _ hc => ?_, fun m' hm' _ _ => ?_, fun h => absurd (Option.some.inj h) (hydrateBond_known _ _)⟩
    · rw [hk] at hc
      cases hc
    obtain rfl : m = m' := Option.some.inj (hcm.symm.trans hm')
    have hcredit : bond.settled = false → bond.terminal = true → bond.slashed = false →
        ∃ w', settleBond D w m = .ok w' ∧ w'.escrow.credits = w.escrow.credits.add owner bond.amount := by
      intro hs ht hsl
      rw [hamount, ← howner]
      exact settleBond_credits hr hm (hterminal.mp ht) (hsettled ▸ hs) fun hd => by
        rw [hslashed.mpr hd] at hsl
        cases hsl
    have hpos : 0 < bond.amount := by
      obtain ⟨hmkt, hbond⟩ := hr.markets m hm
      rw [hamount, hbond.amount]
      exact hmkt.configured.bond
    simp only [Option.elim_some, Option.map_some, Option.some.injEq, hydrateBond_claimable, Option.bind_some]
    refine ⟨⟨?_, ?_⟩, ?_⟩
    · rintro ⟨hs, ht, hsl⟩
      obtain ⟨w', hw', hc⟩ := hcredit hs ht hsl
      refine ⟨w', hw', ?_⟩
      rw [hc]
      simp [Credits.add, hpos]
    · rintro ⟨w', hw', hlt⟩
      obtain ⟨hs, ho, hto⟩ := settleBond_to hr.wired hw'
      refine ⟨hsettled.trans hs, hterminal.mpr ho, Bool.eq_false_iff.mpr fun hsl => ?_⟩
      rw [(hto.bonus (hslashed.mp hsl)).1] at hlt
      exact lt_irrefl _ hlt
    · rintro ⟨hs, ht, hsl⟩
      obtain ⟨w', hw', hc⟩ := hcredit hs ht hsl
      exact ⟨bond.amount, w', by simp [hydrateBond, hsl], hw', hc⟩

/-- A row made from an answer is unknown only without one. -/
theorem none_of_unknown {α : Type} {answer : Option α} {e : Entitlement} {f : α → Entitlement}
    (hf : ∀ a, (f a).status ≠ .unknown)
    (h : (some (answer.elim e.failed f)).map (·.status) = some EntitlementStatus.unknown) : answer = none := by
  cases answer with
  | none => rfl
  | some a => exact absurd (Option.some.inj h) (hf a)

/-- One turn of the loop. -/
theorem hydrateOne_told (hr : Sound D w) (hne : owner ≠ D.marketplace) (hread : Returns w owner reader)
    (hpay : ∀ m, w.factory.isMarket m = true → ∀ amount, w.token.refuses m owner amount = false) (hshape : c.Shaped w)
    (hreads : Recorded owner reader turn reads) :
    Recorded owner reader (turn + 1) (hydrateOne owner reader turn reads c).1 ∧
      (c.status = .claimed → (hydrateOne owner reader turn reads c).2 = some c) ∧
      (c.status ≠ .claimed → Told D w owner reader turn c (hydrateOne owner reader turn reads c).2) := by
  have hkeep : Recorded owner reader (turn + 1) reads := by
    intro m answer hl
    obtain ⟨t, ht, ha⟩ := hreads m answer hl
    exact ⟨t, by omega, ha⟩
  unfold hydrateOne
  by_cases hs : c.status = .claimed
  · rw [if_pos hs]
    exact ⟨hkeep, fun _ => rfl, fun h => absurd hs h⟩
  rw [if_neg hs]
  refine (fun h => ⟨h.1, fun hc => absurd hc hs, fun _ => h.2⟩ : _ ∧ _ → _) ?_
  obtain ⟨id, market, kind, outcomeId, listingId, units, amount, status, reason⟩ := c
  cases kind with
  | fees =>
    obtain rfl : market = none := hshape.fees rfl
    refine ⟨hkeep, told_other (.inl rfl) fun h => ⟨turn, le_rfl, ?_⟩⟩
    exact none_of_unknown (fun amount => hydrateCredit_known amount _) h
  | escrow =>
    obtain ⟨listingId, rfl⟩ := Option.ne_none_iff_exists'.mp (hshape.escrow rfl)
    refine ⟨hkeep, told_other (.inr (.inl rfl)) fun h => ⟨turn, le_rfl, ?_⟩⟩
    exact none_of_unknown (fun listing => hydrateListing_known listing _) h
  | bond =>
    cases market with
    | none =>
      refine ⟨hkeep, told_other (.inr (.inr ⟨rfl, rfl⟩)) fun h => ⟨turn, le_rfl, ?_⟩⟩
      exact none_of_unknown (fun amount => hydrateCredit_known amount _) h
    | some m => exact ⟨hkeep, told_bond hr hread (hshape.market m rfl) rfl rfl⟩
  | holding | winner | earlyBird | refund | timeoutBonus =>
    cases market with
    | none => exact absurd (hshape.right rfl) (by simp)
    | some m =>
      obtain ⟨hrec, ht⟩ := hreads.readMarket m
      exact ⟨hrec, told_market hr hne hread hpay (hshape.market m rfl) rfl rfl (by simp) ht⟩

/-- The turns of the loop. -/
theorem hydrateRows_told {cs : List Entitlement} (hr : Sound D w) (hne : owner ≠ D.marketplace)
    (hread : Returns w owner reader)
    (hpay : ∀ m, w.factory.isMarket m = true → ∀ amount, w.token.refuses m owner amount = false)
    (hshape : ∀ c ∈ cs, c.Shaped w) (hreads : Recorded owner reader turn reads) :
    (hydrateRows owner reader turn reads cs).length = cs.length ∧
      ∀ i c row, cs[i]? = some c → (hydrateRows owner reader turn reads cs)[i]? = some row →
        (c.status = .claimed → row = some c) ∧ (c.status ≠ .claimed → Told D w owner reader (turn + i) c row) := by
  induction cs generalizing turn reads with
  | nil => exact ⟨rfl, fun i c row hc => by simp at hc⟩
  | cons c cs ih =>
    obtain ⟨hrec, hclaimed, htold⟩ := hydrateOne_told hr hne hread hpay (hshape c (.head _)) hreads
    obtain ⟨hlen, hrest⟩ := ih (fun x hx => hshape x (.tail _ hx)) hrec
    rw [hydrateRows]
    refine ⟨congrArg (· + 1) hlen, fun i x row hx hrow => ?_⟩
    cases i with
    | zero =>
      obtain rfl := Option.some.inj hx
      obtain rfl := Option.some.inj hrow
      exact ⟨hclaimed, htold⟩
    | succ i =>
      rw [show turn + (i + 1) = turn + 1 + i by omega]
      exact hrest i x row hx hrow

end Loop

/-- In every reachable state, for every owner but the marketplace and a reader that returns that state: each
candidate that is not recorded as claimed gets a row that tells what the claim, or the settlement of the bond, does
in that state. Where no read fails, a row is claimable exactly if the call succeeds, with the amount that it pays.
-/
theorem hydrate_told {reader : RightsReader} {candidates : List Entitlement} (hr : Reachable D w)
    (hne : owner ≠ D.marketplace) (hread : Returns w owner reader)
    (hpay : ∀ m, w.factory.isMarket m = true → ∀ amount, w.token.refuses m owner amount = false)
    (hshape : ∀ c ∈ candidates, c.Shaped w) :
    ∃ rows : List (Option Entitlement), hydrateEntitlements owner candidates reader = rows.reduceOption ∧
      rows.length = candidates.length ∧
      ∀ i c row, candidates[i]? = some c → rows[i]? = some row →
        (c.status = .claimed → row = some c) ∧ (c.status ≠ .claimed → Told D w owner reader i c row) := by
  obtain ⟨hlen, htold⟩ := hydrateRows_told (Reachable.sound hr) hne hread hpay hshape Recorded.nil
  refine ⟨_, rfl, hlen, fun i c row hc hrow => ?_⟩
  have ht := htold i c row hc hrow
  rw [Nat.zero_add] at ht
  exact ht

theorem reader_returns (w : Core) (owner : Address) (listing : Bytes32 → Address → Option ListingRights) :
    Returns w owner (OnchainRightsReader.reader w listing) := ⟨fun _ _ _ h => h, fun _ _ _ h => h⟩

namespace Sample

/-- A candidate on the sample market. -/
def candidate (kind : EntitlementKind) (status : EntitlementStatus) : Entitlement :=
  ⟨"", some Cpredict.Sample.market, kind, none, none, none, none, status, none⟩

/-- The state after the resolution of the sample market. -/
def state : Core := Cpredict.Sample.played Cpredict.Sample.resolution

def reader : RightsReader := OnchainRightsReader.reader state fun _ _ => none

def candidates : List Entitlement := [candidate .winner .unknown, candidate .earlyBird .unknown]

theorem state_reachable : Reachable Cpredict.Sample.deployment state := Cpredict.Sample.played_reachable _

theorem state_pays (m owner : Address) (amount : Nat) : state.token.refuses m owner amount = false := by
  have h : state.token.refuses = fun _ _ _ => false := rfl
  rw [h]

end Sample

/-- The first buyer's rights after the resolution of the sample market. -/
theorem hydrate_told_sample :
    (hydrateEntitlements Cpredict.Sample.alice Sample.candidates Sample.reader).map (fun e => (e.status, e.amount)) =
        [(.claimable, some 3600000), (.claimable, some 52363)] ∧
      ∃ rows : List (Option Entitlement),
        hydrateEntitlements Cpredict.Sample.alice Sample.candidates Sample.reader = rows.reduceOption ∧
          rows.length = 2 ∧
        ∀ i c row, Sample.candidates[i]? = some c → rows[i]? = some row → (c.status = .claimed → row = some c) ∧
          (c.status ≠ .claimed → Told Cpredict.Sample.deployment Sample.state Cpredict.Sample.alice
            Sample.reader i c row) :=
  ⟨by decide +kernel, hydrate_told Sample.state_reachable (by decide) (reader_returns _ _ _)
    (fun m _ => Sample.state_pays m _) (by
      intro c hc
      have hm : Sample.state.factory.isMarket Cpredict.Sample.market = true := by decide +kernel
      rcases List.mem_pair.mp hc with rfl | rfl <;>
        exact ⟨fun m h => by obtain rfl := Option.some.inj h; exact hm, nofun, nofun, nofun⟩)⟩

/-- A candidate that is recorded as claimed is shown so, even where the claim would succeed. -/
theorem hydrate_claimed_passes :
    (hydrateEntitlements Cpredict.Sample.alice [Sample.candidate .winner .claimed] Sample.reader).map (·.status) =
        [.claimed] ∧
      ∃ w', claimWinningsFor Cpredict.Sample.deployment Sample.state Cpredict.Sample.bob Cpredict.Sample.market
        Cpredict.Sample.alice = .ok w' :=
  ⟨by decide +kernel, claim_of_due (Reachable.sound Sample.state_reachable) (by decide +kernel)
    (by decide) (Sample.state_pays _ _) rfl (by decide +kernel : due _ _ .winner = some 3600000)⟩

end Entitlements

end Cpredict
