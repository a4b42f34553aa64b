import Cpredict.Core.TimeoutBonus

/-!
# The bond escrow

The escrow holds what it owes: the bonds that are locked and the credits of creators. Each bond leaves it once, to its
creator's credit or to its market as the timeout bonus, and the bond of a market that has ended can always be settled
(`bond_escrow`).
-/

namespace Cpredict

open Outcome Balances Tally Finset

namespace Core

variable {D : Deployment} {w w' : Core} {m : Address}

/-! ## Where a bond goes -/

/-- A bond that a step settles goes to its market when that timed out with principal, else to its creator's credit. -/
structure SettledTo (w w' : Core) (m : Address) : Prop where
  unlocked : w'.escrow.totalLocked + (w.escrow.bondOf m).amount = w.escrow.totalLocked
  bond : w'.escrow.bondOf m = { w.escrow.bondOf m with settled := true }
  bonus : timedOut (w.vaults m) = true ∧ (w.vaults m).totalPrincipal ≠ 0 → w'.escrow.credits = w.escrow.credits ∧
    (w'.vaults m).timeoutBonusFunded = true ∧
    (w'.vaults m).remainingTimeoutBonusPool = (w.escrow.bondOf m).amount ∧
    paidTo m w'.log = paidTo m w.log + (w.escrow.bondOf m).amount
  credit : ¬(timedOut (w.vaults m) = true ∧ (w.vaults m).totalPrincipal ≠ 0) →
    w'.escrow.credits = w.escrow.credits.add (w.escrow.bondOf m).creator (w.escrow.bondOf m).amount

/-- What an effect does to a bond that has been locked: nothing, or it settles it. -/
theorem effect_bond (hc : (w.escrow.bondOf m).creator ≠ 0) (he : Effect D w w') :
    w'.escrow.bondOf m = w.escrow.bondOf m ∨ ((w.escrow.bondOf m).settled = false ∧ SettledTo w w' m) := by
  cases he with
  | other _ _ _ he => rw [he]; exact .inl rfl
  | vault _ _ _ _ _ _ _ _ he => rw [he]; exact .inl rfl
  | credit market e hv _ _ hs _ hd hu he =>
    obtain ⟨hle, _, rfl⟩ := Escrow.unlock_eq_ok.mp hu
    by_cases hm : m = market
    · subst hm
      refine .inr ⟨hs, ?_, ?_, fun hb => absurd hb hd, fun _ => ?_⟩ <;> rw [he]
      · simp only [Escrow.credit]
        omega
      · simp only [Escrow.credit, Function.update_self]
      · rfl
    · left
      rw [he]
      exact Function.update_of_ne hm _ _
  | fund market v' _ _ _ _ hs hstep hd hv _ hu ht =>
    obtain ⟨hle, _, he⟩ := Escrow.unlock_eq_ok.mp hu
    by_cases hm : m = market
    · subst hm
      refine .inr ⟨hs, ?_, ?_, fun _ => ⟨?_, ?_, ?_, ?_⟩, fun hb => absurd hd hb⟩
      · rw [he]
        simp only
        omega
      · rw [he]
        exact Function.update_self _ _ _
      · rw [he]
      · rw [hv, Function.update_self]
        cases hstep with
        | fundTimeoutBonus _ _ _ _ _ _ hf => obtain ⟨_, _, _, _, _, rfl⟩ := Vault.fundTimeoutBonus_eq_ok.mp hf; rfl
      · rw [hv, Function.update_self]
        cases hstep with
        | fundTimeoutBonus _ _ _ _ _ _ hf => obtain ⟨_, _, _, _, _, rfl⟩ := Vault.fundTimeoutBonus_eq_ok.mp hf; rfl
      · rw [ht.paidTo]
        simp [Payment.received]
    · left
      rw [he]
      exact Function.update_of_ne hm _ _
  | claim _ _ _ _ _ _ he => rw [he]; exact .inl rfl
  | create creator market _ _ _ e _ hnew _ _ _ _ _ _ hl he =>
    obtain ⟨_, hl⟩ := hl
    obtain ⟨_, hfree, _, _, rfl⟩ := Escrow.lockBond_eq_ok hl
    left
    rw [he]
    refine Function.update_of_ne ?_ _ _
    rintro rfl
    exact hc hfree

theorem step_bond (h : Sound D w) (hc : (w.escrow.bondOf m).creator ≠ 0) (hs : Step D w w') :
    w'.escrow.bondOf m = w.escrow.bondOf m ∨ ((w.escrow.bondOf m).settled = false ∧ SettledTo w w' m) := by
  cases hs with
  | call _ _ _ he => exact effect_bond hc (exec_effect h.wired h.minimum he).1
  | tick seconds => exact .inl rfl

/-- Once settled, a bond stays as it is. -/
theorem run_bond (hr : Reachable D w) (hc : (w.escrow.bondOf m).creator ≠ 0)
    (hs : (w.escrow.bondOf m).settled = true) (hrun : Reach.Run (Step D) w w') :
    w'.escrow.bondOf m = w.escrow.bondOf m := by
  refine Reach.Run.since (R := fun s t => t.escrow.bondOf m = s.escrow.bondOf m) hr rfl (fun t u ht hR hstep => ?_) hrun
  rcases step_bond (Reachable.sound ht) (by rw [hR]; exact hc) hstep with he | ⟨hu, _⟩
  · rw [he, hR]
  · rw [hR, hs] at hu; cases hu

theorem settleBond_settles (hw : Wired D w) (h : settleBond D w m = .ok w') :
    (w'.escrow.bondOf m).settled = true := by
  simp only [settleBond, bind_eq_ok, Prod.exists] at h
  obtain ⟨_, _, _, _, _, _, e, b, hu, h⟩ := h
  obtain ⟨_, rfl, he⟩ := Escrow.unlock_eq_ok.mp hu
  have hset : (e.bondOf m).settled = true := by
    rw [he]
    simp
  split at h
  · simp only [bind_eq_ok, Except.ok.injEq] at h
    obtain ⟨w₁, hp, w₂, hf, rfl⟩ := h
    have hk := kept_pay hp
    have hw₁ := (hw.setEscrow e).pay D.bondEscrow_ne_feeVault hp
    obtain ⟨_, _, _, _, _, _, _, hescrow, _⟩ := fundTimeoutBonus_effect w hw₁ hf ⟨hk.vaults, hk.now⟩
    show (w₂.escrow.bondOf m).settled = true
    rw [hescrow, hk.escrow]
    exact hset
  · cases h
    exact hset

/-- What a settlement does to the bond. -/
theorem settleBond_to (hw : Wired D w) (h : settleBond D w m = .ok w') :
    (w.escrow.bondOf m).settled = false ∧ (w.vaults m).marketState ≠ .open ∧ SettledTo w w' m := by
  have hset := settleBond_settles hw h
  have heff := (settleBond_effect hw h).1
  simp only [settleBond, bind_eq_ok, revertIf_eq_ok, Bool.not_eq_true] at h
  obtain ⟨_, hc, _, hs, _, ho, _⟩ := h
  refine ⟨hs, ho, ?_⟩
  rcases effect_bond hc heff with he | ⟨_, hto⟩
  · rw [he, hs] at hset
    cases hset
  · exact hto

/-- A bond that is not owed to its market is credited to the creator, whatever the token does. -/
theorem settleBond_credits (h : Sound D w) (hm : w.factory.isMarket m = true) (ho : (w.vaults m).marketState ≠ .open)
    (hs : (w.escrow.bondOf m).settled = false)
    (hd : ¬(timedOut (w.vaults m) = true ∧ (w.vaults m).totalPrincipal ≠ 0)) :
    ∃ w', settleBond D w m = .ok w' ∧
      w'.escrow.credits = w.escrow.credits.add (w.escrow.bondOf m).creator (w.escrow.bondOf m).amount := by
  have hunlock := Escrow.unlock_eq_ok.mpr ⟨bond_le_locked h hs, rfl, rfl⟩
  have hok : ∃ w', settleBond D w m = .ok w' := by
    unfold settleBond
    rw [revertIf_neg _ (bond_creator_ne_zero h hm), ok_bind, revertIf_neg _ (by simp [hs]), ok_bind, revertIf_neg _ ho,
      ok_bind, hunlock, ok_bind]
    simp only
    rw [if_neg hd]
    exact ⟨_, rfl⟩
  obtain ⟨w', hw'⟩ := hok
  exact ⟨w', hw', (settleBond_to h.wired hw').2.2.credit hd⟩

/-! ## Creating a market -/

section

variable {E : Err → Prop}

theorem validate_ends (hE : ∀ e, e.ofAccrue = false → E e) (p : CreateMarketParams)
    (hz : p.terms.creatorTreasury = 0 → E .ZeroAddress) :
    Ends (validate D w p)
      (fun e => p.terms.creatorTreasury ≠ 0 ∧ e.protocolTreasury = w.config.protocolTreasury) E := by
  unfold validate validateMinimum
  refine Ends.revertIf (fun _ => hE _ rfl) fun _ => ?_
  refine Ends.revertIf hz fun ht => ?_
  iterate 12 refine Ends.revertIf (fun _ => hE _ rfl) fun _ => ?_
  unfold Config.snapshot Config.atMost
  iterate 2 refine Ends.revertIf (fun _ => hE _ rfl) fun _ => ?_
  exact ⟨ht, rfl⟩

theorem customFees_ends (hE : ∀ e, e.ofAccrue = false → E e) (e : EconomicSnapshot) (fees : Option (Nat × Nat)) :
    Ends (customFees e fees) (fun e' => e'.protocolTreasury = e.protocolTreasury) E := by
  cases fees with
  | none => exact Ends.ok rfl
  | some f =>
    unfold customFees Config.atMost
    iterate 2 refine Ends.revertIf (fun _ => hE _ rfl) fun _ => ?_
    exact Ends.ok rfl

theorem initializeVault_ends (hE : ∀ e, e.ofAccrue = false → E e) (v : Vault) (sender : Address) (init : MarketInit)
    (terms : MarketTerms) (ht : terms.creatorTreasury ≠ 0)
    (hz : init.factory = 0 ∨ init.paymentToken = 0 ∨ init.config = 0 ∨ init.emergencyController = 0 ∨
      init.exposureGuard = 0 ∨ init.bondEscrow = 0 ∨ init.feeVault = 0 ∨ init.creator = 0 ∨
      init.economics.protocolTreasury = 0 → E .ZeroAddress) :
    Ends (v.initializeVault sender init terms) (fun _ => True) E := by
  unfold Vault.initializeVault
  iterate 2 refine Ends.revertIf (fun _ => hE _ rfl) fun _ => ?_
  refine Ends.revertIf (fun h => hz (by tauto)) fun _ => ?_
  iterate 2 refine Ends.revertIf (fun _ => hE _ rfl) fun _ => ?_
  unfold Vault.setTerms
  refine Ends.revertIf (fun _ => hE _ rfl) fun _ => ?_
  refine Ends.revertIf (fun h => absurd h ht) fun _ => ?_
  iterate 3 refine Ends.revertIf (fun _ => hE _ rfl) fun _ => ?_
  refine Ends.bind (P := fun _ => True) ?_ fun _ _ _ => trivial
  unfold Vault.validateTimes
  refine Ends.revertIf (fun _ => hE _ rfl) fun _ => ?_
  exact Ends.guard (fun _ => hE _ rfl) fun _ => trivial

theorem register_ends (hE : ∀ e, e.ofAccrue = false → E e) (g : Guard) (f : FeeVault) {market : Address}
    (hm : market ≠ 0) :
    Ends (g.registerMarket market) (fun _ => True) E ∧ Ends (f.registerAccruer market) (fun _ => True) E := by
  unfold Guard.registerMarket FeeVault.registerAccruer
  exact ⟨Ends.revertIf (fun h => absurd h hm) fun _ => Ends.revertIf (fun _ => hE _ rfl) fun _ => trivial,
    Ends.revertIf (fun h => absurd h hm) fun _ => trivial⟩

theorem pullExact_ends (hE : ∀ e, e.ofAccrue = false → E e) (spender source target : Address) (amount : Nat) :
    Ends (w.pullExact spender source target amount) (fun _ => True) E := by
  unfold pullExact
  refine Ends.step (fun e he => by rw [payFrom_error he]; exact hE _ rfl) fun w₁ _ => ?_
  refine Ends.step (fun e he => ?_) fun _ _ => Ends.revertIf (fun _ => hE _ rfl) fun _ => trivial
  unfold checkedSub at he
  split at he
  · cases he
  · cases he; exact hE _ rfl

/-- The creation fee is accrued once it is paid. -/
theorem payCreationFee_ends (hE : ∀ e, e.ofAccrue = false → E e) {caller market : Address} (hw : Wired D w) :
    Ends (payCreationFee D w caller market) (fun _ => True) E := by
  unfold payCreationFee
  split
  · trivial
  · refine Ends.bind (pullExact_ends hE _ _ _ _) fun w₁ h₁ _ => ?_
    have hb := (pullExact_eq_ok h₁).2
    have hk : w₁.feeVault = w.feeVault ∧ w₁.config = w.config := by
      obtain ⟨t, _, rfl⟩ := payFrom_eq_ok (pullExact_eq_ok h₁).1
      exact ⟨rfl, rfl⟩
    have hfee := hw.feeCredits
    obtain ⟨w₂, h₂, _⟩ := accrue_ends (D := D) w.config.creationFee .marketCreation (.market market)
      (show w₁.feeVault.authorizedAccruer D.factory = true by rw [hk.1]; exact hw.factoryAccrues) hw.config.treasury
      (by rw [hk.1, hb]; omega)
    rw [hk.2, h₂]
    trivial

/-- The escrow covers a bond that has just been paid in. -/
theorem lockBond_ends (hE : ∀ e, e.ofAccrue = false → E e) {caller market : Address} {amount : Nat} (hm : market ≠ 0)
    (hc : caller ≠ 0) (hcov : w.escrow.totalLocked + w.escrow.credits.totalCredits ≤ w.token.balanceOf D.bondEscrow) :
    Ends (lockBond D w caller market amount) (fun _ => True) E := by
  unfold lockBond
  refine Ends.bind (pullExact_ends hE _ _ _ _) fun w₁ h₁ _ => ?_
  have hk := (kept_pullExact h₁).escrow
  have hb := (pullExact_eq_ok h₁).2
  refine Ends.bind (P := fun _ => True) ?_ fun _ _ _ => trivial
  unfold Escrow.lockBond
  refine Ends.revertIf (fun h => absurd h (not_or.mpr ⟨hm, hc⟩)) fun _ => ?_
  iterate 2 refine Ends.revertIf (fun _ => hE _ rfl) fun _ => ?_
  refine Ends.revertIf (fun hlt => ?_) fun _ => trivial
  rw [hk, hb] at hlt
  omega

/-- Creating a market never fails for a lack of cover, in the fee vault or in the escrow, and it meets a zero address
only among the arguments and in the wiring of the factory. -/
theorem createMarket_ends (hE : ∀ e, e.ofAccrue = false → E e) {caller : Address} {p : CreateMarketParams}
    {platformFees : Option (Nat × Nat)} {market : Address} (h : Sound D w) (hc : D.outside caller = true)
    (hz : p.terms.creatorTreasury = 0 ∨ D.factory = 0 ∨ D.paymentToken = 0 ∨ D.config = 0 ∨
      D.emergencyController = 0 ∨ D.exposureGuard = 0 → E .ZeroAddress) :
    Ends (createMarket D w caller p platformFees market) (fun _ => True) E := by
  have hcaller : caller ≠ 0 := by
    rintro rfl
    rw [D.zero_outside] at hc
    cases hc
  unfold createMarket
  iterate 3 refine Ends.revertIf (fun _ => hE _ rfl) fun _ => ?_
  refine Ends.bind (validate_ends hE p fun h0 => hz (.inl h0)) fun e _ ⟨ht, he⟩ => ?_
  refine Ends.bind (customFees_ends hE e platformFees) fun e' _ he' => ?_
  refine Ends.revertIf (fun _ => hE _ rfl) fun _ => ?_
  refine Ends.revertIf (fun _ => hE _ rfl) fun hnew => ?_
  have hm : market ≠ 0 := by
    rintro rfl
    exact hnew (by simp [Deployment.fixed])
  have htreasury : e'.protocolTreasury ≠ 0 := by
    rw [he', he]
    exact h.wired.config.treasury
  refine Ends.bind (initializeVault_ends hE _ _ _ _ ht fun h0 => hz ?_) fun v _ _ => ?_
  · have hescrow := D.bondEscrow_ne_zero
    have hvault := D.feeVault_ne_zero
    simp only [buildInit] at h0
    tauto
  refine Ends.bind (register_ends hE w.guard w.feeVault hm).1 fun g hg _ => ?_
  refine Ends.bind (register_ends hE w.guard w.feeVault hm).2 fun f hf _ => ?_
  have hreg : Wired D (registered w caller market v g f) := registered_wired h.wired (by simpa using hnew) hg hf
  have hw := hreg.emitAll
    [.vault market (.MarketInitialized v.init), .vault market (.MarketMetadataUpdated p.terms),
      .MarketRegistered market,
      .AccruerRegistered market]
  refine Ends.bind (payCreationFee_ends hE hw) fun w₁ h₁ _ => ?_
  obtain ⟨ps, hk, _, ht, hps⟩ := payCreationFee_effect hw hc h₁
  have hcash := ht.cash D.bondEscrow
  rw [hps _ D.bondEscrow_inside] at hcash
  have hcov := h.escrow.covered
  refine Ends.bind (lockBond_ends hE hm hcaller ?_) fun _ _ _ => trivial
  rw [hk.escrow]
  change w.token.balanceOf D.bondEscrow + _ ≤ _ at hcash
  change w.escrow.totalLocked + w.escrow.credits.totalCredits ≤ _
  omega

end

/-- Creating a market never fails for a lack of cover. -/
theorem createMarket_covered {caller : Address} {p : CreateMarketParams} {platformFees : Option (Nat × Nat)}
    {market : Address} (h : Sound D w) (hc : D.outside caller = true) :
    Ends (createMarket D w caller p platformFees market) (fun _ => True) NotInsolvent :=
  createMarket_ends notInsolvent_of_accrue h hc fun _ => notInsolvent_of rfl

/-! ## The escrow -/

/-- In every reachable state the escrow's totals are the sums they stand for and its balance covers them, so creating a
market never fails for a lack of cover; a bond once settled stays settled, a step that settles a bond sends it where it
belongs, and the bond of a market that has ended is settled by anyone's call, unless the token refuses to move it. -/
theorem bond_escrow (hr : Reachable D w) :
    (w.escrow.totalLocked = ∑ m, (if (w.escrow.bondOf m).settled = true then 0 else (w.escrow.bondOf m).amount) ∧
        w.escrow.credits.totalCredits = ∑ a, w.escrow.credits.creditOf a ∧
        w.escrow.totalLocked + w.escrow.credits.totalCredits ≤ w.token.balanceOf D.bondEscrow) ∧
      (∀ caller params platformFees market, D.outside caller = true →
        Ends (createMarket D w caller params platformFees market) (fun _ => True) NotInsolvent) ∧
      (∀ m, (w.escrow.bondOf m).creator ≠ 0 → (w.escrow.bondOf m).settled = true →
        ∀ w', Reach.Run (Step D) w w' → w'.escrow.bondOf m = w.escrow.bondOf m) ∧
      (∀ m, (w.escrow.bondOf m).creator ≠ 0 → ∀ w', Step D w w' → w'.escrow.bondOf m = w.escrow.bondOf m ∨
        ((w.escrow.bondOf m).settled = false ∧ SettledTo w w' m)) ∧
      (∀ m, w.factory.isMarket m = true → (w.vaults m).marketState ≠ .open → (w.escrow.bondOf m).settled = false →
        Ends (settleBond D w m) (SettledTo w · m) (Refused w D.bondEscrow m (w.escrow.bondOf m).amount)) := by
  have h := Reachable.sound hr
  refine ⟨⟨h.escrow.locked, h.escrow.credits, h.escrow.covered⟩, fun _ _ _ _ hc => createMarket_covered h hc,
    fun m hc hs w' hrun => run_bond hr hc hs hrun, fun m hc w' hs => step_bond h hc hs, fun m hm ho hs => ?_⟩
  have hends := settleBond_ends h hm ho hs
  cases hw' : settleBond D w m with
  | error e => rw [hw'] at hends; exact hends
  | ok w' =>
    have heff := (settleBond_effect h.wired hw').1
    obtain ⟨hmkt, hbond⟩ := h.markets m hm
    have hcreator : (w.escrow.bondOf m).creator ≠ 0 := by
      intro h0
      have hout := hmkt.configured.creator_outside
      rw [← hbond.creator, h0, D.zero_outside] at hout
      cases hout
    rcases effect_bond hcreator heff with he | ⟨_, hset⟩
    · have hnow := settleBond_settles h.wired hw'
      rw [he, hs] at hnow
      cases hnow
    · exact hset

end Core

/-- The sample market after its timeout: its bond has left the escrow. -/
theorem bond_escrow_sample :
    (Sample.played Sample.timeout).escrow.totalLocked + (Sample.played Sample.timeout).escrow.credits.totalCredits ≤
        (Sample.played Sample.timeout).token.balanceOf Sample.deployment.bondEscrow ∧
      (Sample.played Sample.timeout).escrow.totalLocked = 0 ∧
      ((Sample.played Sample.timeout).escrow.bondOf Sample.market).settled = true :=
  ⟨(Core.bond_escrow (Sample.played_reachable Sample.timeout)).1.2.2, by decide +kernel, by decide +kernel⟩

end Cpredict
