import Cpredict.Core.Inversion

/-!
# The invariant of the core

`MarketSound` is what holds of one market, its vault and its part of the log; `BondSound` of its bond; `EscrowSound` of
the bond escrow as a whole. Every effect keeps them (`Effect.sound`), so they hold in every reachable state
(`Reachable.sound`).
-/

namespace Cpredict

open Outcome Balances Tally Finset

namespace Core

/-- What holds of a registered market. -/
structure MarketSound (D : Deployment) (w : Core) (m : Address) : Prop where
  configured : (w.vaults m).Configured D
  ledger : (w.vaults m).Ledger
  pools : (w.vaults m).Pools
  history : History (w.vaults m) (milestones m w.log)
  created : (w.vaults m).init.createdAt ≤ w.now
  conserved : paidBy m w.log + (w.vaults m).liabilities = total VaultEvent.income (milestones m w.log)
  received : total VaultEvent.income (milestones m w.log) ≤ paidTo m w.log

/-- What holds of the bond of a registered market. -/
structure BondSound (w : Core) (m : Address) : Prop where
  creator : (w.escrow.bondOf m).creator = (w.vaults m).init.creator
  amount : (w.escrow.bondOf m).amount = (w.vaults m).init.creatorBond
  settled : (w.escrow.bondOf m).settled = true → (w.vaults m).marketState ≠ .open
  funded : (w.vaults m).timeoutBonusFunded = true ↔
    (w.escrow.bondOf m).settled = true ∧ timedOut (w.vaults m) = true ∧ (w.vaults m).totalPrincipal ≠ 0
  injected : total VaultEvent.bonusFunded (milestones m w.log) =
    if (w.vaults m).timeoutBonusFunded = true then (w.vaults m).init.creatorBond else 0

/-- The part of a bond that is locked. -/
def lockedAmount (b : Bond) : Nat := if b.settled = true then 0 else b.amount

/-- The accounts of the bond escrow. -/
structure EscrowSound (D : Deployment) (w : Core) : Prop where
  locked : w.escrow.totalLocked = ∑ m, lockedAmount (w.escrow.bondOf m)
  credits : w.escrow.credits.Balanced
  covered : w.escrow.totalLocked + w.escrow.credits.totalCredits ≤ w.token.balanceOf D.bondEscrow

/-- What holds in every reachable state. -/
structure Sound (D : Deployment) (w : Core) : Prop where
  wired : Wired D w
  booked : ∀ a, paidTo a w.log ≤ w.token.balanceOf a + paidBy a w.log
  unused : ∀ m, D.outside m = false → D.fixed m = false → w.factory.isMarket m = false →
    milestones m w.log = [] ∧ paidBy m w.log = 0
  unbonded : ∀ m, w.factory.isMarket m = false → w.escrow.bondOf m = ⟨0, 0, false⟩
  markets : ∀ m, w.factory.isMarket m = true → MarketSound D w m ∧ BondSound w m
  escrow : EscrowSound D w

section

variable {D : Deployment} {w w' : Core} {m market : Address}

/-! ## Markets that a call does not touch -/

theorem MarketSound.keep (h : MarketSound D w m) (hv : w'.vaults m = w.vaults m)
    (hm : milestones m w'.log = milestones m w.log) (hb : paidBy m w'.log = paidBy m w.log)
    (ht : paidTo m w.log ≤ paidTo m w'.log) (hn : w.now ≤ w'.now) : MarketSound D w' m where
  configured := by rw [hv]; exact h.configured
  ledger := by rw [hv]; exact h.ledger
  pools := by rw [hv]; exact h.pools
  history := by rw [hv, hm]; exact h.history
  created := by rw [hv]; exact h.created.trans hn
  conserved := by rw [hv, hm, hb]; exact h.conserved
  received := by rw [hm]; exact h.received.trans ht

theorem BondSound.keep (h : BondSound w m) (hv : w'.vaults m = w.vaults m)
    (hm : milestones m w'.log = milestones m w.log) (he : w'.escrow.bondOf m = w.escrow.bondOf m) : BondSound w' m where
  creator := by rw [hv, he]; exact h.creator
  amount := by rw [hv, he]; exact h.amount
  settled := by rw [hv, he]; exact h.settled
  funded := by rw [hv, he]; exact h.funded
  injected := by rw [hv, hm]; exact h.injected

/-! ## The market that takes a step -/

theorem filterMap_own (m : Address) (now : Nat) (e : Option VaultEvent) :
    (e.toList.map (m, ·)).filterMap (fun x : Address × VaultEvent => if x.1 = m then some (now, x.2) else none) =
      e.toList.map (now, ·) := by
  cases e <;> simp

/-- A market after a step of its vault. -/
theorem MarketSound.step {v' : Vault} {e : Option VaultEvent} {p : Option Payment} (h : MarketSound D w m)
    (hs : VaultStep D m w.now (w.vaults m) v' e p) (hv : w'.vaults m = v')
    (ht : Trace w w' (e.toList.map (m, ·)) p.toList) : MarketSound D w' m := by
  have hm := ht.milestones m
  rw [filterMap_own] at hm
  obtain ⟨hcons, hrec⟩ := hs.conserves h.configured h.pools
  refine ⟨?_, ?_, ?_, ?_, ?_, ?_, ?_⟩
  · rw [hv]; exact hs.configured h.configured
  · rw [hv]; exact hs.ledger h.ledger
  · rw [hv]; exact hs.pools h.pools
  · rw [hv, hm]; exact hs.history h.configured h.pools h.created h.history
  · rw [hv, hs.frame.init, ht.now]; exact h.created
  · rw [hv, hm, total_step, ht.paidBy]
    have := h.conserved
    omega
  · rw [hm, total_step, ht.paidTo]
    have := h.received
    omega

/-- After its end a market has no purchases, and keeps its outcome. -/
theorem ended_step {now : Nat} {v v' : Vault} {e : Option VaultEvent} {p : Option Payment}
    (hs : VaultStep D m now v v' e p) (ho : v.marketState ≠ .open) :
    SameOutcome v v' ∧ v'.terms = v.terms ∧ v'.totalPrincipal = v.totalPrincipal := by
  have hf := hs.frame
  refine ⟨?_, ?_, ?_⟩
  · rcases hf.outcome with ⟨hsame, _⟩ | ⟨hopen, _⟩
    · exact hsame
    · exact absurd hopen ho
  · rcases hf.terms with ht | hn
    · exact ht
    · exact absurd hn.isOpen ho
  · rcases hs.purchase_open with hopen | hz
    · exact absurd hopen ho
    · rw [hs.scores.principal, hz, Nat.add_zero]

theorem timedOut_same {v v' : Vault} (h : SameOutcome v v') : timedOut v' = timedOut v := by
  simp only [timedOut, h.marketState, h.voidReason]

/-- A step that is not the funding of the bonus. -/
theorem BondSound.step {v' : Vault} {e : Option VaultEvent} {p : Option Payment} (h : BondSound w m)
    (hp : (w.vaults m).Pools) (hs : VaultStep D m w.now (w.vaults m) v' e p)
    (hz : tally VaultEvent.bonusFunded e.toList = 0) (hv : w'.vaults m = v')
    (ht : Trace w w' (e.toList.map (m, ·)) p.toList) (he : w'.escrow = w.escrow) : BondSound w' m := by
  have hm := ht.milestones m
  rw [filterMap_own] at hm
  have hinit := hs.frame.init
  have hfunded := (hs.bonus hp).funded hz
  refine ⟨?_, ?_, fun hset => ?_, ?_, ?_⟩
  · rw [hv, he, hinit]; exact h.creator
  · rw [hv, he, hinit]; exact h.amount
  · rw [he] at hset
    have ho := h.settled hset
    rw [hv, (ended_step hs ho).1.marketState]
    exact ho
  · rw [hv, he, hfunded]
    cases hset : (w.escrow.bondOf m).settled with
    | false =>
      have := h.funded
      rw [hset] at this
      simpa using this
    | true =>
      obtain ⟨hsame, _, hprincipal⟩ := ended_step hs (h.settled hset)
      rw [timedOut_same hsame, hprincipal]
      have := h.funded
      rwa [hset] at this
  · rw [hv, hm, total_step, hz, hfunded, hinit]
    exact h.injected

/-! ## The escrow -/

theorem sum_locked_update {f : Address → Bond} (b : Bond) :
    ∑ a, lockedAmount (Function.update f m b a) + lockedAmount (f m) = ∑ a, lockedAmount (f a) + lockedAmount b := by
  have := sum_change (f := fun a => lockedAmount (f a)) (g := fun a => lockedAmount (Function.update f m b a))
    (mem_univ m)
    fun j _ hj => by rw [Function.update_of_ne hj]
  simpa using this

/-- A bond that is settled leaves the locked total. -/
theorem EscrowSound.unlock {e : Escrow} (h : EscrowSound D w) (hs : (w.escrow.bondOf m).settled = false)
    (hu : w.escrow.unlock m = .ok (e, w.escrow.bondOf m)) :
    e.totalLocked = ∑ a, lockedAmount (e.bondOf a) ∧ e.credits = w.escrow.credits ∧
      e.totalLocked + (w.escrow.bondOf m).amount = w.escrow.totalLocked := by
  obtain ⟨hle, _, rfl⟩ := Escrow.unlock_eq_ok.mp hu
  have := sum_locked_update (f := w.escrow.bondOf) (m := m) { w.escrow.bondOf m with settled := true }
  have hlocked := h.locked
  simp only [lockedAmount, hs, if_true] at this hlocked ⊢
  refine ⟨?_, trivial, by omega⟩
  simp only [Bool.false_eq_true, if_false] at this
  omega

theorem EscrowSound.keep (h : EscrowSound D w) (he : w'.escrow = w.escrow)
    (hb : w.token.balanceOf D.bondEscrow ≤ w'.token.balanceOf D.bondEscrow) : EscrowSound D w' where
  locked := by rw [he]; exact h.locked
  credits := by rw [he]; exact h.credits
  covered := by rw [he]; exact h.covered.trans hb

theorem Effect.escrowSound (hw : Wired D w) (hu : ∀ m, w.factory.isMarket m = false → w.escrow.bondOf m = ⟨0, 0, false⟩)
    (h : EscrowSound D w) (he : Effect D w w') : EscrowSound D w' := by
  have hbal : ∀ {ms ps}, Trace w w' ms ps → tally (Payment.sent D.bondEscrow) ps = 0 →
      w.token.balanceOf D.bondEscrow ≤ w'.token.balanceOf D.bondEscrow := by
    intro ms ps ht hz
    have := ht.cash D.bondEscrow
    omega
  cases he with
  | other ps _ _ hesc ht hun =>
    exact h.keep hesc (hbal ht (hun _ D.bondEscrow_inside D.bondEscrow_ne_zero D.bondEscrow_ne_feeVault))
  | vault market _ _ _ hm _ _ _ hesc ht _ hun =>
    exact h.keep hesc (hbal ht (hun _ D.bondEscrow_inside (hw.market_ne hm).2.1.symm))
  | credit market e _ _ _ hs _ _ hunlock hesc ht =>
    obtain ⟨hlocked, hcredits, hsum⟩ := h.unlock hs hunlock
    have hb := hbal ht rfl
    have hcov := h.covered
    refine ⟨?_, ?_, ?_⟩ <;> rw [hesc]
    · exact hlocked
    · exact Credits.add_balanced (by rw [hcredits]; exact h.credits) _ _
    · simp only [Escrow.credit, Credits.add, hcredits]
      omega
  | fund market v' _ _ _ _ hs _ _ _ _ hunlock ht =>
    obtain ⟨hlocked, hcredits, hsum⟩ := h.unlock hs hunlock
    have hcash := ht.cash D.bondEscrow
    have hcov := h.covered
    simp only [tally_cons, tally_nil, Payment.sent, if_true] at hcash
    refine ⟨hlocked, by rw [hcredits]; exact h.credits, ?_⟩
    rw [hcredits]
    omega
  | claim creator credits amount _ _ hc hesc ht =>
    obtain ⟨_, _, hle, hcredits⟩ := Credits.claim_eq_ok hc
    have hcash := ht.cash D.bondEscrow
    have hcov := h.covered
    simp only [tally_cons, tally_nil, Payment.sent, if_true] at hcash
    refine ⟨?_, ?_, ?_⟩ <;> rw [hesc]
    · exact h.locked
    · exact Credits.claim_balanced h.credits hc
    · rw [hcredits]
      simp only
      omega
  | create creator market p _ _ e _ hnew _ _ _ _ _ _ hl hesc hcov _ _ =>
    obtain ⟨_, hl⟩ := hl
    obtain ⟨_, _, _, _, rfl⟩ := Escrow.lockBond_eq_ok hl
    have := sum_locked_update (f := w.escrow.bondOf) (m := market) ⟨creator, p.creatorBond, false⟩
    have hold : lockedAmount (w.escrow.bondOf market) = 0 := by rw [hu market hnew]; rfl
    have hlocked := h.locked
    refine ⟨?_, ?_, ?_⟩ <;> rw [hesc]
    · simp only [lockedAmount, Bool.false_eq_true, if_false] at this hlocked hold ⊢
      omega
    · exact h.credits
    · exact hcov

/-! ## New markets -/

/-- A vault that the factory has just set up, with its bond just locked. -/
theorem created_sound {creator : Address} {p : CreateMarketParams} {economics : EconomicSnapshot} {v : Vault}
    (ho : D.outside creator = true) (hval : ValidParams p) (hecon : economics.Bounded)
    (hv : Vault.blank.initializeVault D.factory (buildInit D w p creator economics) p.terms = .ok v) :
    v.Configured D ∧ v.Ledger ∧ v.Pools ∧ History v [] ∧ v.init.createdAt = w.now ∧ v.liabilities = 0 ∧
      v.init.creator = creator ∧ v.init.creatorBond = p.creatorBond ∧ v.timeoutBonusFunded = false := by
  obtain ⟨rfl, _, hc, ht, h₁, h₂, htr, hvt⟩ := Vault.initializeVault_eq_ok hv
  refine ⟨?_, ?_, ?_, ?_, rfl, ?_, rfl, rfl, rfl⟩
  · exact ⟨rfl, rfl, ho, h₁, h₂, hval.marketCap, hval.userCap, hval.minimum, hval.bond, hecon, htr, hvt⟩
  · refine ⟨?_, fun u => ?_, ?_, ?_, fun _ _ => rfl, ?_, ?_, le_rfl, Shares.blank_backed, fun _ _ => rfl, fun _ => rfl,
      fun _ => rfl⟩
    · simp [Vault.totalPrincipal, Vault.blank]
    · simp [Vault.cumulativePrimaryBought, Vault.blank]
    · simp [Vault.cumulativePrimaryBought, Vault.totalPrincipal, Vault.blank]
    · simp [Vault.totalPrincipal, Vault.blank]
    · simp [Vault.totalPrincipal, Vault.totalEarlyBirdScore, Vault.blank]
    · simp [Vault.earlyBirdScore, Vault.currentScore, Vault.totalEarlyBirdScore, Vault.blank]
  · refine ⟨by simp [Vault.blank], ?_, ?_, ?_, fun _ => ⟨rfl, fun _ => rfl⟩, fun _ => rfl, ?_, ?_⟩
    · intro h; cases h
    · intro h; cases h
    · intro h; cases h
    · intro h; cases h
    · intro h; cases h
  · refine ⟨?_, fun u => ?_, by simp, .inl ⟨rfl, rfl⟩, fun _ => rfl, rfl, ?_⟩
    · simp [total, Vault.totalPrincipal, Vault.blank]
    · simp [total, Vault.earlyBirdScore, Vault.blank]
    · simp [total, Vault.totalPrincipal, Vault.blank]
  · simp [Vault.liabilities, Vault.totalPrincipal, Vault.blank]

/-! ## All effects -/

theorem fixed_ne (h : D.fixed m = false) : m ≠ 0 ∧ m ≠ D.feeVault ∧ m ≠ D.bondEscrow := by
  simp only [Deployment.fixed, Bool.or_eq_false_iff, decide_eq_false_iff_not] at h
  exact ⟨h.2, h.1.1.2, h.1.1.1.2⟩

theorem booked_step {ms : List (Address × VaultEvent)} {ps : List Payment}
    (h : ∀ a, paidTo a w.log ≤ w.token.balanceOf a + paidBy a w.log) (ht : Trace w w' ms ps) (a : Address) :
    paidTo a w'.log ≤ w'.token.balanceOf a + paidBy a w'.log := by
  rw [ht.paidTo, ht.paidBy]
  have := h a
  have := ht.cash a
  omega

/-- A market and its bond when a call neither logs for the market nor pays from it. -/
theorem keep_market {ms : List (Address × VaultEvent)} {ps : List Payment} (ht : Trace w w' ms ps)
    (hms : ∀ x ∈ ms, x.1 ≠ m) (hs : tally (Payment.sent m) ps = 0) :
    milestones m w'.log = milestones m w.log ∧ paidBy m w'.log = paidBy m w.log ∧ paidTo m w.log ≤ paidTo m w'.log := by
  refine ⟨?_, ?_, ?_⟩
  · rw [ht.milestones, List.filterMap_eq_nil_iff.mpr fun x hx => if_neg (hms x hx), List.append_nil]
  · rw [ht.paidBy, hs, Nat.add_zero]
  · rw [ht.paidTo]; exact Nat.le_add_right _ _

theorem BondSound.settle (h : BondSound w m) (hv : w'.vaults m = w.vaults m)
    (hm : milestones m w'.log = milestones m w.log) (ho : (w.vaults m).marketState ≠ .open)
    (hd : ¬(timedOut (w.vaults m) = true ∧ (w.vaults m).totalPrincipal ≠ 0))
    (he : w'.escrow.bondOf m = { w.escrow.bondOf m with settled := true }) : BondSound w' m where
  creator := by rw [hv, he]; exact h.creator
  amount := by rw [hv, he]; exact h.amount
  settled := by rw [hv]; exact fun _ => ho
  funded := by
    rw [hv, he, h.funded]
    exact ⟨fun hf => absurd hf.2 hd, fun hf => absurd hf.2 hd⟩
  injected := by rw [hv, hm]; exact h.injected

theorem BondSound.fund {v' : Vault} {previous current : Nat} (h : BondSound w m)
    (hs : VaultStep D m w.now (w.vaults m) v'
      (some (.TimeoutBonusFunded (w.escrow.bondOf m).amount v'.totalPrincipal previous current))
      (some ⟨D.bondEscrow, m, (w.escrow.bondOf m).amount⟩))
    (hd : timedOut (w.vaults m) = true ∧ (w.vaults m).totalPrincipal ≠ 0) (hu : (w.escrow.bondOf m).settled = false)
    (hv : w'.vaults m = v')
    (hm : milestones m w'.log = milestones m w.log ++
      [(w.now, .TimeoutBonusFunded (w.escrow.bondOf m).amount v'.totalPrincipal previous current)])
    (he : w'.escrow.bondOf m = { w.escrow.bondOf m with settled := true }) : BondSound w' m := by
  have hv' : v' = { w.vaults m with
      timeoutBonusFunded := true
      remainingTimeoutBonusUnits := (w.vaults m).totalPrincipal
      remainingTimeoutBonusPool := (w.escrow.bondOf m).amount } := by
    cases hs with
    | fundTimeoutBonus _ _ _ _ _ _ hf => exact (Vault.fundTimeoutBonus_eq_ok.mp hf).2.2.2.2.2
  have hopen : (w.vaults m).marketState ≠ .open := by
    have := hd.1
    simp only [timedOut, decide_eq_true_eq] at this
    rw [this.1]
    decide
  have hfunded : (w.vaults m).timeoutBonusFunded = false := by
    cases hf : (w.vaults m).timeoutBonusFunded with
    | false => rfl
    | true => rw [(h.funded.mp hf).1] at hu; cases hu
  have hnone : total VaultEvent.bonusFunded (milestones m w.log) = 0 := by
    rw [h.injected, hfunded]
    rfl
  refine ⟨?_, ?_, fun _ => ?_, ?_, ?_⟩
  · rw [hv, he, hv']; exact h.creator
  · rw [hv, he, hv']; exact h.amount
  · rw [hv, hv']; exact hopen
  · rw [hv, he, hv']
    exact ⟨fun _ => ⟨rfl, hd⟩, fun _ => rfl⟩
  · rw [hv, hm, hv', total, tally_append, ← total, hnone, Nat.zero_add]
    exact h.amount

theorem Effect.sound (h : Sound D w) (hw : Wired D w') (he : Effect D w w') : Sound D w' := by
  have hesc := he.escrowSound h.wired h.unbonded h.escrow
  have hpay : ∀ {a : Address}, w.factory.isMarket a = true → D.outside a = false ∧ a ≠ 0 ∧ a ≠ D.feeVault ∧
    a ≠ D.bondEscrow :=
    fun {a} ha => ⟨(h.wired.market a ha).1, fixed_ne (h.wired.market a ha).2⟩
  cases he with
  | other ps hv hf hb ht hun =>
    refine ⟨hw, booked_step h.booked ht, fun m ho hx hm => ?_, fun m hm => ?_, fun m hm => ?_, hesc⟩
    · obtain ⟨h₀, h₁, _⟩ := fixed_ne hx
      obtain ⟨k₁, k₂, _⟩ := keep_market ht (m := m) (by simp) (hun m ho h₀ h₁)
      rw [k₁, k₂]
      exact h.unused m ho hx (by rw [← hf]; exact hm)
    · rw [hb]; exact h.unbonded m (by rw [← hf]; exact hm)
    · rw [hf] at hm
      obtain ⟨ho, h₀, h₁, _⟩ := hpay hm
      obtain ⟨k₁, k₂, k₃⟩ := keep_market ht (m := m) (by simp) (hun m ho h₀ h₁)
      obtain ⟨hmkt, hbond⟩ := h.markets m hm
      exact ⟨hmkt.keep (by rw [hv]) k₁ k₂ k₃ ht.now.ge, hbond.keep (by rw [hv]) k₁ (by rw [hb])⟩
  | vault market v' e p hmk hs hv hf hb ht hz hun =>
    have hother : ∀ {m : Address}, D.outside m = false → m ≠ market → milestones m w'.log = milestones m w.log ∧
        paidBy m w'.log = paidBy m w.log ∧ paidTo m w.log ≤ paidTo m w'.log := by
      intro m ho hne
      refine keep_market ht (fun x hx => ?_) (hun m ho hne)
      obtain ⟨y, _, rfl⟩ := List.mem_map.mp hx
      exact hne.symm
    refine ⟨hw, booked_step h.booked ht, fun m ho hx hm => ?_, fun m hm => ?_, fun m hm => ?_, hesc⟩
    · rw [hf] at hm
      have hne : m ≠ market := by rintro rfl; rw [hmk] at hm; cases hm
      obtain ⟨k₁, k₂, _⟩ := hother ho hne
      rw [k₁, k₂]
      exact h.unused m ho hx hm
    · rw [hb]; exact h.unbonded m (by rw [← hf]; exact hm)
    · rw [hf] at hm
      obtain ⟨hmkt, hbond⟩ := h.markets m hm
      by_cases hne : m = market
      · subst hne
        have hself : w'.vaults m = v' := by rw [hv, Function.update_self]
        exact ⟨hmkt.step hs hself ht, hbond.step hmkt.pools hs hz hself ht hb⟩
      · obtain ⟨k₁, k₂, k₃⟩ := hother (hpay hm).1 hne
        have hsame : w'.vaults m = w.vaults m := by rw [hv, Function.update_of_ne hne]
        exact ⟨hmkt.keep hsame k₁ k₂ k₃ ht.now.ge, hbond.keep hsame k₁ (by rw [hb])⟩
  | credit market e hv hf hc hs ho hd hu hb ht =>
    have hbond : w'.escrow.bondOf = Function.update w.escrow.bondOf market
        { w.escrow.bondOf market with settled := true } := by
      obtain ⟨_, _, rfl⟩ := Escrow.unlock_eq_ok.mp hu
      rw [hb]
      rfl
    refine ⟨hw, booked_step h.booked ht, fun m ho hx hm => ?_, fun m hm => ?_, fun m hm => ?_, hesc⟩
    · obtain ⟨k₁, k₂, _⟩ := keep_market ht (m := m) (by simp) rfl
      rw [k₁, k₂]
      exact h.unused m ho hx (by rw [← hf]; exact hm)
    · rw [hf] at hm
      have hnone := h.unbonded m hm
      have hne : m ≠ market := by rintro rfl; rw [hnone] at hc; exact hc rfl
      rw [hbond, Function.update_of_ne hne]
      exact hnone
    · rw [hf] at hm
      obtain ⟨hmkt, hbnd⟩ := h.markets m hm
      obtain ⟨k₁, k₂, k₃⟩ := keep_market ht (m := m) (by simp) rfl
      refine ⟨hmkt.keep (by rw [hv]) k₁ k₂ k₃ ht.now.ge, ?_⟩
      by_cases hne : m = market
      · subst hne
        exact hbnd.settle (by rw [hv]) k₁ ho hd (by rw [hbond, Function.update_self])
      · exact hbnd.keep (by rw [hv]) k₁ (by rw [hbond, Function.update_of_ne hne])
  | fund market v' previous current hmk hc hu hs hd hv hf hun ht =>
    have hbond : w'.escrow.bondOf = Function.update w.escrow.bondOf market
        { w.escrow.bondOf market with settled := true } := by
      obtain ⟨_, _, he⟩ := Escrow.unlock_eq_ok.mp hun
      rw [he]
    have hother : ∀ {m : Address}, m ≠ D.bondEscrow → m ≠ market → milestones m w'.log = milestones m w.log ∧
        paidBy m w'.log = paidBy m w.log ∧ paidTo m w.log ≤ paidTo m w'.log := by
      intro m ho hne
      refine keep_market ht (fun x hx => ?_) ?_
      · rw [List.mem_singleton.mp hx]; exact hne.symm
      · simp [Payment.sent, ho.symm]
    refine ⟨hw, booked_step h.booked ht, fun m ho hx hm => ?_, fun m hm => ?_, fun m hm => ?_, hesc⟩
    · rw [hf] at hm
      have hne : m ≠ market := by rintro rfl; rw [hmk] at hm; cases hm
      obtain ⟨k₁, k₂, _⟩ := hother (fixed_ne hx).2.2 hne
      rw [k₁, k₂]
      exact h.unused m ho hx hm
    · rw [hf] at hm
      have hne : m ≠ market := by rintro rfl; rw [hmk] at hm; cases hm
      rw [hbond, Function.update_of_ne hne]
      exact h.unbonded m hm
    · rw [hf] at hm
      obtain ⟨hmkt, hbnd⟩ := h.markets m hm
      by_cases hne : m = market
      · subst hne
        have hself : w'.vaults m = v' := by rw [hv, Function.update_self]
        refine ⟨hmkt.step hs hself ht, hbnd.fund hs hd hu hself ?_ (by rw [hbond, Function.update_self])⟩
        rw [ht.milestones]
        simp
      · obtain ⟨k₁, k₂, k₃⟩ := hother (hpay hm).2.2.2 hne
        have hsame : w'.vaults m = w.vaults m := by rw [hv, Function.update_of_ne hne]
        exact ⟨hmkt.keep hsame k₁ k₂ k₃ ht.now.ge, hbnd.keep hsame k₁ (by rw [hbond, Function.update_of_ne hne])⟩
  | claim creator credits amount hv hf hc hb ht =>
    have hother : ∀ {m : Address}, m ≠ D.bondEscrow → milestones m w'.log = milestones m w.log ∧
        paidBy m w'.log = paidBy m w.log ∧ paidTo m w.log ≤ paidTo m w'.log := by
      intro m ho
      exact keep_market ht (by simp) (by simp [Payment.sent, ho.symm])
    refine ⟨hw, booked_step h.booked ht, fun m ho hx hm => ?_, fun m hm => ?_, fun m hm => ?_, hesc⟩
    · obtain ⟨k₁, k₂, _⟩ := hother (fixed_ne hx).2.2
      rw [k₁, k₂]
      exact h.unused m ho hx (by rw [← hf]; exact hm)
    · rw [hb]; exact h.unbonded m (by rw [← hf]; exact hm)
    · rw [hf] at hm
      obtain ⟨k₁, k₂, k₃⟩ := hother (hpay hm).2.2.2
      obtain ⟨hmkt, hbond⟩ := h.markets m hm
      exact ⟨hmkt.keep (by rw [hv]) k₁ k₂ k₃ ht.now.ge, hbond.keep (by rw [hv]) k₁ (by rw [hb])⟩
  | create creator market p economics v e ps hnew ho hecon hval hv hvs hf hl hb hcov ht hun =>
    obtain ⟨c, hval⟩ := hval
    obtain ⟨_, hl⟩ := hl
    obtain ⟨_, _, _, _, he⟩ := Escrow.lockBond_eq_ok hl
    have hmarket := hw.market market (by rw [hf, Function.update_self])
    have hold : ∀ {m : Address}, m ≠ market → w'.factory.isMarket m = w.factory.isMarket m :=
      fun {m} hne => by rw [hf, Function.update_of_ne hne]
    have hother : ∀ {m : Address}, D.outside m = false → milestones m w'.log = milestones m w.log ∧
        paidBy m w'.log = paidBy m w.log ∧ paidTo m w.log ≤ paidTo m w'.log :=
      fun {m} hm => keep_market ht (by simp) (hun m hm)
    refine ⟨hw, booked_step h.booked ht, fun m hm hx hno => ?_, fun m hm => ?_, fun m hm => ?_, hesc⟩
    · have hne : m ≠ market := by rintro rfl; rw [hf, Function.update_self] at hno; cases hno
      obtain ⟨k₁, k₂, _⟩ := hother hm
      rw [k₁, k₂]
      exact h.unused m hm hx (by rw [← hold hne]; exact hno)
    · have hne : m ≠ market := by rintro rfl; rw [hf, Function.update_self] at hm; cases hm
      rw [hb, he]
      simp only [Function.update_of_ne hne]
      exact h.unbonded m (by rw [← hold hne]; exact hm)
    · by_cases hne : m = market
      · subst hne
        obtain ⟨hc, hl, hp, hh, hcr, hliab, h₁, h₂, h₃⟩ :=
          created_sound ho (validate_eq_ok h.wired.config hval).1 hecon hv
        have hself : w'.vaults m = v := by rw [hvs, Function.update_self]
        obtain ⟨hnil, hzero⟩ := h.unused m hmarket.1 hmarket.2 hnew
        obtain ⟨k₁, k₂, _⟩ := hother hmarket.1
        rw [hnil] at k₁
        rw [hzero] at k₂
        have hbond : w'.escrow.bondOf m = ⟨creator, p.creatorBond, false⟩ := by
          rw [hb, he]
          simp only [Function.update_self]
        refine ⟨⟨?_, ?_, ?_, ?_, ?_, ?_, ?_⟩, ⟨?_, ?_, ?_, ?_, ?_⟩⟩
        · rw [hself]; exact hc
        · rw [hself]; exact hl
        · rw [hself]; exact hp
        · rw [hself, k₁]; exact hh
        · rw [hself, hcr, ht.now]
        · rw [hself, k₁, k₂, hliab]; rfl
        · rw [k₁]; exact Nat.zero_le _
        · rw [hbond, hself, h₁]
        · rw [hbond, hself, h₂]
        · rw [hbond]; intro hx; cases hx
        · rw [hbond, hself, h₃]; simp
        · rw [k₁, hself, h₃]; rfl
      · rw [hold hne] at hm
        obtain ⟨k₁, k₂, k₃⟩ := hother (hpay hm).1
        obtain ⟨hmkt, hbond⟩ := h.markets m hm
        have hsame : w'.vaults m = w.vaults m := by rw [hvs, Function.update_of_ne hne]
        refine ⟨hmkt.keep hsame k₁ k₂ k₃ ht.now.ge, hbond.keep hsame k₁ ?_⟩
        rw [hb, he]
        simp only [Function.update_of_ne hne]

/-! ## Runs -/

theorem genesis_sound (h : Genesis D w) : Sound D w where
  wired :=
    { config := h.config
      insulated := h.allowance
      market := fun m hm => by rw [h.noMarket] at hm; cases hm
      balanced := by
        unfold Guard.Balanced
        rw [h.guard.1]
        exact (sum_eq_zero fun m _ => h.guard.2.2 m).symm
      registered := fun m hm => by rw [h.noMarket] at hm; cases hm
      onlyMarkets := fun m hm => by rw [h.guard.2.1] at hm; cases hm
      accruers := fun m hm => by rw [h.noMarket] at hm; cases hm
      factoryAccrues := h.feeVault.2.1
      marketplaceAccrues := h.feeVault.2.2
      feeCredits := by rw [h.feeVault.1]; exact Nat.zero_le _ }
  booked := fun a => by rw [h.log]; exact Nat.zero_le _
  unused := fun m _ _ _ => by rw [h.log]; exact ⟨rfl, rfl⟩
  unbonded := fun m _ => by rw [h.escrow]
  markets := fun m hm => by rw [h.noMarket] at hm; cases hm
  escrow := by
    refine ⟨?_, ?_, ?_⟩ <;> rw [h.escrow]
    · exact (sum_eq_zero fun m _ => rfl).symm
    · exact Credits.none_balanced
    · exact Nat.zero_le _

theorem Sound.minimum (h : Sound D w) : ∀ m, w.factory.isMarket m = true → 0 < (w.vaults m).init.minimumPrimaryUnits :=
  fun m hm => (h.markets m hm).1.configured.minimum

theorem exec_sound {caller : Address} {c : CoreCall} (h : Sound D w) (he : exec D w caller c = .ok w') :
    Sound D w' := by
  obtain ⟨heff, hw⟩ := exec_effect h.wired h.minimum he
  exact heff.sound h hw

theorem tick_sound (h : Sound D w) (seconds : Nat) : Sound D { w with now := w.now + seconds } where
  wired := h.wired.of_same rfl rfl rfl rfl rfl le_rfl
  booked := h.booked
  unused := h.unused
  unbonded := h.unbonded
  markets := fun m hm => ⟨(h.markets m hm).1.keep rfl rfl rfl le_rfl (Nat.le_add_right _ _),
    (h.markets m hm).2.keep rfl rfl rfl⟩
  escrow := h.escrow.keep rfl le_rfl

theorem Step.sound (h : Sound D w) (hs : Step D w w') : Sound D w' := by
  cases hs with
  | call _ _ _ he => exact exec_sound h he
  | tick seconds => exact tick_sound h seconds

/-- The invariant holds in every reachable state. -/
theorem Reachable.sound (h : Reachable D w) : Sound D w :=
  Reach.Reachable.invariant (I := Sound D) (fun _ h₀ => genesis_sound h₀) (fun _ _ _ hi hs => Step.sound hi hs) h

end

end Core

end Cpredict
