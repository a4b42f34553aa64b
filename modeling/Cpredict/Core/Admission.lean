import Cpredict.Core.Lifecycle

/-!
# What the factory admits

A parameter set that `_validate` accepts initialises its vault: every check that `_initialize` makes has been made, with
other constants and in other widths, by the factory, its constructor or the setters of the configuration
(`initializeVault_succeeds`). The vault's parameters are then within the bounds that its later functions rely on
(`Admitted`), and no later call changes them (`factory_admission`).
-/

namespace Cpredict

open Outcome MulDiv

/-- What the constructors of the factory and of the configuration refuse to be built without. -/
structure Deployment.Constructed (D : Deployment) : Prop where
  factory : D.factory ≠ 0
  paymentToken : D.paymentToken ≠ 0
  config : D.config ≠ 0
  emergencyController : D.emergencyController ≠ 0
  exposureGuard : D.exposureGuard ≠ 0

/-- The parameters fit their types in the call: its times are `uint64`. -/
structure CreateMarketParams.Typed (p : CreateMarketParams) : Prop where
  closeAt : p.terms.closeAt < 2 ^ 64
  outcomeDeadlineAt : p.terms.outcomeDeadlineAt < 2 ^ 64

/-- The sale of shares for `gross` leaves the seller nearly all of it. -/
structure EconomicSnapshot.Sells (e : EconomicSnapshot) (gross : Nat) : Prop where
  fees : mulDiv gross e.platformC2CFeeBps BPS + mulDiv gross e.creatorC2CFeeBps BPS ≤ gross
  proceeds : 96 * gross ≤ 100 * (gross - mulDiv gross e.platformC2CFeeBps BPS - mulDiv gross e.creatorC2CFeeBps BPS)

namespace Core

/-- The parameters that a vault can be run with. -/
structure Admitted (i : MarketInit) : Prop where
  creatorRake : i.economics.creatorRakeBps ≤ 1000
  protocolShare : i.economics.protocolShareBps ≤ 5000
  earlyBirdShare : i.economics.earlyBirdShareBps ≤ 5000
  platformC2CFee : i.economics.platformC2CFeeBps ≤ 200
  creatorC2CFee : i.economics.creatorC2CFeeBps ≤ 200
  sells : ∀ gross, i.economics.Sells gross
  minimum : i.minimumPrimaryUnits ≤ i.perUserPrimaryCap
  userCap : i.perUserPrimaryCap ≤ i.marketPrimaryCap
  bond_ge : requiredBond i.marketPrimaryCap ≤ i.creatorBond
  bond_le : i.creatorBond ≤ MAX_CREATOR_BOND
  deadline : ∀ outcomeDeadlineAt < 2 ^ 64, outcomeDeadlineAt + i.resolutionWindow < 2 ^ 256

variable {D : Deployment} {w w' : Core} {m caller : Address} {p : CreateMarketParams} {e e' : EconomicSnapshot}
  {fees : Option (Nat × Nat)}

/-! ## The checks of the factory -/

/-- What `_validate` has checked. -/
structure Accepted (D : Deployment) (w : Core) (p : CreateMarketParams) (e : EconomicSnapshot) : Prop where
  rulesHash : p.terms.rulesHash ≠ 0
  creatorTreasury : p.terms.creatorTreasury ≠ 0
  metadataURI : p.terms.metadataURI.length ≤ MAX_URI_LENGTH
  resolutionSourceURI : p.terms.resolutionSourceURI.length ≤ MAX_URI_LENGTH
  outcomes : 2 ≤ p.outcomeCount ∧ p.outcomeCount ≤ 32
  times : w.now + 5 * 60 ≤ p.terms.closeAt ∧ p.terms.closeAt ≤ w.now + 90 * 24 * 3600
  eventTimes : ¬(p.terms.outcomeDeadlineAt < p.terms.closeAt ∨ p.terms.eventStartsAt ≠ 0 ∧
    (p.terms.eventStartsAt ≤ p.terms.closeAt ∨ p.terms.outcomeDeadlineAt < p.terms.eventStartsAt))
  featureFlags : (p.terms.featureFlags &&& (2 ^ 256 - 1 - SUPPORTED_FEATURE_FLAGS)) = 0
  userCap : p.perUserPrimaryCap ≤ p.marketPrimaryCap
  minimum : p.minimumPrimaryUnits ≤ p.perUserPrimaryCap
  bond : requiredBond p.marketPrimaryCap ≤ p.creatorBond ∧ p.creatorBond ≤ MAX_CREATOR_BOND
  snapshot : w.config.snapshot p.creatorRakeBps p.creatorC2CFeeBps = .ok e

theorem validate_accepted (h : validate D w p = .ok e) : Accepted D w p e := by
  simp only [validate, validateMinimum, bind_eq_ok, revertIf_eq_ok] at h
  obtain ⟨_, h₁, _, h₂, _, h₃, _, h₄, _, h₅, _, h₆, _, h₇, _, h₈, _, _, _, _, _, h₉, _, h₁₀, _, _, _, h₁₁, h₁₂⟩ := h
  exact ⟨h₁, h₂, by omega, by omega, by omega, by omega, h₇, not_not.mp h₈, by omega, by omega, by omega, h₁₂⟩

/-! ## The checks of the vault -/

/-- Terms that the factory accepts at the creation of a vault are accepted by the vault. -/
theorem setTerms_succeeds {v : Vault} (ha : Accepted D w p e) (hc : v.init.createdAt = w.now) :
    v.setTerms p.terms = .ok { v with terms := p.terms } := by
  have htimes := ha.times
  have hmeta := ha.metadataURI
  have hsource := ha.resolutionSourceURI
  have hvalid : Vault.validateTimes v.init.createdAt p.terms.closeAt p.terms.eventStartsAt p.terms.outcomeDeadlineAt =
      .ok () := by
    unfold Vault.validateTimes
    rw [hc, revertIf_neg _ (by omega), ok_bind, revertIf_neg _ ha.eventTimes]
  unfold Vault.setTerms
  rw [revertIf_neg _ ha.rulesHash, ok_bind, revertIf_neg _ ha.creatorTreasury, ok_bind, revertIf_neg _ (by omega),
    ok_bind,
    revertIf_neg _ (by omega), ok_bind, revertIf_neg _ (not_not.mpr ha.featureFlags), ok_bind, hvalid, ok_bind]

/-- A vault is initialised with whatever the factory accepts. -/
theorem initializeVault_succeeds (hD : D.Constructed) (ho : D.outside caller = true) (ha : Accepted D w p e)
    (he : e'.protocolTreasury ≠ 0) :
    Vault.blank.initializeVault D.factory (buildInit D w p caller e') p.terms =
      .ok { Vault.blank with initialized := true, init := buildInit D w p caller e', terms := p.terms } := by
  have hcaller : caller ≠ 0 := by
    rintro rfl
    rw [D.zero_outside] at ho
    cases ho
  have haddresses : ¬(D.factory = 0 ∨ D.paymentToken = 0 ∨ D.config = 0 ∨ D.emergencyController = 0 ∨
      D.exposureGuard = 0 ∨ D.bondEscrow = 0 ∨ D.feeVault = 0 ∨ caller = 0 ∨ p.terms.creatorTreasury = 0 ∨
      e'.protocolTreasury = 0) := by
    simp only [not_or]
    exact ⟨hD.factory, hD.paymentToken, hD.config, hD.emergencyController, hD.exposureGuard, D.bondEscrow_ne_zero,
      D.feeVault_ne_zero, hcaller, ha.creatorTreasury, he⟩
  have hwindow : ¬(D.resolutionWindow < MIN_RESOLUTION_WINDOW ∨ MAX_RESOLUTION_WINDOW < D.resolutionWindow) := by
    have := D.window_ge
    have := D.window_le
    omega
  have houtcomes : ¬(p.outcomeCount < 2 ∨ 32 < p.outcomeCount) := by
    have := ha.outcomes
    omega
  unfold Vault.initializeVault
  refine bind_eq_ok.mpr ⟨(), revertIf_eq_ok.mpr (by decide), ?_⟩
  refine bind_eq_ok.mpr ⟨(), revertIf_eq_ok.mpr (not_not.mpr rfl), ?_⟩
  refine bind_eq_ok.mpr ⟨(), revertIf_eq_ok.mpr haddresses, ?_⟩
  refine bind_eq_ok.mpr ⟨(), revertIf_eq_ok.mpr houtcomes, ?_⟩
  refine bind_eq_ok.mpr ⟨(), revertIf_eq_ok.mpr hwindow, ?_⟩
  exact setTerms_succeeds ha rfl

/-! ## The bounds -/

theorem requiredBond_le {cap : Nat} (h : cap ≤ HARD_MAX_FULL_MARKET_CAP) : requiredBond cap ≤ MAX_CREATOR_BOND := by
  refine Nat.max_le.mpr ⟨by decide, (mulDivUp_le_iff (by decide)).mpr ?_⟩
  calc cap * BOND_RATE_BPS ≤ HARD_MAX_FULL_MARKET_CAP * BOND_RATE_BPS := Nat.mul_le_mul_right _ h
    _ ≤ MAX_CREATOR_BOND * BPS := by decide

theorem fee_le {gross bps : Nat} (h : bps ≤ 200) : 50 * mulDiv gross bps BPS ≤ gross := by
  have hle : mulDiv gross bps BPS * 10000 ≤ gross * bps := mulDiv_mul_le gross bps BPS
  have hmul : gross * bps ≤ gross * 200 := Nat.mul_le_mul_left _ h
  omega

theorem sells_of_bounded (h : e.Bounded) (gross : Nat) : e.Sells gross := by
  have hp : 50 * mulDiv gross e.platformC2CFeeBps BPS ≤ gross := fee_le h.platformC2CFee
  have hc : 50 * mulDiv gross e.creatorC2CFeeBps BPS ≤ gross := fee_le h.creatorC2CFee
  exact ⟨by omega, by omega⟩

theorem admitted_of_accepted (ha : Accepted D w p e) (he : e'.Bounded) : Admitted (buildInit D w p caller e') where
  creatorRake := he.creatorRake
  protocolShare := he.protocolShare
  earlyBirdShare := he.earlyBirdShare
  platformC2CFee := he.platformC2CFee
  creatorC2CFee := he.creatorC2CFee
  sells := sells_of_bounded he
  minimum := ha.minimum
  userCap := ha.userCap
  bond_ge := ha.bond.1
  bond_le := ha.bond.2
  deadline := fun t ht => by
    have hw : D.resolutionWindow ≤ 2592000 := D.window_le
    show t + D.resolutionWindow < 2 ^ 256
    calc t + D.resolutionWindow < 2 ^ 64 + 2592000 + 1 := by omega
      _ ≤ 2 ^ 256 := by norm_num

/-! ## The vault in later states -/

/-- No purchase that the vault admits overflows a half of a packed word. -/
def Fits (v : Vault) (now : Nat) : Prop :=
  ∀ paused buyer outcomeId desiredUnits minUnits maxPayment deadline filledUnits,
    v.prepareBuy now paused buyer outcomeId desiredUnits minUnits maxPayment deadline = .ok filledUnits →
      v.totalPrincipal + filledUnits < 2 ^ 128 ∧ v.totalEarlyBirdScore + v.scoreOf now filledUnits < 2 ^ 128 ∧
      v.cumulativePrimaryBought buyer + filledUnits < 2 ^ 128 ∧
      v.earlyBirdScore buyer + v.scoreOf now filledUnits < 2 ^ 128

theorem fits_of_ledger {v : Vault} (hc : v.Configured D) (hl : v.Ledger) (now : Nat) : Fits v now :=
  fun _ _ _ _ _ _ _ _ h => Vault.completeBuy_fits hc hl (Vault.prepareBuy_eq_ok h)

/-- A market that the factory has created is registered, and its vault is the one that was initialised. -/
theorem createMarket_vault (hw : Wired D w) (ho : D.outside caller = true)
    (h : createMarket D w caller p fees m = .ok w') :
    w'.factory.isMarket m = true ∧ ∃ e e', validate D w p = .ok e ∧ customFees e fees = .ok e' ∧
      Vault.blank.initializeVault D.factory (buildInit D w p caller e') p.terms = .ok (w'.vaults m) := by
  simp only [createMarket, lockBond, bind_eq_ok, revertIf_eq_ok, Except.ok.injEq, Bool.not_eq_true] at h
  obtain ⟨_, _, _, _, _, _, e, he, e', he', _, _, _, hnew, v, hv, g, hg, f, hf, w₁, h₁, w₂,
    ⟨w₃, h₃, b, hb, rfl⟩, rfl⟩ := h
  have hw₀ : Wired D (registered w caller m v g f) := registered_wired hw hnew hg hf
  obtain ⟨_, hk₁, _⟩ := payCreationFee_effect (hw₀.emitAll _) ho h₁
  have hk := hk₁.trans (kept_pullExact h₃)
  have hvaults : w₃.vaults m = v := by
    rw [hk.vaults]
    exact Function.update_self _ _ _
  refine ⟨?_, e, e', he, he', by rw [← hvaults] at hv; exact hv⟩
  show w₃.factory.isMarket m = true
  rw [hk.factory]
  exact Function.update_self _ _ _

/-- What becomes of a market from its creation on: its parameters stay as they were, a change of the configuration
leaves every vault as it is, and its words do not overflow. -/
structure Stays (D : Deployment) (i : MarketInit) (m : Address) (w : Core) : Prop where
  init : (w.vaults m).init = i
  config : ∀ caller u w', exec D w caller (.updateConfig u) = .ok w' → w'.vaults = w.vaults
  fits : Fits (w.vaults m) w.now

theorem stays_of_reachable (hr : Reachable D w) (hm : w.factory.isMarket m = true) : Stays D (w.vaults m).init m w where
  init := rfl
  config := by
    intro caller u w' h
    simp only [exec, bind_eq_ok, Except.ok.injEq] at h
    obtain ⟨_, _, _, _, c, _, rfl⟩ := h
    rfl
  fits := by
    obtain ⟨hmkt, _⟩ := (Reachable.sound hr).markets m hm
    exact fits_of_ledger hmkt.configured hmkt.ledger w.now

/-- In every state that governance and users can bring about, a parameter set that the factory accepts, with its own
platform rates or without, initialises the vault, of either kind: the time fits its type, no check of the vault fails,
and its parameters are admitted. Every bond that is required for an allowed cap can be paid. From the creation of the
market on, its parameters stay as they are whatever happens to the configuration. -/
theorem factory_admission (hr : Reachable D w) (hD : D.Constructed) (hp : p.Typed) (ho : D.outside caller = true)
    (he : validate D w p = .ok e) (hf : customFees e fees = .ok e') :
    w.now < 2 ^ 64 ∧
      (∃ v, Vault.blank.initializeVault D.factory (buildInit D w p caller e') p.terms = .ok v ∧
        v.init = buildInit D w p caller e' ∧ v.terms = p.terms ∧ Admitted v.init ∧ v.resolutionDeadline < 2 ^ 256 ∧
        Fits v w.now) ∧
      (∀ cap, cap ≤ w.config.maxFullMarketCap ∨ cap ≤ w.config.maxCloneMarketCap →
        requiredBond cap ≤ MAX_CREATOR_BOND) ∧
      ∀ m w₁ w₂, createMarket D w caller p fees m = .ok w₁ → Reach.Run (Step D) w₁ w₂ →
        Stays D (buildInit D w p caller e') m w₂ := by
  have hs := Reachable.sound hr
  have ha := validate_accepted he
  obtain ⟨hval, hecon⟩ := validate_eq_ok hs.wired.config he
  have hecon' := customFees_eq_ok hecon hf
  have hinit := initializeVault_succeeds hD ho ha hecon'.treasury
  have hadm : Admitted (buildInit D w p caller e') := admitted_of_accepted ha hecon'
  refine ⟨?_, ⟨_, hinit, rfl, rfl, hadm, hadm.deadline _ hp.outcomeDeadlineAt, ?_⟩, ?_, ?_⟩
  · have := ha.times.1
    have := hp.closeAt
    omega
  · obtain ⟨hc, hl, _⟩ := created_sound ho hval hecon' hinit
    exact fits_of_ledger hc hl w.now
  · rintro cap (hcap | hcap)
    · exact requiredBond_le (hcap.trans hs.wired.config.fullCap)
    · exact requiredBond_le ((hcap.trans hs.wired.config.cloneCap).trans (by decide))
  · intro m w₁ w₂ hcreate hrun
    obtain ⟨hm, e₁, e₁', he₁, hf₁, hv⟩ := createMarket_vault hs.wired ho hcreate
    obtain rfl : e = e₁ := Except.ok.inj (he.symm.trans he₁)
    obtain rfl : e' = e₁' := Except.ok.inj (hf.symm.trans hf₁)
    have hstep : Step D w w₁ := .call w w₁ caller (.createMarket p fees m) (by
      unfold exec
      rw [revertIf_neg _ (by simp [ho]), ok_bind]
      exact hcreate)
    have hr₁ : Reachable D w₁ := hr.run (.single hstep)
    obtain ⟨hfrozen, hm₂⟩ := run_frozen hr₁ hm hrun
    have hstays := stays_of_reachable (hr₁.run hrun) hm₂
    have hsame : (w₂.vaults m).init = buildInit D w p caller e' := by
      rw [hfrozen.init]
      obtain ⟨hv₁, _⟩ := Vault.initializeVault_eq_ok hv
      rw [hv₁]
    rw [hsame] at hstays
    exact hstays

end Core

/-- The parameters of the sample market, with the platform's own rates. -/
theorem factory_admission_sample :
    Sample.genesis.now < 2 ^ 64 ∧
      (∃ v, Vault.blank.initializeVault Sample.deployment.factory (Core.buildInit Sample.deployment Sample.genesis
          Sample.params Sample.creator ⟨1000, 5000, 2000, 200, 100, addr 200⟩) Sample.params.terms = .ok v ∧
        Core.Admitted v.init) ∧
      ∃ w, Core.createMarket Sample.deployment Sample.genesis Sample.creator Sample.params (some (5000, 200))
          Sample.market = .ok w ∧
        Core.Stays Sample.deployment (Core.buildInit Sample.deployment Sample.genesis Sample.params Sample.creator
          ⟨1000, 5000, 2000, 200, 100, addr 200⟩) Sample.market w := by
  have he : Core.validate Sample.deployment Sample.genesis Sample.params = .ok ⟨1000, 2000, 2000, 0, 100,
    addr 200⟩ := by
    decide +kernel
  have hf : Core.customFees ⟨1000, 2000, 2000, 0, 100, addr 200⟩ (some (5000, 200)) =
      .ok ⟨1000, 5000, 2000, 200, 100, addr 200⟩ := by decide +kernel
  have ho : Sample.deployment.outside Sample.creator = true := by decide
  obtain ⟨hnow, ⟨v, hv, _, _, hadm, _⟩, _, hlater⟩ := Core.factory_admission (Sample.played_reachable [])
    ⟨by decide, by decide, by decide, by decide, by decide⟩ ⟨by decide, by decide⟩ ho he hf
  refine ⟨hnow, ⟨v, hv, hadm⟩, ?_⟩
  cases h : Core.createMarket Sample.deployment Sample.genesis Sample.creator Sample.params (some (5000, 200))
      Sample.market with
  | ok w => exact ⟨w, rfl, hlater _ _ _ h .refl⟩
  | error e =>
    have hok : (Core.createMarket Sample.deployment Sample.genesis Sample.creator Sample.params (some (5000, 200))
      Sample.market).toOption.isSome = true := by decide +kernel
    rw [h] at hok
    cases hok

end Cpredict
