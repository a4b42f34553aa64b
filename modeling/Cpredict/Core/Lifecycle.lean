import Cpredict.Core.Solvency

/-!
# The life of a market

Terms are frozen by the first purchase and the outcome by the terminal transition (`Run.frozen`); purchases come before
the close, the one terminal transition within its time window, and from the close on an open market can always be ended
(`some_transition_enabled`). So the scores of all buyers are weighed by one schedule (`market_lifecycle`).
-/

namespace Cpredict

open Outcome Tally

/-! ## The weight function -/

namespace Vault

variable {v : Vault} {s t : Nat}

/-- The schedule of early-bird weights: three, two and one in the thirds of the market's life, zero outside it and when
the feature is off. -/
structure Schedule (v : Vault) (weight : Nat → Nat) : Prop where
  off : v.earlyBirdEnabled = false → ∀ t, weight t = 0
  outside : ∀ t, t < v.init.createdAt ∨ v.terms.closeAt ≤ t → weight t = 0
  first : v.earlyBirdEnabled = true → ∀ t, v.init.createdAt ≤ t → t < v.terms.closeAt →
    (weight t = 3 ↔ 3 * (t - v.init.createdAt) < v.terms.closeAt - v.init.createdAt)
  second : v.earlyBirdEnabled = true → ∀ t, v.init.createdAt ≤ t → t < v.terms.closeAt →
    (weight t = 2 ↔ v.terms.closeAt - v.init.createdAt ≤ 3 * (t - v.init.createdAt) ∧
      3 * (t - v.init.createdAt) < 2 * (v.terms.closeAt - v.init.createdAt))
  values : v.earlyBirdEnabled = true → ∀ t, v.init.createdAt ≤ t → t < v.terms.closeAt →
    weight t = 1 ∨ weight t = 2 ∨ weight t = 3
  antitone : ∀ s t, v.init.createdAt ≤ s → s ≤ t → t < v.terms.closeAt → weight t ≤ weight s

theorem earlyBirdWeight_eq (he : v.earlyBirdEnabled = true) (h₁ : v.init.createdAt ≤ t) (h₂ : t < v.terms.closeAt) :
    v.earlyBirdWeight t = if 3 * (t - v.init.createdAt) < v.terms.closeAt - v.init.createdAt then 3
      else if 3 * (t - v.init.createdAt) < 2 * (v.terms.closeAt - v.init.createdAt) then 2 else 1 := by
  simp only [earlyBirdWeight, he]
  rw [if_neg (by decide), if_neg (by omega), Nat.mul_comm _ 3, Nat.mul_comm _ 2]

theorem earlyBirdWeight_off (he : v.earlyBirdEnabled = false) (t : Nat) : v.earlyBirdWeight t = 0 := by
  simp [earlyBirdWeight, he]

theorem earlyBirdWeight_schedule (v : Vault) : v.Schedule v.earlyBirdWeight where
  off := earlyBirdWeight_off
  outside := fun t ht => by
    simp only [earlyBirdWeight, if_pos ht]
    split <;> rfl
  first := fun he t h₁ h₂ => by
    rw [earlyBirdWeight_eq he h₁ h₂]
    split_ifs <;> omega
  second := fun he t h₁ h₂ => by
    rw [earlyBirdWeight_eq he h₁ h₂]
    split_ifs <;> omega
  values := fun he t h₁ h₂ => by
    rw [earlyBirdWeight_eq he h₁ h₂]
    split_ifs <;> omega
  antitone := fun s t h₁ h₂ h₃ => by
    cases he : v.earlyBirdEnabled with
    | false => rw [earlyBirdWeight_off he, earlyBirdWeight_off he]
    | true =>
      rw [earlyBirdWeight_eq he h₁ (by omega), earlyBirdWeight_eq he (by omega) h₃]
      split_ifs <;> omega

end Vault

namespace Core

variable {D : Deployment} {w w' : Core} {m : Address}

/-! ## What a run leaves alone -/

/-- What never changes in a market: its parameters, its terms after the first purchase, its outcome. -/
structure Frozen (v v' : Vault) : Prop where
  init : v'.init = v.init
  terms : v.firstBuyOccurred = true → v'.terms = v.terms ∧ v'.firstBuyOccurred = true
  outcome : v.marketState ≠ .open → SameOutcome v v' ∧ v'.terms = v.terms ∧ v'.totalPrincipal = v.totalPrincipal

theorem Frozen.refl (v : Vault) : Frozen v v := ⟨rfl, fun h => ⟨rfl, h⟩, fun _ => ⟨⟨rfl, rfl, rfl, rfl⟩, rfl, rfl⟩⟩

theorem Frozen.trans {u v v' : Vault} (h : Frozen u v) (h' : Frozen v v') : Frozen u v' where
  init := h'.init.trans h.init
  terms := fun hb => by
    obtain ⟨ht, hb'⟩ := h.terms hb
    obtain ⟨ht', hb''⟩ := h'.terms hb'
    exact ⟨ht'.trans ht, hb''⟩
  outcome := fun ho => by
    obtain ⟨hs, ht, hp⟩ := h.outcome ho
    obtain ⟨hs', ht', hp'⟩ := h'.outcome (by rw [hs.marketState]; exact ho)
    exact ⟨⟨hs'.marketState.trans hs.marketState, hs'.voidReason.trans hs.voidReason,
      hs'.winningOutcome.trans hs.winningOutcome, hs'.payoutBreakdown.trans hs.payoutBreakdown⟩, ht'.trans ht,
      hp'.trans hp⟩

/-- One step of a vault leaves alone what a run does. -/
theorem step_frozen {now : Nat} {v v' : Vault} {e : Option VaultEvent} {p : Option Payment}
    (hs : VaultStep D m now v v' e p) : Frozen v v' where
  init := hs.frame.init
  terms := fun hb => by
    have hp : v.totalPrincipal ≠ 0 := by simpa [Vault.firstBuyOccurred] using hb
    have hle := hs.frame.principal
    refine ⟨?_, ?_⟩
    · rcases hs.frame.terms with ht | hn
      · exact ht
      · exact absurd hn.noPurchase hp
    · simp only [Vault.firstBuyOccurred, bne_iff_ne, ne_eq]
      omega
  outcome := ended_step hs

theorem effect_frozen (hm : w.factory.isMarket m = true) (he : Effect D w w') :
    Frozen (w.vaults m) (w'.vaults m) ∧ w'.factory.isMarket m = true := by
  have hupdate : ∀ {market : Address} {v' : Vault}, (m = market → Frozen (w.vaults m) v') →
      Frozen (w.vaults m) (Function.update w.vaults market v' m) := by
    intro market v' hf
    rw [Function.update_apply]
    split
    · rename_i he; exact hf he
    · exact Frozen.refl _
  cases he with
  | other _ hv hf => rw [hv, hf]; exact ⟨Frozen.refl _, hm⟩
  | vault market v' _ _ _ hs hv hf =>
    rw [hv, hf]
    exact ⟨hupdate fun h => by subst h; exact step_frozen hs, hm⟩
  | credit _ _ hv hf => rw [hv, hf]; exact ⟨Frozen.refl _, hm⟩
  | fund market v' _ _ _ _ _ hs _ hv hf =>
    rw [hv, hf]
    exact ⟨hupdate fun h => by subst h; exact step_frozen hs, hm⟩
  | claim _ _ _ hv hf => rw [hv, hf]; exact ⟨Frozen.refl _, hm⟩
  | create _ market _ _ _ _ _ hnew _ _ _ _ hv hf =>
    rw [hv, hf]
    refine ⟨hupdate fun h => ?_, ?_⟩
    · subst h; rw [hm] at hnew; cases hnew
    · rw [Function.update_apply]
      split
      · rfl
      · exact hm

/-- A run from a state with the market freezes what it has fixed there. -/
theorem run_frozen (hr : Reachable D w) (hm : w.factory.isMarket m = true) (hrun : Reach.Run (Step D) w w') :
    Frozen (w.vaults m) (w'.vaults m) ∧ w'.factory.isMarket m = true := by
  refine Reach.Run.since (R := fun s t => Frozen (s.vaults m) (t.vaults m) ∧ t.factory.isMarket m = true) hr
    ⟨Frozen.refl _, hm⟩ (fun t u ht hR hs => ?_) hrun
  obtain ⟨hfr, hmt⟩ := hR
  have hsound := Reachable.sound ht
  cases hs with
  | call _ _ _ he =>
    obtain ⟨hfr', hmu⟩ := effect_frozen hmt (exec_effect hsound.wired hsound.minimum he).1
    exact ⟨hfr.trans hfr', hmu⟩
  | tick seconds => exact ⟨hfr, hmt⟩

/-! ## Liveness -/

/-- An open market can be ended by somebody at any time. -/
theorem some_transition_enabled (h : Sound D w) (hm : w.factory.isMarket m = true)
    (ho : (w.vaults m).marketState = .open) :
    ∃ caller c w', exec D w caller c = .ok w' ∧ (w'.vaults m).marketState ≠ .open ∧
      (c = .creatorVoid m 0 ∧ caller = (w.vaults m).init.creator ∨ c = .voidAfterDeadline m) := by
  obtain ⟨hmkt, _⟩ := h.markets m hm
  have hout := hmkt.configured.creator_outside
  have hreq := requireMarket_eq_ok (u := ()) |>.mpr hm
  by_cases hd : w.now < (w.vaults m).resolutionDeadline
  · have hv := Vault.creatorVoid_eq_ok.mpr ⟨rfl, ho, hd, rfl⟩
    have he : exec D w (w.vaults m).init.creator (.creatorVoid m 0) =
        .ok ((w.setVault m ((w.vaults m).void .creator)).emit
          (.vault m (.MarketVoided .creator (w.vaults m).init.creator
          ((w.vaults m).void .creator).totalPrincipal 0))) := by
      unfold exec creatorVoid
      rw [revertIf_neg _ (by simp [hout]), ok_bind]
      simp only
      rw [hreq, ok_bind, hv, ok_bind]
    refine ⟨_, _, _, he, ?_, .inl ⟨rfl, rfl⟩⟩
    show (Function.update w.vaults m _ m).marketState ≠ .open
    rw [Function.update_self]
    nofun
  · have hv := Vault.voidAfterDeadline_eq_ok.mpr ⟨ho, not_lt.mp hd, rfl⟩
    have he : exec D w (w.vaults m).init.creator (.voidAfterDeadline m) =
        .ok ((w.setVault m ((w.vaults m).void .timeout)).emit
          (.vault m (.MarketVoided .timeout (w.vaults m).init.creator
          ((w.vaults m).void .timeout).totalPrincipal 0))) := by
      unfold exec voidAfterDeadline
      rw [revertIf_neg _ (by simp [hout]), ok_bind]
      simp only
      rw [hreq, ok_bind, hv, ok_bind]
    refine ⟨_, _, _, he, ?_, .inr rfl⟩
    show (Function.update w.vaults m _ m).marketState ≠ .open
    rw [Function.update_self]
    nofun

/-! ## The lifecycle -/

/-- What the log of a market says about its life, and what can happen next. -/
structure Lifecycle (D : Deployment) (w : Core) (m : Address) : Prop where
  /-- Purchases come before the close. -/
  purchases : ∀ x ∈ milestones m w.log, VaultEvent.WithinLife (w.vaults m) x.1 x.2
  purchased : (w.vaults m).firstBuyOccurred = true ↔ ∃ x ∈ milestones m w.log, x.2.purchasedUnits ≠ 0
  /-- The market has ended at most once, within the window of that transition. -/
  ending : ((w.vaults m).marketState = .open ∧ (milestones m w.log).filter (fun x => x.2.isEnding) = []) ∨
    ∃ x, (milestones m w.log).filter (fun x => x.2.isEnding) = [x] ∧ (w.vaults m).Ending x.1 x.2
  /-- While it is open, somebody can end it. -/
  enabled : (w.vaults m).marketState = .open → ∃ caller c w', exec D w caller c = .ok w' ∧
    (w'.vaults m).marketState ≠ .open
  /-- Scores earned and not yet claimed are units times the weight of the common schedule. -/
  score : ∀ u, (w.vaults m).earlyBirdScore u + total (VaultEvent.claimedScore u) (milestones m w.log) =
    tally (fun x => VaultEvent.earnedScore (w.vaults m).earlyBirdWeight u x.1 x.2) (milestones m w.log)
  schedule : (w.vaults m).Schedule (w.vaults m).earlyBirdWeight

theorem exists_purchase_iff {log : List (Nat × VaultEvent)} :
    total VaultEvent.purchasedUnits log ≠ 0 ↔ ∃ x ∈ log, x.2.purchasedUnits ≠ 0 := by
  induction log with
  | nil => simp [total]
  | cons x xs ih =>
    rw [total, tally_cons, List.exists_mem_cons_iff, ← ih]
    simp only [total]
    omega

theorem lifecycle_of_sound (h : Sound D w) (hm : w.factory.isMarket m = true) : Lifecycle D w m := by
  obtain ⟨hmkt, _⟩ := h.markets m hm
  refine ⟨hmkt.history.purchases, ?_, hmkt.history.ending, fun ho => ?_, hmkt.history.score,
    Vault.earlyBirdWeight_schedule _⟩
  · rw [← exists_purchase_iff, hmkt.history.principal]
    simp [Vault.firstBuyOccurred]
  · obtain ⟨caller, c, w', he, hne, _⟩ := some_transition_enabled h hm ho
    exact ⟨caller, c, w', he, hne⟩

/-- In every run: from the first purchase on the terms never change, from the terminal transition on the outcome never
changes, and in every state the log shows purchases before the close, one transition at most and within its window,
and scores by one schedule. -/
theorem market_lifecycle (hr : Reachable D w) (hm : w.factory.isMarket m = true) (hrun : Reach.Run (Step D) w w') :
    ((∃ x ∈ milestones m w.log, x.2.purchasedUnits ≠ 0) → (w'.vaults m).terms = (w.vaults m).terms) ∧
      ((w.vaults m).marketState ≠ .open → SameOutcome (w.vaults m) (w'.vaults m)) ∧
      Lifecycle D w' m := by
  obtain ⟨hfr, hm'⟩ := run_frozen hr hm hrun
  have hlife := lifecycle_of_sound (Reachable.sound hr) hm
  refine ⟨fun hx => (hfr.terms (hlife.purchased.mpr hx)).1, fun ho => (hfr.outcome ho).1, ?_⟩
  exact lifecycle_of_sound (Reachable.sound (hr.run hrun)) hm'

end Core

/-- The sample market from its second purchase to its resolution: the terms stay. -/
theorem market_lifecycle_sample :
    ((Sample.played Sample.resolution).vaults Sample.market).terms =
        ((Sample.played Sample.purchases).vaults Sample.market).terms ∧
      ((Sample.played Sample.resolution).vaults Sample.market).earlyBirdScore Sample.alice = 9000000 := by
  have hrun : Reach.Run (Core.Step Sample.deployment) (Sample.played Sample.purchases)
      (Sample.played Sample.resolution) := Sample.played_run _ _
  exact ⟨(Core.market_lifecycle (m := Sample.market) (Sample.played_reachable _) (by decide +kernel) hrun).1
    (by decide +kernel), by decide +kernel⟩

end Cpredict
