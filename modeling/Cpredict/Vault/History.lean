import Cpredict.Vault.Solvency

/-!
# The history of a vault

The log keeps the purchases, the terminal transition and the claims of a vault with their times. `History` relates the
storage to it: scores are sums over purchases of units times one weight function, the market ended at most once and
within the window of its transition, and every unit refunded earns the timeout bonus once. The step lemma is assembled
from what one step does to the scores (`VaultStep.scores`), to the bonus (`VaultStep.bonus`) and to the rest
(`VaultStep.frame`).
-/

namespace Cpredict

open Outcome Packing ProRata Balances Finset Tally

/-! ## What events contribute -/

namespace VaultEvent

def purchasedUnits : VaultEvent → Nat
  | .PrimaryPurchased _ _ _ filledUnits _ _ _ _ => filledUnits
  | _ => 0

/-- The score that a purchase at time `t` earns `u` by the weight function `w`. -/
def earnedScore (w : Nat → Nat) (u : Address) (t : Nat) : VaultEvent → Nat
  | .PrimaryPurchased buyer _ _ filledUnits _ _ _ _ => if buyer = u then filledUnits * w t else 0
  | _ => 0

def claimedScore (u : Address) : VaultEvent → Nat
  | .EarlyBirdClaimed owner _ score _ => if owner = u then score else 0
  | _ => 0

/-- The units of `u` whose refund was recorded for the timeout bonus. -/
def refundedUnits (u : Address) : VaultEvent → Nat
  | .PrincipalRefunded owner _ units _ recorded => if owner = u ∧ recorded = true then units else 0
  | _ => 0

/-- The units by which `u` claimed the timeout bonus. -/
def bonusUnits (u : Address) : VaultEvent → Nat
  | .TimeoutBonusClaimed owner _ units _ => if owner = u then units else 0
  | _ => 0

def bonusPaid : VaultEvent → Nat
  | .TimeoutBonusClaimed _ _ _ reward => reward
  | _ => 0

def bonusFunded : VaultEvent → Nat
  | .TimeoutBonusFunded amount _ _ _ => amount
  | _ => 0

/-- A purchase is logged within the market's life. -/
def WithinLife (v : Vault) (t : Nat) : VaultEvent → Prop
  | .PrimaryPurchased _ _ _ filledUnits _ _ _ _ =>
    0 < filledUnits ∧ v.init.createdAt ≤ t ∧ t < v.terms.closeAt
  | _ => True

end VaultEvent

open VaultEvent

/-- The sum of what the events of a vault's log contribute. -/
abbrev total (f : VaultEvent → Nat) (log : List (Nat × VaultEvent)) : Nat := tally (fun x => f x.2) log

/-- What a step adds to a total. -/
theorem total_step (f : VaultEvent → Nat) (log : List (Nat × VaultEvent)) (e : Option VaultEvent) (now : Nat) :
    total f (log ++ e.toList.map (now, ·)) = total f log + tally f e.toList := by
  cases e <;> simp [total]

theorem earned_step (w : Nat → Nat) (u : Address) (log : List (Nat × VaultEvent)) (e : Option VaultEvent) (now : Nat) :
    tally (fun x => earnedScore w u x.1 x.2) (log ++ e.toList.map (now, ·)) =
      tally (fun x => earnedScore w u x.1 x.2) log + tally (earnedScore w u now) e.toList := by
  cases e <;> simp

/-- The storage of a vault and its log fit together. -/
structure History (v : Vault) (log : List (Nat × VaultEvent)) : Prop where
  principal : total purchasedUnits log = v.totalPrincipal
  score : ∀ u, v.earlyBirdScore u + total (claimedScore u) log =
    tally (fun x => earnedScore v.earlyBirdWeight u x.1 x.2) log
  purchases : ∀ x ∈ log, WithinLife v x.1 x.2
  ending : (v.marketState = .open ∧ log.filter (fun x => x.2.isEnding) = []) ∨
    ∃ x, log.filter (fun x => x.2.isEnding) = [x] ∧ v.Ending x.1 x.2
  bonus : ∀ u, total (refundedUnits u) log = v.timeoutBonusUnits u + total (bonusUnits u) log
  pool : total bonusPaid log + v.remainingTimeoutBonusPool = total bonusFunded log
  income : total VaultEvent.income log = v.totalPrincipal + total bonusFunded log

/-! ## What one step contributes -/

section

variable {D : Deployment} {market : Address} {now : Nat} {v v' : Vault} {e : Option VaultEvent} {p : Option Payment}

/-- What a step does to scores and principal, while the terms stay: a purchase earns score, a claim uses it up. -/
structure Scores (v v' : Vault) (now : Nat) (e : Option VaultEvent) : Prop where
  principal : v'.totalPrincipal = v.totalPrincipal + tally purchasedUnits e.toList
  score : ∀ u, v'.earlyBirdScore u + tally (claimedScore u) e.toList =
    v.earlyBirdScore u + tally (earnedScore v.earlyBirdWeight u now) e.toList
  income : tally VaultEvent.income e.toList = tally purchasedUnits e.toList + tally bonusFunded e.toList

theorem VaultStep.scores (h : VaultStep D market now v v' e p) : Scores v v' now e := by
  cases h with
  | terms _ _ _ h => obtain ⟨rfl, _⟩ := Vault.updateBeforeFirstBuy_eq_ok h; exact ⟨rfl, fun _ => rfl, rfl⟩
  | buy buyer _ _ _ _ _ _ h =>
    have hh := Vault.bought_halves h
    refine ⟨by simpa [purchasedUnits] using hh.totalPrincipal, fun u => ?_, rfl⟩
    rw [hh.earlyBirdScore, Function.update_apply]
    by_cases hu : u = buyer
    · subst hu; simp [claimedScore, earnedScore, Vault.scoreOf]
    · simp [claimedScore, earnedScore, hu, Ne.symm hu]
  | resolve _ _ _ _ _ h =>
    obtain ⟨_, _, _, _, _, ⟨_, rfl, _⟩ | ⟨_, rfl, _⟩⟩ := Vault.resolve_eq_ok h <;> exact ⟨rfl, fun _ => rfl, rfl⟩
  | resolveEmpty _ _ _ _ h =>
    obtain ⟨_, _, _, _, _, ⟨_, rfl, _⟩ | ⟨_, rfl, _⟩⟩ := Vault.resolve_eq_ok h <;> exact ⟨rfl, fun _ => rfl, rfl⟩
  | creatorVoid _ _ _ h => obtain ⟨_, _, _, rfl⟩ := Vault.creatorVoid_eq_ok.mp h; exact ⟨rfl, fun _ => rfl, rfl⟩
  | voidAfterDeadline _ _ h => obtain ⟨_, _, rfl⟩ := Vault.voidAfterDeadline_eq_ok.mp h; exact ⟨rfl, fun _ => rfl, rfl⟩
  | claimWinningsFor _ _ _ _ _ h =>
    obtain ⟨_, _, _, _, _, _, _, rfl⟩ := Vault.claimWinningsFor_eq_ok h; exact ⟨rfl, fun _ => rfl, rfl⟩
  | claimEarlyBirdFor _ owner _ _ _ h =>
    obtain ⟨_, rfl, _, _, _, rfl⟩ := Vault.claimEarlyBirdFor_eq_ok h
    refine ⟨rfl, fun u => ?_, rfl⟩
    rw [(Vault.earlyBird_halves _ _ _ _).2, Function.update_apply]
    by_cases hu : u = owner
    · subst hu; simp [claimedScore, earnedScore]
    · simp [claimedScore, earnedScore, hu, Ne.symm hu]
  | refundFor _ _ _ _ h => obtain ⟨_, _, _, _, _, _, rfl⟩ := Vault.refundFor_eq_ok h; exact ⟨rfl, fun _ => rfl, rfl⟩
  | fundTimeoutBonus _ _ _ _ _ _ h =>
    obtain ⟨_, _, _, _, _, rfl⟩ := Vault.fundTimeoutBonus_eq_ok.mp h
    exact ⟨rfl, fun _ => rfl, by simp [VaultEvent.income, purchasedUnits, bonusFunded]⟩
  | claimTimeoutBonusFor _ _ _ _ _ h =>
    obtain ⟨_, _, _, _, _, _, rfl⟩ := Vault.claimTimeoutBonusFor_eq_ok.mp h; exact ⟨rfl, fun _ => rfl, rfl⟩
  | burnLosingPosition _ _ _ _ h =>
    obtain ⟨_, _, _, _, _, _, _, rfl⟩ := Vault.burnLosingPosition_eq_ok h; exact ⟨rfl, fun _ => rfl, rfl⟩
  | transfer => exact ⟨rfl, fun _ => rfl, rfl⟩
  | approval => exact ⟨rfl, fun _ => rfl, rfl⟩

/-- What a step does to the timeout bonus: a recorded refund earns units, a claim uses them up and takes its reward from
the pool. -/
structure BonusChange (v v' : Vault) (e : Option VaultEvent) : Prop where
  units : ∀ u, v'.timeoutBonusUnits u + tally (bonusUnits u) e.toList =
    v.timeoutBonusUnits u + tally (refundedUnits u) e.toList
  pool : v'.remainingTimeoutBonusPool + tally bonusPaid e.toList =
    v.remainingTimeoutBonusPool + tally bonusFunded e.toList
  funded : tally bonusFunded e.toList = 0 → v'.timeoutBonusFunded = v.timeoutBonusFunded

theorem VaultStep.bonus (h : VaultStep D market now v v' e p) (hp : v.Pools) : BonusChange v v' e := by
  cases h with
  | terms _ _ _ h => obtain ⟨rfl, _⟩ := Vault.updateBeforeFirstBuy_eq_ok h; exact ⟨fun _ => rfl, rfl, fun _ => rfl⟩
  | buy _ _ _ _ _ _ _ h => obtain ⟨_, _, _, _, _, _, rfl⟩ :=
      Vault.completeBuy_eq_ok.mp h; exact ⟨fun _ => rfl, rfl, fun _ => rfl⟩
  | resolve _ _ _ _ _ h =>
    obtain ⟨_, _, _, _, _, ⟨_, rfl, _⟩ | ⟨_, rfl, _⟩⟩ :=
      Vault.resolve_eq_ok h <;> exact ⟨fun _ => rfl, rfl, fun _ => rfl⟩
  | resolveEmpty _ _ _ _ h =>
    obtain ⟨_, _, _, _, _, ⟨_, rfl, _⟩ | ⟨_, rfl, _⟩⟩ :=
      Vault.resolve_eq_ok h <;> exact ⟨fun _ => rfl, rfl, fun _ => rfl⟩
  | creatorVoid _ _ _ h => obtain ⟨_, _, _, rfl⟩ :=
      Vault.creatorVoid_eq_ok.mp h; exact ⟨fun _ => rfl, rfl, fun _ => rfl⟩
  | voidAfterDeadline _ _ h => obtain ⟨_, _, rfl⟩ :=
      Vault.voidAfterDeadline_eq_ok.mp h; exact ⟨fun _ => rfl, rfl, fun _ => rfl⟩
  | claimWinningsFor _ _ _ _ _ h =>
    obtain ⟨_, _, _, _, _, _, _, rfl⟩ := Vault.claimWinningsFor_eq_ok h; exact ⟨fun _ => rfl, rfl, fun _ => rfl⟩
  | claimEarlyBirdFor _ _ _ _ _ h =>
    obtain ⟨_, _, _, _, _, rfl⟩ := Vault.claimEarlyBirdFor_eq_ok h; exact ⟨fun _ => rfl, rfl, fun _ => rfl⟩
  | refundFor _ owner _ amount h =>
    obtain ⟨_, _, _, _, _, _, rfl⟩ := Vault.refundFor_eq_ok h
    refine ⟨fun u => ?_, rfl, fun _ => rfl⟩
    by_cases hr : v.voidReason = .timeout
    · by_cases hu : u = owner
      · subst hu; simp [bonusUnits, refundedUnits, hr]
      · simp [bonusUnits, refundedUnits, hr, hu, Ne.symm hu]
    · simp [bonusUnits, refundedUnits, hr]
  | fundTimeoutBonus _ _ _ _ _ _ h =>
    obtain ⟨_, _, _, hf, h0, rfl⟩ := Vault.fundTimeoutBonus_eq_ok.mp h
    refine ⟨fun _ => rfl, ?_, fun hz => absurd (by simpa [bonusFunded] using hz) h0⟩
    simp [bonusPaid, bonusFunded, hp.unfunded hf]
  | claimTimeoutBonusFor _ owner _ _ _ h =>
    obtain ⟨_, rfl, _, _, _, hle, rfl⟩ := Vault.claimTimeoutBonusFor_eq_ok.mp h
    refine ⟨fun u => ?_, ?_, fun _ => rfl⟩
    · by_cases hu : u = owner
      · subst hu; simp [bonusUnits, refundedUnits]
      · simp [bonusUnits, refundedUnits, hu, Ne.symm hu]
    · simp [bonusPaid, bonusFunded, Nat.sub_add_cancel hle]
  | burnLosingPosition _ _ _ _ h =>
    obtain ⟨_, _, _, _, _, _, _, rfl⟩ := Vault.burnLosingPosition_eq_ok h; exact ⟨fun _ => rfl, rfl, fun _ => rfl⟩
  | transfer => exact ⟨fun _ => rfl, rfl, fun _ => rfl⟩
  | approval => exact ⟨fun _ => rfl, rfl, fun _ => rfl⟩

/-- A step logs a purchase only within the market's life. -/
theorem VaultStep.withinLife (h : VaultStep D market now v v' e p) (hc : v.Configured D) (ht : v.init.createdAt ≤ now) :
    ∀ x ∈ e, WithinLife v now x := by
  cases h with
  | buy _ _ _ _ _ hb _ _ =>
    rintro x hx
    cases hx
    exact ⟨lt_of_lt_of_le hc.minimum hb.minimum, ht, hb.beforeClose⟩
  | _ => rintro x hx; cases hx <;> trivial

/-! ## The run -/

/-- Before the first purchase no weight function has anything to weigh. -/
theorem earnedScore_of_no_purchase {log : List (Nat × VaultEvent)} (h : total purchasedUnits log = 0) (w : Nat → Nat)
    (u : Address) : tally (fun x => earnedScore w u x.1 x.2) log = 0 := by
  induction log with
  | nil => rfl
  | cons x xs ih =>
    rw [total, tally_cons] at h
    rw [tally_cons, ih (by rw [total]; omega)]
    have hx : purchasedUnits x.2 = 0 := by omega
    obtain ⟨t, ev⟩ := x
    cases ev <;> simp_all [earnedScore, purchasedUnits]

theorem no_purchase_withinLife {log : List (Nat × VaultEvent)} (h : total purchasedUnits log = 0)
    (hw : ∀ x ∈ log, WithinLife v x.1 x.2) : ∀ x ∈ log, WithinLife v' x.1 x.2 := by
  intro x hx
  have hle : purchasedUnits x.2 ≤ total purchasedUnits log := by
    obtain ⟨a, b, rfl⟩ := List.append_of_mem hx
    simp only [total, tally_append, tally_cons]
    omega
  have hlife := hw x hx
  obtain ⟨t, ev⟩ := x
  cases ev with
  | PrimaryPurchased =>
    simp only [purchasedUnits] at hle
    simp only [WithinLife] at hlife
    omega
  | _ => trivial

theorem Vault.Ending.of_same {t : Nat} {x : VaultEvent} (hs : SameOutcome v v') (ht : v'.terms = v.terms)
    (hi : v'.init = v.init) (hp : v'.totalPrincipal = v.totalPrincipal) (h : v.Ending t x) : v'.Ending t x := by
  cases x <;> simp only [Vault.Ending, Vault.resolutionDeadline, hs.marketState, hs.voidReason, hs.winningOutcome,
    hs.payoutBreakdown, ht, hi, hp] at h ⊢ <;> exact h

/-- After its end a market takes no purchases. -/
theorem VaultStep.purchase_open (h : VaultStep D market now v v' e p) :
    v.marketState = .open ∨ tally purchasedUnits e.toList = 0 := by
  cases h with
  | buy _ _ _ _ _ hb _ _ => exact .inl hb.isOpen
  | _ => exact .inr rfl

theorem Vault.Ending.not_open {t : Nat} {x : VaultEvent} (h : v.Ending t x) : v.marketState ≠ .open := by
  cases x <;> simp only [Vault.Ending] at h
  case MarketResolved => rw [h.1]; decide
  case MarketVoided => rw [h.1]; decide

/-- Every step extends the log by what it does. -/
theorem VaultStep.history {log : List (Nat × VaultEvent)} (h : VaultStep D market now v v' e p) (hc : v.Configured D)
    (hp : v.Pools) (ht : v.init.createdAt ≤ now) (hh : History v log) :
    History v' (log ++ e.toList.map (now, ·)) := by
  have hf := h.frame
  have hs := h.scores
  have hb := h.bonus hp
  refine ⟨?_, fun u => ?_, ?_, ?_, fun u => ?_, ?_, ?_⟩
  · rw [total_step, hs.principal, hh.principal]
  · -- terms change only while no purchase has been logged, when every weight function gives zero
    have hold : v.earlyBirdScore u + total (claimedScore u) log =
        tally (fun x => earnedScore v'.earlyBirdWeight u x.1 x.2) log ∧
        tally (earnedScore v.earlyBirdWeight u now) e.toList = tally (earnedScore v'.earlyBirdWeight u now)
          e.toList := by
      have hscore := hh.score u
      rcases hf.terms with hterms | hnew
      · have hw : v'.earlyBirdWeight = v.earlyBirdWeight := by
          funext t
          simp only [Vault.earlyBirdWeight, Vault.earlyBirdEnabled, hterms, hf.init]
        rw [hw]
        exact ⟨hscore, rfl⟩
      · have hz : total purchasedUnits log = 0 := hh.principal.trans hnew.noPurchase
        rw [earnedScore_of_no_purchase hz] at hscore ⊢
        refine ⟨hscore, ?_⟩
        cases h with
        | terms => rfl
        | buy _ _ _ _ _ _ _ hbuy => obtain ⟨_, _, _, _, _, _, rfl⟩ := Vault.completeBuy_eq_ok.mp hbuy; rfl
        | _ => rfl
    have := hs.score u
    rw [total_step, earned_step]
    omega
  · have hlife := h.withinLife hc ht
    have hkeep : ∀ t x, WithinLife v t x → v'.terms = v.terms → WithinLife v' t x := by
      intro t x hx hterms
      cases x <;> simp only [WithinLife, hterms, hf.init] at hx ⊢
      exact hx
    intro x hx
    rcases List.mem_append.mp hx with hx | hx
    · rcases hf.terms with hterms | hnew
      · exact hkeep _ _ (hh.purchases x hx) hterms
      · exact no_purchase_withinLife (hh.principal.trans hnew.noPurchase) hh.purchases x hx
    · obtain ⟨y, hy, rfl⟩ := List.mem_map.mp hx
      rw [Option.mem_toList] at hy
      rcases hf.terms with hterms | hnew
      · exact hkeep _ _ (hlife y hy) hterms
      · cases h with
        | buy _ _ _ _ _ _ _ hbuy =>
          obtain ⟨_, _, _, _, _, _, rfl⟩ := Vault.completeBuy_eq_ok.mp hbuy
          exact hkeep _ _ (hlife y hy) rfl
        | _ => cases hy <;> trivial
  · rcases hf.outcome with ⟨hsame, hquiet⟩ | ⟨ho, hterms, x, rfl, hx, hend⟩
    · have hfilter : (e.toList.map (now, ·)).filter (fun x : Nat × VaultEvent => x.2.isEnding) = [] := by
        cases e with
        | none => rfl
        | some x => simp [hquiet x rfl]
      rw [List.filter_append, hfilter, List.append_nil]
      rcases hh.ending with ⟨ho, hnil⟩ | ⟨x, hone, hx⟩
      · exact .inl ⟨hsame.marketState.trans ho, hnil⟩
      · have hno := hx.not_open
        refine .inr ⟨x, hone, hx.of_same hsame ?_ hf.init ?_⟩
        · rcases hf.terms with hterms | hnew
          · exact hterms
          · exact absurd hnew.isOpen hno
        · rcases h.purchase_open with ho | hz
          · exact absurd ho hno
          · rw [hs.principal, hz, Nat.add_zero]
    · rcases hh.ending with ⟨_, hnil⟩ | ⟨y, _, hy⟩
      · refine .inr ⟨(now, x), ?_, hend⟩
        rw [List.filter_append, hnil]
        simp [hx]
      · exact absurd ho hy.not_open
  · have := hh.bonus u
    have := hb.units u
    simp only [total_step]
    omega
  · have := hh.pool
    have := hb.pool
    simp only [total_step]
    omega
  · have := hh.income
    have := hs.income
    have := hs.principal
    simp only [total_step]
    omega

end

end Cpredict
