import Cpredict.Core.Invariant

/-!
# The counters of a vault

In every reachable state the aggregate counters of a vault are the sums they stand for, within its caps, and the halves
of its packed words are exact (`vault_accounting`). The module ends with the sample market that witnesses run.
-/

namespace Cpredict

open Outcome Packing Finset

/-! ## Packed words -/

/-- A packed word with the halves `lo` and `hi`: neither overflows, and the word is nothing else. -/
structure Halves (word lo hi : Nat) : Prop where
  lo_lt : lo < 2 ^ 128
  hi_lt : hi < 2 ^ 128
  word_eq : word = 2 ^ 128 * hi + lo

theorem halves_of_high_lt {word : Nat} (h : high 128 word < 2 ^ 128) : Halves word (low 128 word) (high 128 word) := by
  refine ⟨?_, h, ?_⟩
  · rw [low_eq]; exact Nat.mod_lt _ (by positivity)
  · rw [low_eq, high_eq]; exact (Nat.div_add_mod _ _).symm

namespace Vault

variable {D : Deployment} {v v' : Vault} {now : Nat} {buyer : Address}

theorem score_lt (hc : v.Configured D) (hl : v.Ledger) : v.totalEarlyBirdScore < 2 ^ 128 := by
  have hcap : v.totalPrincipal ≤ 5000000000 := hl.principal_le_cap.trans hc.marketCap
  have := hl.score_le
  have hbig : 3 * 5000000000 < 2 ^ 128 := by norm_num
  omega

theorem earlyBirdScore_le (hl : v.Ledger) (u : Address) : v.earlyBirdScore u ≤ v.totalEarlyBirdScore :=
  (Balances.le_sum v.earlyBirdScore (mem_univ u)).trans (hl.score_sum ▸ hl.current_le)

/-- A purchase that `_prepareBuy` lets through is recorded: no cast of `_completeBuy` reverts. -/
theorem completeBuy_succeeds {outcomeId filledUnits : Nat} (hc : v.Configured D) (hl : v.Ledger)
    (hb : v.Buyable now buyer outcomeId filledUnits) :
    ∃ v', v.completeBuy now buyer outcomeId filledUnits = .ok v' := by
  obtain ⟨h₁, h₂, h₃, h₄⟩ := completeBuy_fits hc hl hb
  have hmint : ∃ s, v.shares.mint buyer outcomeId filledUnits = .ok s := by
    simp [Shares.mint, hb.notZero]
  obtain ⟨s, hs⟩ := hmint
  exact ⟨_, completeBuy_eq_ok.mpr ⟨h₁, h₂, h₃, h₄, s, hs, rfl⟩⟩

/-! ## The counters -/

/-- The counters of a vault in each state of its market. -/
structure Accounting (v : Vault) : Prop where
  whileOpen : v.marketState = .open → (∀ o, v.shares.totalSupply o = v.principalByOutcome o) ∧
    ∑ u, v.earlyBirdScore u = v.totalEarlyBirdScore
  whileVoided : v.marketState = .voided →
    ∑ o ∈ range v.init.outcomeCount, v.shares.totalSupply o = v.remainingRefundPrincipal
  whileResolved : v.marketState = .resolved → v.shares.totalSupply v.winningOutcome = v.remainingWinningUnits ∧
    ∑ u, v.earlyBirdScore u = v.remainingEarlyBirdScore
  principal : ∑ o ∈ range v.init.outcomeCount, v.principalByOutcome o = v.totalPrincipal ∧
    v.totalPrincipal ≤ v.init.marketPrimaryCap
  bought : (∀ u, v.cumulativePrimaryBought u ≤ v.init.perUserPrimaryCap) ∧
    ∑ u, v.cumulativePrimaryBought u = v.totalPrincipal
  score : v.totalEarlyBirdScore ≤ 3 * v.totalPrincipal
  noOther : ∀ o, v.init.outcomeCount ≤ o → v.shares.totalSupply o = 0 ∧ v.principalByOutcome o = 0
  holders : ∀ o, ∑ u, v.shares.balanceOf o u = v.shares.totalSupply o
  market : Halves v.packedMarketAccounting v.totalPrincipal v.totalEarlyBirdScore
  buyers : ∀ u, Halves (v.packedBuyerAccounting u) (v.cumulativePrimaryBought u) (v.earlyBirdScore u)

theorem accounting_of_ledger (hc : v.Configured D) (hl : v.Ledger) : v.Accounting where
  whileOpen := fun ho => by
    have hsup := hl.supply
    have hscore := hl.score_sum
    simp only [SupplyMatches, currentScore, ho] at hsup hscore
    exact ⟨hsup, hscore⟩
  whileVoided := fun hv => by
    have hsup := hl.supply
    simpa only [SupplyMatches, hv] using hsup
  whileResolved := fun hr => by
    have hsup := hl.supply
    have hscore := hl.score_sum
    simp only [SupplyMatches, currentScore, hr] at hsup hscore
    exact ⟨hsup.2, hscore⟩
  principal := ⟨hl.outcome_sum, hl.principal_le_cap⟩
  bought := ⟨hl.bought_le_cap, hl.bought_sum⟩
  score := hl.score_le
  noOther := fun o ho => ⟨hl.supply_none o ho, hl.outcome_none o ho⟩
  holders := hl.backed
  market := halves_of_high_lt (score_lt hc hl)
  buyers := fun u => halves_of_high_lt (lt_of_le_of_lt (earlyBirdScore_le hl u) (score_lt hc hl))

end Vault

namespace Core

variable {D : Deployment} {w : Core} {m : Address}

/-- In every reachable state the counters of every vault are the sums they stand for, and neither a purchase nor an
early-bird claim lets the halves of a packed word overflow or leak. -/
theorem vault_accounting (hr : Reachable D w) (hm : w.factory.isMarket m = true) :
    (w.vaults m).Accounting ∧
      (∀ paused buyer outcomeId desiredUnits minUnits maxPayment deadline filledUnits,
        (w.vaults m).prepareBuy w.now paused buyer outcomeId desiredUnits minUnits maxPayment deadline =
          .ok filledUnits →
        ∃ v', (w.vaults m).completeBuy w.now buyer outcomeId filledUnits = .ok v' ∧
          Vault.Bought (w.vaults m) v' w.now buyer outcomeId filledUnits) ∧
      ∀ owner v' score reward, (w.vaults m).claimEarlyBirdFor owner = .ok (v', score, reward) →
        v'.cumulativePrimaryBought = (w.vaults m).cumulativePrimaryBought ∧
          v'.earlyBirdScore = Function.update (w.vaults m).earlyBirdScore owner 0 ∧
          v'.totalPrincipal = (w.vaults m).totalPrincipal ∧
            v'.totalEarlyBirdScore = (w.vaults m).totalEarlyBirdScore := by
  obtain ⟨hmkt, _⟩ := (Reachable.sound hr).markets m hm
  refine ⟨Vault.accounting_of_ledger hmkt.configured hmkt.ledger, ?_, ?_⟩
  · intro paused buyer outcomeId desiredUnits minUnits maxPayment deadline filledUnits h
    obtain ⟨v', hv'⟩ := Vault.completeBuy_succeeds hmkt.configured hmkt.ledger (Vault.prepareBuy_eq_ok h)
    exact ⟨v', hv', Vault.bought_halves hv'⟩
  · intro owner v' score reward h
    obtain ⟨_, _, _, _, _, rfl⟩ := Vault.claimEarlyBirdFor_eq_ok h
    exact ⟨(Vault.earlyBird_halves _ _ _ _).1, (Vault.earlyBird_halves _ _ _ _).2, rfl, rfl⟩

end Core

/-! ## A sample market -/

namespace Sample

def creator : Address := addr 100

def alice : Address := addr 101

def bob : Address := addr 102

def market : Address := addr 50

/-- A deployment in which users have the addresses from 100 on. -/
def deployment : Deployment where
  factory := addr 1
  paymentToken := addr 2
  config := addr 3
  emergencyController := addr 4
  exposureGuard := addr 5
  bondEscrow := addr 6
  feeVault := addr 7
  permit2 := addr 8
  governance := addr 99
  marketplace := addr 90
  resolutionWindow := 3600
  outside := fun a => decide (90 ≤ a.word.val)
  window_ge := by decide
  window_le := by decide
  factory_inside := by decide
  bondEscrow_inside := by decide
  feeVault_inside := by decide
  exposureGuard_inside := by decide
  marketplace_outside := by decide
  bondEscrow_ne_feeVault := by decide
  zero_outside := by decide
  marketplace_ne_zero := by decide
  feeVault_ne_zero := by decide
  bondEscrow_ne_zero := by decide

/-- Users hold the payment token and have approved everybody. -/
def genesis : Core where
  now := 1000
  token :=
    { balanceOf := fun a => if deployment.outside a = true then 1000000000 else 0
      allowance := fun a _ => if deployment.outside a = true then Token.unlimited else 0
      refuses := fun _ _ _ => false }
  config := Config.deployed (addr 200)
  emergency := ⟨0, 0⟩
  factory := ⟨true, false, fun _ => 0, fun _ => false⟩
  guard := ⟨1000000000, 0, false, fun _ => false, fun _ => 0⟩
  escrow := ⟨0, Credits.none, fun _ => ⟨0, 0, false⟩⟩
  feeVault := ⟨fun a => a = deployment.factory || a = deployment.marketplace, Credits.none⟩
  vaults := fun _ => Vault.blank
  log := []

theorem genesis_ok : Core.Genesis deployment genesis where
  config := Config.deployed_bounded (by decide)
  noMarket := fun _ => rfl
  guard := ⟨rfl, fun _ => rfl, fun _ => rfl⟩
  escrow := rfl
  feeVault := ⟨rfl, by decide, by decide⟩
  allowance := fun a ha _ => if_neg (by rw [ha]; decide)
  vaults := fun _ => rfl
  log := rfl

def terms : MarketTerms where
  rulesHash := 1
  metadataURI := []
  resolutionSourceHash := 0
  resolutionSourceURI := []
  closeAt := 4600
  eventStartsAt := 0
  outcomeDeadlineAt := 8200
  creatorTreasury := creator
  featureFlags := FEATURE_EARLY_BIRD

def params : CreateMarketParams where
  terms := terms
  outcomeCount := 2
  deploymentMode := .clone
  creatorRakeBps := 1000
  creatorC2CFeeBps := 100
  perUserPrimaryCap := 50000000
  marketPrimaryCap := 100000000
  minimumPrimaryUnits := 10000
  minimumC2CUnits := 10000
  creatorBond := 10000000

/-- A call or a wait. A call that reverts changes nothing. -/
def play (w : Core) : Address × CoreCall ⊕ Nat → Core
  | .inl (caller, c) => match Core.exec deployment w caller c with
    | .ok w' => w'
    | .error _ => w
  | .inr seconds => { w with now := w.now + seconds }

theorem play_run (w : Core) (x : Address × CoreCall ⊕ Nat) : Reach.Run (Core.Step deployment) w (play w x) := by
  cases x with
  | inl x =>
    obtain ⟨caller, c⟩ := x
    simp only [play]
    split
    · rename_i he; exact .single (.call _ _ _ _ he)
    · exact .refl
  | inr seconds => exact .single (.tick w seconds)

theorem foldl_run (w : Core) (xs : List (Address × CoreCall ⊕ Nat)) :
    Reach.Run (Core.Step deployment) w (xs.foldl play w) := by
  induction xs generalizing w with
  | nil => exact .refl
  | cons x xs ih => exact (play_run w x).trans (ih _)

/-- The state after a list of calls and waits. -/
def played (xs : List (Address × CoreCall ⊕ Nat)) : Core := xs.foldl play genesis

theorem played_reachable (xs : List (Address × CoreCall ⊕ Nat)) : Core.Reachable deployment (played xs) :=
  ⟨genesis, genesis_ok, foldl_run genesis xs⟩

theorem played_run (xs ys : List (Address × CoreCall ⊕ Nat)) :
    Reach.Run (Core.Step deployment) (played xs) (played (xs ++ ys)) := by
  unfold played
  rw [List.foldl_append]
  exact foldl_run _ ys

/-- A market with two purchases. -/
def purchases : List (Address × CoreCall ⊕ Nat) :=
  [.inl (creator, .createMarket params none market), .inl (alice, .buy market 0 3000000 1 3000000 9999 true),
   .inr 2000, .inl (bob, .buy market 1 1000000 1 1000000 9999 true)]

/-- The same market, resolved to its first outcome. -/
def resolution : List (Address × CoreCall ⊕ Nat) := purchases ++ [.inr 2000, .inl (creator, .resolve market 0 0)]

/-- The same market, not resolved in time; the first buyer takes a refund before the bond is settled. -/
def timeout : List (Address × CoreCall ⊕ Nat) :=
  purchases ++ [.inr 10000, .inl (bob, .voidAfterDeadline market), .inl (bob, .refundFor market alice),
    .inl (bob, .settleBond market)]

end Sample

/-- The sample market after its resolution: the counters are those of its purchases. -/
theorem vault_accounting_sample :
    ((Sample.played Sample.resolution).vaults Sample.market).Accounting ∧
      ((Sample.played Sample.resolution).vaults Sample.market).marketState = .resolved ∧
      ((Sample.played Sample.resolution).vaults Sample.market).remainingWinningUnits = 3000000 ∧
      ((Sample.played Sample.resolution).vaults Sample.market).totalPrincipal = 4000000 :=
  ⟨(Core.vault_accounting (Sample.played_reachable _) (by decide +kernel)).1, by decide +kernel, by decide +kernel,
    by decide +kernel⟩

end Cpredict
