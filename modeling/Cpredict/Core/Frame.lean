import Cpredict.Core.Calls

/-!
# What a call does not read

No call reads the log, few read the emergency state, and only those that buy shares, create a market or settle a bond
read the guard. So a call does the same beside another log, beside an emergency state that agrees on the flags it reads
(`exec_beside`) and, when it leaves the guard alone, beside another guard (`exec_unguarded`).
-/

namespace Outcome

@[simp] theorem map_ok {α β ε : Type} (f : α → β) (a : α) : f <$> (Except.ok a : Except ε α) = .ok (f a) := rfl

end Outcome

namespace Cpredict

open Outcome

namespace Core

/-- The state with another emergency state, another guard if there is one, and `l` before its log. -/
def beside (e : Emergency) (g : Option Guard) (l : Log) (w : Core) : Core :=
  { w with emergency := e, guard := g.getD w.guard, log := l ++ w.log }

section

variable (e : Emergency) (g : Option Guard) (l : Log) (w : Core)

@[simp] theorem beside_now : (w.beside e g l).now = w.now := rfl

@[simp] theorem beside_token : (w.beside e g l).token = w.token := rfl

@[simp] theorem beside_config : (w.beside e g l).config = w.config := rfl

@[simp] theorem beside_emergency : (w.beside e g l).emergency = e := rfl

@[simp] theorem beside_factory : (w.beside e g l).factory = w.factory := rfl

@[simp] theorem beside_guard : (w.beside e none l).guard = w.guard := rfl

@[simp] theorem beside_escrow : (w.beside e g l).escrow = w.escrow := rfl

@[simp] theorem beside_feeVault : (w.beside e g l).feeVault = w.feeVault := rfl

@[simp] theorem beside_vaults : (w.beside e g l).vaults = w.vaults := rfl

@[simp] theorem beside_setVault (market : Address) (v : Vault) :
    (w.beside e g l).setVault market v = (w.setVault market v).beside e g l := rfl

theorem emit_beside (x : Event) : (w.emit x).beside e g l = (w.beside e g l).emit x := by
  simp [emit, beside]

theorem emitAll_beside (xs : List Event) : (w.emitAll xs).beside e g l = (w.beside e g l).emitAll xs := by
  simp [emitAll, beside]

variable (D : Deployment) (caller market owner source target : Address) (amount outcomeId : Nat)

/-! ## The shared operations -/

@[simp] theorem requireMarket_beside : (w.beside e g l).requireMarket market = w.requireMarket market := rfl

@[simp] theorem assertCoverage_beside : (w.beside e g l).assertCoverage market = w.assertCoverage market := rfl

@[simp] theorem pay_beside :
    (w.beside e g l).pay source target amount = beside e g l <$> w.pay source target amount := by
  simp only [pay, map_bind, map_ok, emit_beside]
  rfl

@[simp] theorem payFrom_beside :
    (w.beside e g l).payFrom caller source target amount = beside e g l <$> w.payFrom caller source target amount := by
  simp only [payFrom, map_bind, map_ok, emit_beside]
  rfl

@[simp] theorem pullExact_beside :
    (w.beside e g l).pullExact caller source target amount =
      beside e g l <$> w.pullExact caller source target amount := by
  simp only [pullExact, payFrom_beside, bind_map_left, map_bind, map_ok]
  rfl

@[simp] theorem accrue_beside (beneficiary : Address) (kind : FeeKind) (ref : FeeReference) :
    (w.beside e g l).accrue D source beneficiary amount kind ref =
      beside e g l <$> w.accrue D source beneficiary amount kind ref := by
  simp only [accrue, map_bind, map_ok, apply_ite (beside e g l), emit_beside]
  rfl

@[simp] theorem sync_beside :
    (w.beside e none l).sync market = (fun r => (r.1.beside e none l, r.2)) <$> w.sync market := by
  simp only [sync, map_bind, map_ok, apply_ite (beside e none l), emit_beside]
  rfl

/-! ## MarketVaultCoreV1 -/

theorem updateBeforeFirstBuy_beside (terms : MarketTerms) :
    updateBeforeFirstBuy (w.beside e g l) caller market terms =
      beside e g l <$> updateBeforeFirstBuy w caller market terms := by
  simp only [updateBeforeFirstBuy, map_bind, map_ok, emit_beside]
  rfl

theorem completeBuy_beside (buyer : Address) (desiredUnits filledUnits : Nat) (accepts : Bool) :
    completeBuy D (w.beside e none l) caller market buyer outcomeId desiredUnits filledUnits accepts =
      beside e none l <$> completeBuy D w caller market buyer outcomeId desiredUnits filledUnits accepts := by
  simp only [completeBuy, map_bind, map_ok, emitAll_beside]
  rfl

theorem buy_beside {desiredUnits minUnits maxPayment deadline : Nat} {accepts : Bool}
    (h : e.isPaused w.now PAUSE_PRIMARY_BUY = w.emergency.isPaused w.now PAUSE_PRIMARY_BUY) :
    buy D (w.beside e none l) caller market outcomeId desiredUnits minUnits maxPayment deadline accepts =
      beside e none l <$> buy D w caller market outcomeId desiredUnits minUnits maxPayment deadline accepts := by
  simp only [buy, requireMarket_beside, beside_vaults, beside_now, beside_emergency, h, pullExact_beside,
    completeBuy_beside, map_bind, bind_map_left]

theorem buyWithPermit2_beside {desiredUnits minUnits maxPayment callDeadline permittedAmount : Nat}
    {permittedToken : Address} {permitAccepted accepts : Bool}
    (hp : e.isPaused w.now PAUSE_PERMIT2 = w.emergency.isPaused w.now PAUSE_PERMIT2)
    (h : e.isPaused w.now PAUSE_PRIMARY_BUY = w.emergency.isPaused w.now PAUSE_PRIMARY_BUY) :
    buyWithPermit2 D (w.beside e none l) caller market owner outcomeId desiredUnits minUnits maxPayment callDeadline
        permittedToken permittedAmount permitAccepted accepts =
      beside e none l <$> buyWithPermit2 D w caller market owner outcomeId desiredUnits minUnits maxPayment callDeadline
        permittedToken permittedAmount permitAccepted accepts := by
  simp only [buyWithPermit2, requireMarket_beside, beside_vaults, beside_now, beside_emergency, hp, h, pullExact_beside,
    completeBuy_beside, map_bind, bind_map_left]
  rfl

theorem payRake_beside (b : PayoutBreakdown) :
    payRake D (w.beside e g l) market b = beside e g l <$> payRake D w market b := by
  unfold payRake
  by_cases hz : b.protocolFee + b.creatorFee = 0
  · simp only [hz, if_true, map_ok]
  · simp only [hz, if_false, beside_vaults, pay_beside, accrue_beside, map_bind, bind_map_left]

theorem resolve_beside (evidenceHash : Bytes32) :
    resolve D (w.beside e g l) caller market outcomeId evidenceHash =
      beside e g l <$> resolve D w caller market outcomeId evidenceHash := by
  simp only [resolve, requireMarket_beside, beside_vaults, beside_now, beside_setVault, map_bind]
  refine bind_congr fun _ => bind_congr fun r => ?_
  obtain ⟨v, payouts⟩ := r
  cases payouts with
  | none => exact congrArg Except.ok (emit_beside ..).symm
  | some b =>
    simp only [payRake_beside, map_bind, bind_map_left, map_ok, emit_beside]
    rfl

theorem creatorVoid_beside (evidenceHash : Bytes32) :
    creatorVoid (w.beside e g l) caller market evidenceHash =
      beside e g l <$> creatorVoid w caller market evidenceHash := by
  simp only [creatorVoid, map_bind, map_ok, emit_beside]
  rfl

theorem voidAfterDeadline_beside :
    voidAfterDeadline (w.beside e g l) caller market = beside e g l <$> voidAfterDeadline w caller market := by
  simp only [voidAfterDeadline, map_bind, map_ok, emit_beside]
  rfl

theorem claimWinningsFor_beside :
    claimWinningsFor D (w.beside e g l) caller market owner =
      beside e g l <$> claimWinningsFor D w caller market owner := by
  simp only [claimWinningsFor, beside_vaults, beside_setVault, ← emitAll_beside, pay_beside, map_bind, bind_map_left,
    map_ok, emit_beside]
  rfl

theorem claimEarlyBirdFor_beside :
    claimEarlyBirdFor (w.beside e g l) caller market owner =
      beside e g l <$> claimEarlyBirdFor w caller market owner := by
  simp only [claimEarlyBirdFor, beside_vaults, beside_setVault, ← emitAll_beside, pay_beside, map_bind, bind_map_left,
    map_ok, emit_beside]
  rfl

theorem refundFor_beside :
    refundFor D (w.beside e g l) caller market owner = beside e g l <$> refundFor D w caller market owner := by
  simp only [refundFor, beside_vaults, beside_setVault, ← emitAll_beside, pay_beside, map_bind, bind_map_left, map_ok,
    emit_beside]
  rfl

theorem fundTimeoutBonus_beside :
    fundTimeoutBonus (w.beside e none l) caller market amount =
      beside e none l <$> fundTimeoutBonus w caller market amount := by
  simp only [fundTimeoutBonus, beside_vaults, beside_setVault, sync_beside, map_bind, bind_map_left, map_ok,
    emit_beside]
  rfl

theorem claimTimeoutBonusFor_beside :
    claimTimeoutBonusFor (w.beside e g l) caller market owner =
      beside e g l <$> claimTimeoutBonusFor w caller market owner := by
  simp only [claimTimeoutBonusFor, beside_vaults, beside_setVault, ← emitAll_beside, pay_beside, map_bind,
    bind_map_left, map_ok, emit_beside]
  rfl

theorem burnLosingPosition_beside :
    burnLosingPosition (w.beside e g l) caller market outcomeId =
      beside e g l <$> burnLosingPosition w caller market outcomeId := by
  simp only [burnLosingPosition, map_bind, map_ok, emitAll_beside]
  rfl

theorem safeTransferFrom_beside (id value : Nat) (accepts : Bool) :
    safeTransferFrom D (w.beside e g l) caller market source target id value accepts =
      beside e g l <$> safeTransferFrom D w caller market source target id value accepts := by
  simp only [safeTransferFrom, moveShares, map_bind, bind_assoc, ok_bind, map_ok, emit_beside]
  rfl

theorem safeBatchTransferFrom_beside (parts : List (Nat × Nat)) (accepts : Bool) :
    safeBatchTransferFrom D (w.beside e g l) caller market source target parts accepts =
      beside e g l <$> safeBatchTransferFrom D w caller market source target parts accepts := by
  simp only [safeBatchTransferFrom, map_bind, map_ok, emit_beside]
  rfl

theorem setApprovalForAll_beside (operator : Address) (approved : Bool) :
    setApprovalForAll (w.beside e g l) caller market operator approved =
      beside e g l <$> setApprovalForAll w caller market operator approved := by
  simp only [setApprovalForAll, map_bind, map_ok, emit_beside]
  rfl

/-! ## The factory and the custodians -/

theorem payCreationFee_beside :
    payCreationFee D (w.beside e g l) caller market = beside e g l <$> payCreationFee D w caller market := by
  unfold payCreationFee
  by_cases hz : w.config.creationFee = 0
  · simp only [beside_config, hz, if_true, map_ok]
  · simp only [beside_config, hz, if_false, pullExact_beside, accrue_beside, map_bind, bind_map_left]

theorem lockBond_beside :
    lockBond D (w.beside e g l) caller market amount = beside e g l <$> lockBond D w caller market amount := by
  simp only [lockBond, pullExact_beside, map_bind, bind_map_left, map_ok, emit_beside]
  rfl

theorem createMarket_beside {p : CreateMarketParams} {platformFees : Option (Nat × Nat)}
    (h : e.isPaused w.now PAUSE_MARKET_CREATION = w.emergency.isPaused w.now PAUSE_MARKET_CREATION) :
    createMarket D (w.beside e none l) caller p platformFees market =
      beside e none l <$> createMarket D w caller p platformFees market := by
  have hreg : ∀ v g f, registered (w.beside e none l) caller market v g f =
      (registered w caller market v g f).beside e none l := fun _ _ _ => rfl
  simp only [createMarket, beside_factory, beside_now, beside_emergency, h, beside_guard, beside_feeVault, hreg,
    ← emitAll_beside, payCreationFee_beside, lockBond_beside, map_bind, bind_map_left, map_ok, emit_beside]
  rfl

theorem settleBond_beside : settleBond D (w.beside e none l) market = beside e none l <$> settleBond D w market := by
  simp only [settleBond, map_bind]
  refine bind_congr fun _ => bind_congr fun _ => bind_congr fun _ => bind_congr fun r => ?_
  have hset : ∀ x : Escrow, ({ w.beside e none l with escrow := x } : Core) =
      { w with escrow := x }.beside e none l := fun _ => rfl
  by_cases ht : timedOut (w.vaults market) = true ∧ (w.vaults market).totalPrincipal ≠ 0
  · refine (if_pos ht).trans (.trans ?_ (congrArg (beside e none l <$> ·) (if_pos ht)).symm)
    simp only [hset, pay_beside, fundTimeoutBonus_beside, map_bind, bind_map_left, map_ok, emit_beside]
  · refine (if_neg ht).trans (.trans ?_ (congrArg (beside e none l <$> ·) (if_neg ht)).symm)
    rw [map_ok, emitAll_beside]
    rfl

theorem claimBondFor_beside (creator : Address) :
    claimBondFor D (w.beside e g l) caller creator = beside e g l <$> claimBondFor D w caller creator := by
  have hset : ∀ c, ({ w.beside e g l with escrow := { w.escrow with credits := c } } : Core) =
      { w with escrow := { w.escrow with credits := c } }.beside e g l := fun _ => rfl
  simp only [claimBondFor, beside_escrow, hset, pay_beside, map_bind, bind_map_left, map_ok, emit_beside]

theorem claimFeesFor_beside (beneficiary : Address) :
    claimFeesFor D (w.beside e g l) caller beneficiary = beside e g l <$> claimFeesFor D w caller beneficiary := by
  have hset : ∀ c, ({ w.beside e g l with feeVault := { w.feeVault with credits := c } } : Core) =
      { w with feeVault := { w.feeVault with credits := c } }.beside e g l := fun _ => rfl
  simp only [claimFeesFor, beside_feeVault, hset, pay_beside, map_bind, bind_map_left, map_ok, emit_beside]

end

end Core

/-! ## Calls -/

/-- The flags that stop a call. -/
def CoreCall.brakes : CoreCall → List Nat
  | .createMarket .. => [PAUSE_MARKET_CREATION]
  | .buy .. => [PAUSE_PRIMARY_BUY]
  | .buyWithPermit2 .. => [PAUSE_PERMIT2, PAUSE_PRIMARY_BUY]
  | _ => []

/-- The calls that do not change the emergency state. -/
def CoreCall.leavesBrake : CoreCall → Bool
  | .setEmergency _ => false
  | _ => true

/-- The calls that neither read nor change the guard. -/
def CoreCall.leavesGuard : CoreCall → Bool
  | .createMarket .. => false
  | .buy .. => false
  | .buyWithPermit2 .. => false
  | .settleBond _ => false
  | .sync _ => false
  | .raiseCap _ => false
  | .retireForever => false
  | _ => true

namespace Core

/-- A call does the same beside another log, an emergency state that agrees on the flags it reads, and, if it leaves the
guard alone, another guard. -/
theorem exec_beside (e : Emergency) (g : Option Guard) (l : Log) (w : Core) (D : Deployment) (caller : Address)
    {c : CoreCall} (hc : c.leavesBrake = true) (hg : g = none ∨ c.leavesGuard = true)
    (h : ∀ flag ∈ c.brakes, e.isPaused w.now flag = w.emergency.isPaused w.now flag) :
    exec D (w.beside e g l) caller c = beside e g l <$> exec D w caller c := by
  unfold exec
  rw [map_bind]
  refine bind_congr fun _ => ?_
  cases c with
  | createMarket =>
    obtain rfl := hg.resolve_right nofun
    exact createMarket_beside _ _ _ _ _ _ (h _ (by simp [CoreCall.brakes]))
  | updateBeforeFirstBuy => exact updateBeforeFirstBuy_beside ..
  | buy =>
    obtain rfl := hg.resolve_right nofun
    exact buy_beside _ _ _ _ _ _ _ (h _ (by simp [CoreCall.brakes]))
  | buyWithPermit2 =>
    obtain rfl := hg.resolve_right nofun
    exact buyWithPermit2_beside _ _ _ _ _ _ _ _ (h _ (by simp [CoreCall.brakes])) (h _ (by simp [CoreCall.brakes]))
  | resolve => exact resolve_beside ..
  | creatorVoid => exact creatorVoid_beside ..
  | voidAfterDeadline => exact voidAfterDeadline_beside ..
  | claimWinningsFor => exact claimWinningsFor_beside ..
  | claimEarlyBirdFor => exact claimEarlyBirdFor_beside ..
  | refundFor => exact refundFor_beside ..
  | claimTimeoutBonusFor => exact claimTimeoutBonusFor_beside ..
  | burnLosingPosition => exact burnLosingPosition_beside ..
  | safeTransferFrom => exact safeTransferFrom_beside ..
  | safeBatchTransferFrom => exact safeBatchTransferFrom_beside ..
  | setApprovalForAll => exact setApprovalForAll_beside ..
  | settleBond =>
    obtain rfl := hg.resolve_right nofun
    exact settleBond_beside ..
  | claimBondFor => exact claimBondFor_beside ..
  | claimFeesFor => exact claimFeesFor_beside ..
  | accrue => exact accrue_beside ..
  | sync =>
    obtain rfl := hg.resolve_right nofun
    simp only [sync_beside, map_bind, bind_map_left]
    rfl
  | raiseCap | retireForever =>
    obtain rfl := hg.resolve_right nofun
    simp only [beside_guard, map_bind]
    rfl
  | updateConfig =>
    simp only [beside_config, map_bind]
    rfl
  | setDeprecated =>
    simp only [beside_factory, map_bind]
    rfl
  | transferToken => exact pay_beside ..
  | transferTokenFrom => exact payFrom_beside ..
  | approveToken | setRefusals => rfl
  | issueToken =>
    rw [map_ok, emit_beside]
    rfl
  | setEmergency => cases hc

end Core

end Cpredict
