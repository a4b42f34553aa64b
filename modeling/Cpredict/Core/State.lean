import Cpredict.Core.Accounts
import Cpredict.Core.Config
import Cpredict.Events
import Cpredict.Vault.Model

/-!
# The state of the protocol's core

The factory, its vaults, the custodians of bonds and fees, the exposure guard, the configuration and the payment token,
with the time and the log of the chain. The operations here are the ones that the functions of several contracts
share: a payment, a payment on an allowance, an accrued fee, a report to the guard, a delivery of shares.
-/

namespace Cpredict

open Outcome

structure Emergency where
  pauseExpiresAt : Nat
  pausedFlags : Nat

/-- `isPaused` -/
def Emergency.isPaused (e : Emergency) (now flag : Nat) : Bool :=
  decide (now < e.pauseExpiresAt) && ((e.pausedFlags &&& flag) != 0)

structure Factory where
  active : Bool
  deprecated : Bool
  creatorNonce : Address → Nat
  isMarket : Address → Bool

structure Core where
  now : Nat
  token : Token
  config : Config
  emergency : Emergency
  factory : Factory
  guard : Guard
  escrow : Escrow
  feeVault : FeeVault
  vaults : Address → Vault
  log : Log

namespace Core

def emit (w : Core) (e : Event) : Core := { w with log := w.log ++ [⟨w.now, e⟩] }

def emitAll (w : Core) (es : List Event) : Core := { w with log := w.log ++ es.map (LogEntry.mk w.now) }

def setVault (w : Core) (market : Address) (v : Vault) : Core :=
  { w with vaults := Function.update w.vaults market v }

/-- `safeTransfer` of the payment token by `source`. -/
def pay (w : Core) (source target : Address) (amount : Nat) : Except Err Core := do
  let token ← w.token.transfer source target amount
  .ok ({ w with token := token }.emit (.Transfer source target amount))

/-- `safeTransferFrom` of the payment token by `spender`. -/
def payFrom (w : Core) (spender source target : Address) (amount : Nat) : Except Err Core := do
  let token ← w.token.transferFrom spender source target amount
  .ok ({ w with token := token }.emit (.Transfer source target amount))

/-- `_pullExact`, `_pullWithPermit2` and `_transferExact`: the target has to receive the whole amount. -/
def pullExact (w : Core) (spender source target : Address) (amount : Nat) : Except Err Core := do
  let w' ← w.payFrom spender source target amount
  let received ← checkedSub .Panic (w'.token.balanceOf target) (w.token.balanceOf target)
  revertIf (received ≠ amount) (.InexactTokenTransfer amount received)
  .ok w'

/-- `feeVault.accrue`, called by `sender`. -/
def accrue (D : Deployment) (w : Core) (sender beneficiary : Address) (amount : Nat) (kind : FeeKind)
    (ref : FeeReference) : Except Err Core := do
  let f ← w.feeVault.accrue sender (w.token.balanceOf D.feeVault) beneficiary amount
  let w := { w with feeVault := f }
  .ok (if amount = 0 then w else w.emit (.FeeAccrued beneficiary sender kind ref amount))

/-- `exposureGuard.sync(market)`: the report before and after. -/
def sync (w : Core) (market : Address) : Except Err (Core × Nat × Nat) := do
  let (g, previous, current) ← w.guard.sync market (w.vaults market).guardExposure
  let w := { w with guard := g }
  .ok (if g.retired = true then w else w.emit (.ExposureSynced market previous current g.totalReportedExposure),
    previous, current)

/-- `_assertCoverage` of a market. -/
def assertCoverage (w : Core) (market : Address) : Except Err Unit :=
  revertIf (w.token.balanceOf market < (w.vaults market).liabilities)
    (.Insolvent (w.token.balanceOf market) (w.vaults market).liabilities)

/-- The answer of the receiver of shares: a contract of the protocol has no receiver hook. -/
def deliver (D : Deployment) (target : Address) (accepts : Bool) : Except Err Unit :=
  revertIf ((D.outside target && accepts) = false) .ERC1155InvalidReceiver

/-- An address with the code of a registered market. -/
def requireMarket (w : Core) (market : Address) : Except Err Unit :=
  revertIf (w.factory.isMarket market = false) .MarketNotRegistered

end Core

end Cpredict
