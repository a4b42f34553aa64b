import Cpredict.Lib.Balances
import Cpredict.Lib.Outcome
import Cpredict.Types

/-!
# FeeVaultV1, BondEscrowV1 and LaunchExposureGuardV1: storage and functions

Both custodians keep credits: an amount for each beneficiary and their total (`Credits`). The functions here are those
of one contract on its own storage; its balance of the payment token is passed in where it is checked.
-/

namespace Cpredict

open Outcome

/-! ## Credits -/

/-- `creditOf` and `totalCredits` of a custodian. -/
structure Credits where
  creditOf : Address → Nat
  totalCredits : Nat

namespace Credits

def none : Credits := ⟨fun _ => 0, 0⟩

def add (c : Credits) (beneficiary : Address) (amount : Nat) : Credits where
  creditOf := Function.update c.creditOf beneficiary (c.creditOf beneficiary + amount)
  totalCredits := c.totalCredits + amount

/-- `_claim`: the amount to be paid out. -/
def claim (c : Credits) (beneficiary : Address) : Except Err (Credits × Nat) := do
  let amount := c.creditOf beneficiary
  revertIf (amount = 0) .NothingToClaim
  let total ← checkedSub .Panic c.totalCredits amount
  .ok (⟨Function.update c.creditOf beneficiary 0, total⟩, amount)

/-- The total is the sum of the credits. -/
def Balanced (c : Credits) : Prop := c.totalCredits = ∑ a, c.creditOf a

theorem none_balanced : Balanced none := by simp [Balanced, none]

theorem add_balanced {c : Credits} (h : c.Balanced) (beneficiary : Address) (amount : Nat) :
    (c.add beneficiary amount).Balanced := by
  have := Balances.sum_update c.creditOf (Finset.mem_univ beneficiary) (c.creditOf beneficiary + amount)
  unfold Balanced add at *
  simp only
  omega

/-- A claim takes one credit out whole. -/
theorem claim_eq_ok {c c' : Credits} {beneficiary : Address} {amount : Nat}
    (h : c.claim beneficiary = .ok (c', amount)) :
    amount = c.creditOf beneficiary ∧ amount ≠ 0 ∧ amount ≤ c.totalCredits ∧
      c' = ⟨Function.update c.creditOf beneficiary 0, c.totalCredits - amount⟩ := by
  simp only [claim, bind_eq_ok, revertIf_eq_ok, checkedSub_eq_ok, Except.ok.injEq, Prod.mk.injEq] at h
  obtain ⟨_, h₀, _, ⟨hle, rfl⟩, rfl, rfl⟩ := h
  exact ⟨rfl, h₀, hle, rfl⟩

theorem claim_balanced {c c' : Credits} {beneficiary : Address} {amount : Nat} (hc : c.Balanced)
    (h : c.claim beneficiary = .ok (c', amount)) : c'.Balanced := by
  obtain ⟨rfl, _, _, rfl⟩ := claim_eq_ok h
  have := Balances.sum_update c.creditOf (Finset.mem_univ beneficiary) 0
  unfold Balanced at *
  simp only
  omega

end Credits

/-! ## FeeVaultV1 -/

structure FeeVault where
  authorizedAccruer : Address → Bool
  credits : Credits

namespace FeeVault

def registerAccruer (f : FeeVault) (account : Address) : Except Err FeeVault := do
  revertIf (account = 0) .ZeroAddress
  .ok { f with authorizedAccruer := Function.update f.authorizedAccruer account true }

/-- `accrue`, called by `sender`, with the vault's balance of the payment token. -/
def accrue (f : FeeVault) (sender : Address) (balance : Nat) (beneficiary : Address) (amount : Nat) :
    Except Err FeeVault := do
  revertIf (f.authorizedAccruer sender = false) .AccruerNotAuthorized
  revertIf (beneficiary = 0) .ZeroAddress
  if amount = 0 then .ok f
  else do
    revertIf (balance < f.credits.totalCredits + amount) (.Insolvent balance (f.credits.totalCredits + amount))
    .ok { f with credits := f.credits.add beneficiary amount }

end FeeVault

/-- Whether `accrue` can end with an error. -/
def Err.ofAccrue : Err → Bool
  | .AccruerNotAuthorized => true
  | .ZeroAddress => true
  | .Insolvent .. => true
  | _ => false

/-! ## BondEscrowV1 -/

structure Bond where
  creator : Address
  amount : Nat
  settled : Bool
deriving DecidableEq

structure Escrow where
  totalLocked : Nat
  credits : Credits
  bondOf : Address → Bond

namespace Escrow

/-- `lockBond`, called by the factory, with the escrow's balance of the payment token. -/
def lockBond (e : Escrow) (balance : Nat) (market creator : Address) (amount : Nat) : Except Err Escrow := do
  revertIf (market = 0 ∨ creator = 0) .ZeroAddress
  revertIf ((e.bondOf market).creator ≠ 0) .MarketAlreadyRegistered
  revertIf (amount = 0 ∨ 2 ^ 128 - 1 < amount) .BondStateMismatch
  revertIf (balance < e.totalLocked + amount + e.credits.totalCredits)
    (.Insolvent balance (e.totalLocked + amount + e.credits.totalCredits))
  .ok { e with
        totalLocked := e.totalLocked + amount
        bondOf := Function.update e.bondOf market ⟨creator, amount, false⟩ }

/-- The part of `settleBond` that both outcomes share: the bond leaves `totalLocked`. -/
def unlock (e : Escrow) (market : Address) : Except Err (Escrow × Bond) := do
  let bond := e.bondOf market
  let locked ← checkedSub .Panic e.totalLocked bond.amount
  .ok ({ e with
         totalLocked := locked
         bondOf := Function.update e.bondOf market { bond with settled := true } }, bond)

/-- The part of `settleBond` that credits the creator. -/
def credit (e : Escrow) (creator : Address) (amount : Nat) : Escrow :=
  { e with credits := e.credits.add creator amount }

theorem lockBond_eq_ok {e e' : Escrow} {balance amount : Nat} {market creator : Address}
    (h : e.lockBond balance market creator amount = .ok e') :
    creator ≠ 0 ∧ (e.bondOf market).creator = 0 ∧ amount ≠ 0 ∧
      e.totalLocked + amount + e.credits.totalCredits ≤ balance ∧
      e' = { e with
             totalLocked := e.totalLocked + amount
             bondOf := Function.update e.bondOf market ⟨creator, amount, false⟩ } := by
  simp only [lockBond, bind_eq_ok, revertIf_eq_ok, Except.ok.injEq, not_or, not_lt, ne_eq, Decidable.not_not] at h
  obtain ⟨_, ⟨_, h₁⟩, _, h₂, _, ⟨h₃, _⟩, _, h₄, rfl⟩ := h
  exact ⟨h₁, h₂, h₃, h₄, rfl⟩

theorem unlock_eq_ok {e e' : Escrow} {market : Address} {b : Bond} :
    e.unlock market = .ok (e', b) ↔ (e.bondOf market).amount ≤ e.totalLocked ∧ b = e.bondOf market ∧
      e' = { e with
             totalLocked := e.totalLocked - (e.bondOf market).amount
             bondOf := Function.update e.bondOf market { e.bondOf market with settled := true } } := by
  simp only [unlock, bind_eq_ok, checkedSub_eq_ok, Except.ok.injEq, Prod.mk.injEq]
  constructor
  · rintro ⟨_, ⟨hle, rfl⟩, rfl, rfl⟩; exact ⟨hle, rfl, rfl⟩
  · rintro ⟨hle, rfl, rfl⟩; exact ⟨_, ⟨hle, rfl⟩, rfl, rfl⟩

end Escrow

/-! ## LaunchExposureGuardV1 -/

structure Guard where
  exposureCap : Nat
  totalReportedExposure : Nat
  retired : Bool
  registeredMarket : Address → Bool
  reportedExposure : Address → Nat

namespace Guard

def registerMarket (g : Guard) (market : Address) : Except Err Guard := do
  revertIf (market = 0) .ZeroAddress
  revertIf (g.registeredMarket market = true) .MarketAlreadyRegistered
  .ok { g with registeredMarket := Function.update g.registeredMarket market true }

/-- `reserve`, called by `sender`. -/
def reserve (g : Guard) (sender : Address) (amount : Nat) : Except Err Guard := do
  revertIf (g.registeredMarket sender = false) .MarketNotRegistered
  if g.retired = true then .ok g
  else do
    let available := if g.exposureCap ≤ g.totalReportedExposure then 0 else g.exposureCap - g.totalReportedExposure
    revertIf (available < amount) (.ExposureCapExceeded amount available)
    .ok { g with
          totalReportedExposure := g.totalReportedExposure + amount
          reportedExposure := Function.update g.reportedExposure sender (g.reportedExposure sender + amount) }

/-- `sync` of a market whose `guardExposure` is `current`: the report before and after. -/
def sync (g : Guard) (market : Address) (current : Nat) : Except Err (Guard × Nat × Nat) := do
  revertIf (g.registeredMarket market = false) .MarketNotRegistered
  let previous := g.reportedExposure market
  if g.retired = true then .ok (g, previous, previous)
  else do
    let rest ← checkedSub .Panic g.totalReportedExposure previous
    .ok ({ g with
           totalReportedExposure := rest + current
           reportedExposure := Function.update g.reportedExposure market current }, previous, current)

def raiseCap (g : Guard) (newCap : Nat) : Except Err Guard := do
  revertIf (newCap < g.exposureCap ∨ newCap < g.totalReportedExposure)
    (.ExposureCapCannotDecrease g.exposureCap newCap)
  .ok { g with exposureCap := newCap }

def retireForever (g : Guard) : Except Err Guard := do
  revertIf (g.retired = true) .AlreadyConfigured
  .ok { g with retired := true }

/-- The total is the sum of the reports. -/
def Balanced (g : Guard) : Prop := g.totalReportedExposure = ∑ m, g.reportedExposure m

/-- The part of a purchase that the guard records keeps the total. -/
theorem reserve_balanced {g g' : Guard} {sender : Address} {amount : Nat} (hg : g.Balanced)
    (h : g.reserve sender amount = .ok g') : g'.Balanced := by
  simp only [reserve, bind_eq_ok, revertIf_eq_ok] at h
  obtain ⟨_, _, h⟩ := h
  split at h
  · cases h; exact hg
  · simp only [bind_eq_ok, revertIf_eq_ok, Except.ok.injEq] at h
    obtain ⟨_, _, rfl⟩ := h
    have := Balances.sum_update g.reportedExposure (Finset.mem_univ sender) (g.reportedExposure sender + amount)
    unfold Balanced at *
    simp only
    omega

theorem reserve_registered {g g' : Guard} {sender : Address} {amount : Nat} (h : g.reserve sender amount = .ok g') :
    g'.registeredMarket = g.registeredMarket := by
  simp only [reserve, bind_eq_ok, revertIf_eq_ok] at h
  obtain ⟨_, _, h⟩ := h
  split at h
  · cases h; rfl
  · simp only [bind_eq_ok, revertIf_eq_ok, Except.ok.injEq] at h
    obtain ⟨_, _, rfl⟩ := h
    rfl

theorem sync_registered {g g' : Guard} {market : Address} {current previous now : Nat}
    (h : g.sync market current = .ok (g', previous, now)) : g'.registeredMarket = g.registeredMarket := by
  simp only [sync, bind_eq_ok, revertIf_eq_ok] at h
  obtain ⟨_, _, h⟩ := h
  split at h
  · cases h; rfl
  · simp only [bind_eq_ok, checkedSub_eq_ok, Except.ok.injEq, Prod.mk.injEq] at h
    obtain ⟨_, _, rfl, _⟩ := h
    rfl

/-- The report of a registered market is part of the total, so a report can always be replaced. -/
theorem sync_succeeds {g : Guard} (hg : g.Balanced) {market : Address} (hr : g.registeredMarket market = true)
    (current : Nat) : ∃ g' previous now, g.sync market current = .ok (g', previous, now) := by
  have hle : g.reportedExposure market ≤ g.totalReportedExposure := by
    rw [hg]; exact Balances.le_sum g.reportedExposure (Finset.mem_univ market)
  unfold sync
  rw [revertIf_neg _ (by simp [hr]), ok_bind]
  split
  · exact ⟨_, _, _, rfl⟩
  · simp only [checkedSub_of_le _ hle, ok_bind]
    exact ⟨_, _, _, rfl⟩

theorem sync_balanced {g g' : Guard} {market : Address} {current previous now : Nat} (hg : g.Balanced)
    (h : g.sync market current = .ok (g', previous, now)) : g'.Balanced := by
  simp only [sync, bind_eq_ok, revertIf_eq_ok] at h
  obtain ⟨_, _, h⟩ := h
  split at h
  · cases h; exact hg
  · simp only [bind_eq_ok, checkedSub_eq_ok, Except.ok.injEq, Prod.mk.injEq] at h
    obtain ⟨_, ⟨_, rfl⟩, rfl, _⟩ := h
    have := Balances.sum_update g.reportedExposure (Finset.mem_univ market) current
    unfold Balanced at *
    simp only
    omega

end Guard

end Cpredict
