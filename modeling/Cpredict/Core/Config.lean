import Cpredict.Lib.Outcome
import Cpredict.Types

/-!
# ProtocolConfigV1

The defaults and limits that governance sets for new markets, within the hard bounds of the contract: `Bounded` holds
after construction and after every setter, and bounds every economic snapshot (`snapshot_bounds`).
-/

namespace Cpredict

open Outcome

def HARD_MAX_CREATOR_RAKE_BPS : Nat := 1000

def HARD_MAX_PROTOCOL_SHARE_BPS : Nat := 5000

def HARD_MAX_EARLY_BIRD_SHARE_BPS : Nat := 5000

def HARD_MAX_C2C_FEE_BPS : Nat := 200

def HARD_MAX_FULL_MARKET_CAP : Nat := 5000000000

def HARD_MAX_CLONE_MARKET_CAP : Nat := 500000000

def HARD_MAX_PER_USER_PRIMARY_CAP : Nat := 100000000

def HARD_MAX_CREATION_FEE : Nat := 100000000

structure Config where
  protocolTreasury : Address
  creationFee : Nat
  protocolShareBps : Nat
  earlyBirdShareBps : Nat
  platformC2CFeeBps : Nat
  maxFullMarketCap : Nat
  maxCloneMarketCap : Nat
  maxPerUserPrimaryCap : Nat
  maxCreatorRakeBps : Nat
  maxCreatorC2CFeeBps : Nat
deriving DecidableEq

namespace Config

/-- The constructor. -/
def deployed (treasury : Address) : Config where
  protocolTreasury := treasury
  creationFee := 0
  protocolShareBps := 2000
  earlyBirdShareBps := 2000
  platformC2CFeeBps := 0
  maxFullMarketCap := HARD_MAX_FULL_MARKET_CAP
  maxCloneMarketCap := HARD_MAX_CLONE_MARKET_CAP
  maxPerUserPrimaryCap := HARD_MAX_PER_USER_PRIMARY_CAP
  maxCreatorRakeBps := HARD_MAX_CREATOR_RAKE_BPS
  maxCreatorC2CFeeBps := HARD_MAX_C2C_FEE_BPS

/-- `if (value > maximum) revert ValueOutOfRange(field, value, 0, maximum)` -/
def atMost (field : String) (value maximum : Nat) : Except Err Unit :=
  revertIf (maximum < value) (.ValueOutOfRange field value 0 maximum)

/-- The setters, each with its new values. -/
inductive Update
  | setProtocolTreasury (newTreasury : Address)
  | setCreationFee (newFee : Nat)
  /-- `setProtocolShareBps` and `setPlatformRakeShareBps`, which differ in the event they emit only. -/
  | setProtocolShareBps (newBps : Nat)
  | setEarlyBirdShareBps (newBps : Nat)
  | setPlatformC2CFeeBps (newBps : Nat)
  | setMarketCapLimits (fullCap cloneCap : Nat)
  | setMaxPerUserPrimaryCap (newCap : Nat)
  | setCreatorFeeLimits (rakeBps c2cFeeBps : Nat)
deriving DecidableEq

/-- The setters, called by governance. -/
def update (c : Config) : Update → Except Err Config
  | .setProtocolTreasury newTreasury => do
    revertIf (newTreasury = 0) .ZeroAddress
    .ok { c with protocolTreasury := newTreasury }
  | .setCreationFee newFee => do
    atMost "creationFee" newFee HARD_MAX_CREATION_FEE
    .ok { c with creationFee := newFee }
  | .setProtocolShareBps newBps => do
    atMost "protocolShareBps" newBps HARD_MAX_PROTOCOL_SHARE_BPS
    .ok { c with protocolShareBps := newBps }
  | .setEarlyBirdShareBps newBps => do
    atMost "earlyBirdShareBps" newBps HARD_MAX_EARLY_BIRD_SHARE_BPS
    .ok { c with earlyBirdShareBps := newBps }
  | .setPlatformC2CFeeBps newBps => do
    atMost "platformC2CFeeBps" newBps HARD_MAX_C2C_FEE_BPS
    .ok { c with platformC2CFeeBps := newBps }
  | .setMarketCapLimits fullCap cloneCap => do
    atMost "maxFullMarketCap" fullCap HARD_MAX_FULL_MARKET_CAP
    atMost "maxCloneMarketCap" cloneCap HARD_MAX_CLONE_MARKET_CAP
    .ok { c with maxFullMarketCap := fullCap, maxCloneMarketCap := cloneCap }
  | .setMaxPerUserPrimaryCap newCap => do
    atMost "maxPerUserPrimaryCap" newCap HARD_MAX_PER_USER_PRIMARY_CAP
    .ok { c with maxPerUserPrimaryCap := newCap }
  | .setCreatorFeeLimits rakeBps c2cFeeBps => do
    atMost "maxCreatorRakeBps" rakeBps HARD_MAX_CREATOR_RAKE_BPS
    atMost "maxCreatorC2CFeeBps" c2cFeeBps HARD_MAX_C2C_FEE_BPS
    .ok { c with maxCreatorRakeBps := rakeBps, maxCreatorC2CFeeBps := c2cFeeBps }

def snapshot (c : Config) (creatorRakeBps creatorC2CFeeBps : Nat) : Except Err EconomicSnapshot := do
  atMost "creatorRakeBps" creatorRakeBps c.maxCreatorRakeBps
  atMost "creatorC2CFeeBps" creatorC2CFeeBps c.maxCreatorC2CFeeBps
  .ok { creatorRakeBps := creatorRakeBps, protocolShareBps := c.protocolShareBps,
        earlyBirdShareBps := c.earlyBirdShareBps, platformC2CFeeBps := c.platformC2CFeeBps,
        creatorC2CFeeBps := creatorC2CFeeBps, protocolTreasury := c.protocolTreasury }

/-! ## The hard bounds -/

/-- Every value is within the contract's hard bounds. -/
structure Bounded (c : Config) : Prop where
  treasury : c.protocolTreasury ≠ 0
  creationFee : c.creationFee ≤ HARD_MAX_CREATION_FEE
  protocolShare : c.protocolShareBps ≤ HARD_MAX_PROTOCOL_SHARE_BPS
  earlyBirdShare : c.earlyBirdShareBps ≤ HARD_MAX_EARLY_BIRD_SHARE_BPS
  platformC2CFee : c.platformC2CFeeBps ≤ HARD_MAX_C2C_FEE_BPS
  fullCap : c.maxFullMarketCap ≤ HARD_MAX_FULL_MARKET_CAP
  cloneCap : c.maxCloneMarketCap ≤ HARD_MAX_CLONE_MARKET_CAP
  perUserCap : c.maxPerUserPrimaryCap ≤ HARD_MAX_PER_USER_PRIMARY_CAP
  creatorRake : c.maxCreatorRakeBps ≤ HARD_MAX_CREATOR_RAKE_BPS
  creatorC2CFee : c.maxCreatorC2CFeeBps ≤ HARD_MAX_C2C_FEE_BPS

@[simp] theorem atMost_eq_ok {field : String} {value maximum : Nat} {u : Unit} :
    atMost field value maximum = .ok u ↔ value ≤ maximum := by simp [atMost]

theorem deployed_bounded {treasury : Address} (h : treasury ≠ 0) : Bounded (deployed treasury) where
  treasury := h
  creationFee := Nat.zero_le _
  protocolShare := show 2000 ≤ 5000 by decide
  earlyBirdShare := show 2000 ≤ 5000 by decide
  platformC2CFee := Nat.zero_le _
  fullCap := le_rfl
  cloneCap := le_rfl
  perUserCap := le_rfl
  creatorRake := le_rfl
  creatorC2CFee := le_rfl

/-- Every setter keeps the bounds. -/
theorem update_bounded {c c' : Config} {u : Update} (hc : Bounded c) (h : c.update u = .ok c') : Bounded c' := by
  cases u <;> simp only [update, bind_eq_ok, atMost_eq_ok, revertIf_eq_ok, Except.ok.injEq] at h
  case setProtocolTreasury => obtain ⟨_, h₁, rfl⟩ := h; exact { hc with treasury := h₁ }
  case setCreationFee => obtain ⟨_, h₁, rfl⟩ := h; exact { hc with creationFee := h₁ }
  case setProtocolShareBps => obtain ⟨_, h₁, rfl⟩ := h; exact { hc with protocolShare := h₁ }
  case setEarlyBirdShareBps => obtain ⟨_, h₁, rfl⟩ := h; exact { hc with earlyBirdShare := h₁ }
  case setPlatformC2CFeeBps => obtain ⟨_, h₁, rfl⟩ := h; exact { hc with platformC2CFee := h₁ }
  case setMarketCapLimits => obtain ⟨_, h₁, _, h₂, rfl⟩ := h; exact { hc with fullCap := h₁, cloneCap := h₂ }
  case setMaxPerUserPrimaryCap => obtain ⟨_, h₁, rfl⟩ := h; exact { hc with perUserCap := h₁ }
  case setCreatorFeeLimits => obtain ⟨_, h₁, _, h₂, rfl⟩ := h; exact { hc with creatorRake := h₁, creatorC2CFee := h₂ }

end Config

/-- The bounds that every economic snapshot keeps. -/
structure EconomicSnapshot.Bounded (e : EconomicSnapshot) : Prop where
  creatorRake : e.creatorRakeBps ≤ HARD_MAX_CREATOR_RAKE_BPS
  protocolShare : e.protocolShareBps ≤ HARD_MAX_PROTOCOL_SHARE_BPS
  earlyBirdShare : e.earlyBirdShareBps ≤ HARD_MAX_EARLY_BIRD_SHARE_BPS
  platformC2CFee : e.platformC2CFeeBps ≤ HARD_MAX_C2C_FEE_BPS
  creatorC2CFee : e.creatorC2CFeeBps ≤ HARD_MAX_C2C_FEE_BPS
  treasury : e.protocolTreasury ≠ 0

theorem Config.snapshot_bounds {c : Config} {rake fee : Nat} {e : EconomicSnapshot} (hc : c.Bounded)
    (h : c.snapshot rake fee = .ok e) : e.Bounded := by
  simp only [snapshot, bind_eq_ok, atMost_eq_ok, Except.ok.injEq] at h
  obtain ⟨_, h₁, _, h₂, rfl⟩ := h
  exact ⟨h₁.trans hc.creatorRake, hc.protocolShare, hc.earlyBirdShare, hc.platformC2CFee, h₂.trans hc.creatorC2CFee,
    hc.treasury⟩

end Cpredict
