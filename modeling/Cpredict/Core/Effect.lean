import Cpredict.Core.Calls
import Cpredict.Vault.History

/-!
# What one call does to the core

`Trace` says what a call adds to the log (the milestones of vaults, the payments) and how balances follow. `Wired` is
what holds between the contracts in every reachable state, besides the accounts of vaults and bonds. `Effect` is the
inversion of the calls: a call leaves vaults and bonds alone, is a step of one vault, settles, pays out or locks a bond
(`exec_effect`).
-/

namespace Cpredict

open Outcome Balances Tally

/-! ## The log -/

/-- The events that change what a vault owes, or to whom. -/
def VaultEvent.isMilestone : VaultEvent → Bool
  | .PrimaryPurchased .. => true
  | .MarketResolved .. => true
  | .MarketVoided .. => true
  | .WinnerClaimed .. => true
  | .EarlyBirdClaimed .. => true
  | .PrincipalRefunded .. => true
  | .TimeoutBonusFunded .. => true
  | .TimeoutBonusClaimed .. => true
  | _ => false

namespace Event

def milestone : Event → Option (Address × VaultEvent)
  | .vault market e => if e.isMilestone = true then some (market, e) else none
  | _ => none

def payment : Event → Option Payment
  | .Transfer source target amount => some ⟨source, target, amount⟩
  | _ => none

end Event

/-- A milestone of `market` with its time. -/
def LogEntry.milestone (market : Address) (x : LogEntry) : Option (Nat × VaultEvent) :=
  x.event.milestone.bind fun y => if y.1 = market then some (x.time, y.2) else none

/-- The milestones of a market. -/
def milestones (market : Address) (log : Log) : List (Nat × VaultEvent) := log.filterMap (LogEntry.milestone market)

/-- The movements of the payment token. -/
def payments (log : Log) : List Payment := log.filterMap fun x => x.event.payment

/-- What `a` has paid out. -/
def paidBy (a : Address) (log : Log) : Nat := tally (Payment.sent a) (payments log)

/-- What `a` has been paid. -/
def paidTo (a : Address) (log : Log) : Nat := tally (Payment.received a) (payments log)

namespace Core

/-- The milestones and payments that a call adds to the log, and the balances after them. -/
structure Trace (w w' : Core) (ms : List (Address × VaultEvent)) (ps : List Payment) : Prop where
  now : w'.now = w.now
  log : ∃ es : List Event, w'.log = w.log ++ es.map (LogEntry.mk w.now) ∧ es.filterMap Event.milestone = ms ∧
    es.filterMap Event.payment = ps
  cash : ∀ a, w.token.balanceOf a + tally (Payment.received a) ps ≤ w'.token.balanceOf a + tally (Payment.sent a) ps

namespace Trace

variable {w w₁ w' : Core} {ms ms' : List (Address × VaultEvent)} {ps ps' : List Payment}

theorem trans (h : Trace w w₁ ms ps) (h' : Trace w₁ w' ms' ps') : Trace w w' (ms ++ ms') (ps ++ ps') := by
  obtain ⟨es, hl, hm, hp⟩ := h.log
  obtain ⟨es', hl', hm', hp'⟩ := h'.log
  refine ⟨h'.now.trans h.now, ⟨es ++ es', ?_, ?_, ?_⟩, fun a => ?_⟩
  · rw [hl', hl, h.now, List.map_append, List.append_assoc]
  · rw [List.filterMap_append, hm, hm']
  · rw [List.filterMap_append, hp, hp']
  · have := h.cash a
    have := h'.cash a
    simp only [tally_append]
    omega

/-- A change that neither logs nor pays. -/
theorem of_same (hn : w'.now = w.now) (hl : w'.log = w.log) (ht : w'.token.balanceOf = w.token.balanceOf) :
    Trace w w' [] [] := ⟨hn, ⟨[], by simpa using hl, rfl, rfl⟩, fun a => by rw [ht]; exact le_rfl⟩

theorem milestones (h : Trace w w' ms ps) (market : Address) :
    milestones market w'.log = Cpredict.milestones market w.log ++
      ms.filterMap fun x => if x.1 = market then some (w.now, x.2) else none := by
  obtain ⟨es, hl, rfl, _⟩ := h.log
  simp only [Cpredict.milestones, hl, List.filterMap_append, List.filterMap_map, List.filterMap_filterMap]
  rfl

theorem payments (h : Trace w w' ms ps) : payments w'.log = Cpredict.payments w.log ++ ps := by
  obtain ⟨es, hl, _, rfl⟩ := h.log
  simp only [Cpredict.payments, hl, List.filterMap_append, List.filterMap_map]
  rfl

theorem paidBy (h : Trace w w' ms ps) (a : Address) : paidBy a w'.log = Cpredict.paidBy a w.log + tally
    (Payment.sent a) ps := by
  rw [Cpredict.paidBy, h.payments, tally_append]
  rfl

theorem paidTo (h : Trace w w' ms ps) (a : Address) :
    paidTo a w'.log = Cpredict.paidTo a w.log + tally (Payment.received a) ps := by
  rw [Cpredict.paidTo, h.payments, tally_append]
  rfl

end Trace

/-! ## The shared operations -/

/-- An event that is neither a milestone nor a payment. -/
def Quiet (e : Event) : Prop := e.milestone = none ∧ e.payment = none

section

variable {D : Deployment} {w w' : Core} {market source target spender : Address} {amount : Nat}

theorem trace_events {es : List Event} (h : es.filterMap Event.payment = []) :
    Trace w (w.emitAll es) (es.filterMap Event.milestone) [] :=
  ⟨rfl, ⟨es, rfl, rfl, h⟩, fun _ => le_rfl⟩

theorem trace_emitAll {es : List Event} (h : ∀ e ∈ es, Quiet e) : Trace w (w.emitAll es) [] [] := by
  have hm : es.filterMap Event.milestone = [] := List.filterMap_eq_nil_iff.mpr fun e he => (h e he).1
  have htrace := trace_events (w := w) (List.filterMap_eq_nil_iff.mpr fun e he => (h e he).2)
  rwa [hm] at htrace

theorem trace_emit {e : Event} (h : Quiet e) : Trace w (w.emit e) [] [] :=
  show Trace w (w.emitAll [e]) [] [] from trace_emitAll fun _ he => by rw [List.mem_singleton.mp he]; exact h

theorem trace_milestone {e : VaultEvent} (h : e.isMilestone = true) :
    Trace w (w.emit (.vault market e)) [(market, e)] [] :=
  ⟨rfl, ⟨[.vault market e], rfl, by simp [Event.milestone, h], rfl⟩, fun _ => le_rfl⟩

/-- A vault's new storage is neither logged nor paid for by itself. -/
theorem trace_setVault (v : Vault) : Trace w (w.setVault market v) [] [] := .of_same rfl rfl rfl

theorem move_cash (f : Address → Nat) (target : Address) (h : amount ≤ f source) (a : Address) :
    f a + Payment.received a ⟨source, target, amount⟩ ≤
      move f source target amount a + Payment.sent a ⟨source, target, amount⟩ := by
  by_cases hst : source = target
  · subst hst
    rw [move_self f h]
    unfold Payment.sent Payment.received
    simp only
    omega
  · by_cases hs : a = source
    · subst hs
      rw [move_from f amount hst]
      simp [Payment.sent, Payment.received, Ne.symm hst]
      omega
    · by_cases ht : a = target
      · subst ht
        rw [move_to f amount hst]
        simp [Payment.sent, Payment.received]
      · rw [move_of_ne f amount hs ht]
        simp [Payment.sent, Payment.received, Ne.symm hs, Ne.symm ht]

/-- What a payment changes: the token and the log. -/
theorem pay_eq_ok (h : w.pay source target amount = .ok w') :
    amount ≤ w.token.balanceOf source ∧
      w' = { w with
             token := { w.token with balanceOf := move w.token.balanceOf source target amount }
             log := w.log ++ [⟨w.now, .Transfer source target amount⟩] } := by
  simp only [pay, bind_eq_ok, Token.transfer_eq_ok, Except.ok.injEq] at h
  obtain ⟨_, ⟨_, hle, rfl⟩, rfl⟩ := h
  exact ⟨hle, rfl⟩

theorem pay_error {e : Err} (h : w.pay source target amount = .error e) : e = .ERC20Refused := by
  rcases bind_eq_error.mp h with ht | ⟨_, _, hx⟩
  · exact Token.transfer_error ht
  · cases hx

theorem trace_pay (h : w.pay source target amount = .ok w') : Trace w w' [] [⟨source, target, amount⟩] := by
  obtain ⟨hle, rfl⟩ := pay_eq_ok h
  refine ⟨rfl, ⟨[.Transfer source target amount], rfl, rfl, rfl⟩, fun a => ?_⟩
  simpa using move_cash w.token.balanceOf target hle a

theorem payFrom_eq_ok (h : w.payFrom spender source target amount = .ok w') :
    ∃ t, w.token.transferFrom spender source target amount = .ok t ∧
      w' = { w with token := t, log := w.log ++ [⟨w.now, .Transfer source target amount⟩] } := by
  simp only [payFrom, bind_eq_ok, Except.ok.injEq] at h
  obtain ⟨t, ht, rfl⟩ := h
  exact ⟨t, ht, rfl⟩

theorem payFrom_error {e : Err} (h : w.payFrom spender source target amount = .error e) : e = .ERC20Refused := by
  rcases bind_eq_error.mp h with ht | ⟨_, _, hx⟩
  · exact Token.transferFrom_error ht
  · cases hx

theorem trace_payFrom (h : w.payFrom spender source target amount = .ok w') :
    Trace w w' [] [⟨source, target, amount⟩] := by
  obtain ⟨t, ht, rfl⟩ := payFrom_eq_ok h
  obtain ⟨_, hle, hb, _⟩ := Token.transferFrom_eq_ok ht
  refine ⟨rfl, ⟨[.Transfer source target amount], rfl, rfl, rfl⟩, fun a => ?_⟩
  simpa [hb] using move_cash w.token.balanceOf target hle a

/-- A pull is a payment on an allowance after which the target has the amount more. -/
theorem pullExact_eq_ok (h : w.pullExact spender source target amount = .ok w') :
    w.payFrom spender source target amount = .ok w' ∧
      w'.token.balanceOf target = w.token.balanceOf target + amount := by
  simp only [pullExact, bind_eq_ok, checkedSub_eq_ok, revertIf_eq_ok, Except.ok.injEq, Decidable.not_not, ne_eq] at h
  obtain ⟨u, hu, _, ⟨hle, rfl⟩, _, he, rfl⟩ := h
  exact ⟨hu, by omega⟩

/-- The vaults, the factory, the bonds and the time are the same before and after. -/
structure Kept (w w' : Core) : Prop where
  now : w'.now = w.now
  vaults : w'.vaults = w.vaults
  factory : w'.factory = w.factory
  escrow : w'.escrow = w.escrow

theorem Kept.trans {w₁ : Core} (h : Kept w w₁) (h' : Kept w₁ w') : Kept w w' :=
  ⟨h'.now.trans h.now, h'.vaults.trans h.vaults, h'.factory.trans h.factory, h'.escrow.trans h.escrow⟩

theorem kept_pay (h : w.pay source target amount = .ok w') : Kept w w' := by
  obtain ⟨_, rfl⟩ := pay_eq_ok h
  exact ⟨rfl, rfl, rfl, rfl⟩

theorem kept_payFrom (h : w.payFrom spender source target amount = .ok w') : Kept w w' := by
  obtain ⟨_, _, rfl⟩ := payFrom_eq_ok h
  exact ⟨rfl, rfl, rfl, rfl⟩

theorem kept_pullExact (h : w.pullExact spender source target amount = .ok w') : Kept w w' :=
  kept_payFrom (pullExact_eq_ok h).1

theorem trace_pullExact (h : w.pullExact spender source target amount = .ok w') :
    Trace w w' [] [⟨source, target, amount⟩] := trace_payFrom (pullExact_eq_ok h).1

/-- The source of a pull is not its target, but for an amount of zero. -/
theorem pullExact_ne (h : w.pullExact spender source target amount = .ok w') (hz : amount ≠ 0) : source ≠ target := by
  obtain ⟨hp, hb⟩ := pullExact_eq_ok h
  obtain ⟨t, ht, rfl⟩ := payFrom_eq_ok hp
  obtain ⟨_, hle, hm, _⟩ := Token.transferFrom_eq_ok ht
  rintro rfl
  simp only [hm, move_self _ hle] at hb
  omega

theorem accrue_eq_ok {sender beneficiary : Address} {kind : FeeKind} {ref : FeeReference}
    (h : w.accrue D sender beneficiary amount kind ref = .ok w') :
    ∃ f es, w.feeVault.accrue sender (w.token.balanceOf D.feeVault) beneficiary amount = .ok f ∧ (∀ e ∈ es, Quiet e) ∧
      w' = { w with feeVault := f }.emitAll es := by
  simp only [accrue, bind_eq_ok, Except.ok.injEq] at h
  obtain ⟨f, hf, rfl⟩ := h
  by_cases hz : amount = 0
  · refine ⟨f, [], hf, by simp, ?_⟩
    simp [hz, emitAll]
  · refine ⟨f, [.FeeAccrued beneficiary sender kind ref amount], hf, ?_, ?_⟩
    · intro e he; rw [List.mem_singleton.mp he]; exact ⟨rfl, rfl⟩
    · simp [hz, emitAll, emit]

theorem kept_accrue {sender beneficiary : Address} {kind : FeeKind} {ref : FeeReference}
    (h : w.accrue D sender beneficiary amount kind ref = .ok w') : Kept w w' ∧ Trace w w' [] [] := by
  obtain ⟨f, es, _, hq, rfl⟩ := accrue_eq_ok h
  have hset : Trace w { w with feeVault := f } [] [] := .of_same rfl rfl rfl
  exact ⟨⟨rfl, rfl, rfl, rfl⟩, hset.trans (trace_emitAll hq)⟩

theorem sync_eq_ok {previous current : Nat} (h : w.sync market = .ok (w', previous, current)) :
    ∃ g es, w.guard.sync market (w.vaults market).guardExposure = .ok (g, previous, current) ∧ (∀ e ∈ es, Quiet e) ∧
      w' = { w with guard := g }.emitAll es := by
  simp only [sync, bind_eq_ok, Except.ok.injEq, Prod.mk.injEq, Prod.exists] at h
  obtain ⟨g, p, c, hg, rfl, rfl, rfl⟩ := h
  by_cases hr : g.retired = true
  · refine ⟨g, [], hg, by simp, ?_⟩
    simp [hr, emitAll]
  · refine ⟨g, [.ExposureSynced market p c g.totalReportedExposure], hg, ?_, ?_⟩
    · intro e he; rw [List.mem_singleton.mp he]; exact ⟨rfl, rfl⟩
    · simp [hr, emitAll, emit]

theorem kept_sync {previous current : Nat} (h : w.sync market = .ok (w', previous, current)) :
    Kept w w' ∧ Trace w w' [] [] := by
  obtain ⟨g, es, _, hq, rfl⟩ := sync_eq_ok h
  have hset : Trace w { w with guard := g } [] [] := .of_same rfl rfl rfl
  exact ⟨⟨rfl, rfl, rfl, rfl⟩, hset.trans (trace_emitAll hq)⟩

theorem requireMarket_eq_ok {u : Unit} : w.requireMarket market = .ok u ↔ w.factory.isMarket market = true := by
  simp only [requireMarket, revertIf_eq_ok, Bool.not_eq_false]

theorem deliver_eq_ok {accepts : Bool} {u : Unit} :
    deliver D target accepts = .ok u ↔ D.outside target = true ∧ accepts = true := by
  simp only [deliver, revertIf_eq_ok, Bool.not_eq_false, Bool.and_eq_true]

end

/-! ## How the contracts are wired -/

/-- What holds between the contracts in every reachable state, besides the accounts of vaults and bonds. -/
structure Wired (D : Deployment) (w : Core) : Prop where
  config : w.config.Bounded
  insulated : ∀ a, D.outside a = false → ∀ s, w.token.allowance a s = 0
  market : ∀ m, w.factory.isMarket m = true → D.outside m = false ∧ D.fixed m = false
  balanced : w.guard.Balanced
  registered : ∀ m, w.factory.isMarket m = true → w.guard.registeredMarket m = true
  onlyMarkets : ∀ m, w.guard.registeredMarket m = true → w.factory.isMarket m = true
  accruers : ∀ m, w.factory.isMarket m = true → w.feeVault.authorizedAccruer m = true
  factoryAccrues : w.feeVault.authorizedAccruer D.factory = true
  marketplaceAccrues : w.feeVault.authorizedAccruer D.marketplace = true
  feeCredits : w.feeVault.credits.totalCredits ≤ w.token.balanceOf D.feeVault

namespace Wired

variable {D : Deployment} {w w' : Core} {market source target spender : Address} {amount : Nat}

/-- No market is one of the other contracts. -/
theorem market_ne (hw : Wired D w) (h : w.factory.isMarket market = true) :
    market ≠ D.feeVault ∧ market ≠ D.bondEscrow ∧ market ≠ D.marketplace ∧ market ≠ 0 := by
  obtain ⟨ho, hf⟩ := hw.market market h
  simp only [Deployment.fixed, Bool.or_eq_false_iff, decide_eq_false_iff_not] at hf
  refine ⟨hf.1.1.2, hf.1.1.1.2, ?_, hf.2⟩
  · rintro rfl
    rw [D.marketplace_outside] at ho
    cases ho

theorem of_same (hw : Wired D w) (hc : w'.config = w.config) (hf : w'.factory = w.factory) (hg : w'.guard = w.guard)
    (hv : w'.feeVault = w.feeVault) (ha : w'.token.allowance = w.token.allowance)
    (hb : w.token.balanceOf D.feeVault ≤ w'.token.balanceOf D.feeVault) : Wired D w' where
  config := hc ▸ hw.config
  insulated := by rw [ha]; exact hw.insulated
  market := by rw [hf]; exact hw.market
  balanced := by rw [hg]; exact hw.balanced
  registered := by rw [hf, hg]; exact hw.registered
  onlyMarkets := by rw [hf, hg]; exact hw.onlyMarkets
  accruers := by rw [hf, hv]; exact hw.accruers
  factoryAccrues := by rw [hv]; exact hw.factoryAccrues
  marketplaceAccrues := by rw [hv]; exact hw.marketplaceAccrues
  feeCredits := by rw [hv]; exact hw.feeCredits.trans hb

theorem emit (hw : Wired D w) (e : Event) : Wired D (w.emit e) := hw.of_same rfl rfl rfl rfl rfl le_rfl

theorem emitAll (hw : Wired D w) (es : List Event) : Wired D (w.emitAll es) := hw.of_same rfl rfl rfl rfl rfl le_rfl

theorem setVault (hw : Wired D w) (v : Vault) : Wired D (w.setVault market v) := hw.of_same rfl rfl rfl rfl rfl le_rfl

theorem setEscrow (hw : Wired D w) (e : Escrow) : Wired D { w with escrow := e } :=
  hw.of_same rfl rfl rfl rfl rfl le_rfl

theorem pay (hw : Wired D w) (hs : source ≠ D.feeVault) (h : w.pay source target amount = .ok w') : Wired D w' := by
  obtain ⟨_, rfl⟩ := pay_eq_ok h
  exact hw.of_same rfl rfl rfl rfl rfl (le_move w.token.balanceOf amount hs.symm)

/-- Nothing leaves a contract of the protocol on an allowance. -/
theorem allowance_zero (hw : Wired D w) (ho : D.outside source = false)
    (h : w.payFrom spender source target amount = .ok w') : amount = 0 := by
  obtain ⟨t, ht, rfl⟩ := payFrom_eq_ok h
  obtain ⟨hle, _⟩ := Token.transferFrom_eq_ok ht
  rw [hw.insulated _ ho] at hle
  omega

theorem payFrom (hw : Wired D w) (h : w.payFrom spender source target amount = .ok w') : Wired D w' := by
  have hzero := fun ho => hw.allowance_zero ho h
  obtain ⟨t, ht, rfl⟩ := payFrom_eq_ok h
  obtain ⟨_, hle, hb, _⟩ := Token.transferFrom_eq_ok ht
  refine { hw with insulated := fun a ha s => ?_, feeCredits := hw.feeCredits.trans ?_ }
  · have := Token.transferFrom_allowance_le ht a s
    rw [hw.insulated a ha] at this
    exact Nat.le_zero.mp this
  · show w.token.balanceOf D.feeVault ≤ t.balanceOf D.feeVault
    rw [hb]
    by_cases hs : D.feeVault = source
    · have hz := hzero (hs ▸ D.feeVault_inside)
      subst hz
      have := move_cash w.token.balanceOf target hle D.feeVault
      simp only [Payment.sent, Payment.received] at this
      simpa using this
    · exact le_move w.token.balanceOf amount hs

theorem pullExact (hw : Wired D w) (h : w.pullExact spender source target amount = .ok w') : Wired D w' :=
  hw.payFrom (pullExact_eq_ok h).1

theorem setGuard (hw : Wired D w) {g : Guard} (hb : g.Balanced) (hr : g.registeredMarket = w.guard.registeredMarket) :
    Wired D { w with guard := g } :=
  { hw with
    balanced := hb
    registered :=
      fun m hm => by rw [show ({ w with guard := g } : Core).guard = g from rfl, hr]; exact hw.registered m hm
    onlyMarkets := fun m hm => hw.onlyMarkets m (by rw [← hr]; exact hm) }

theorem accrue (hw : Wired D w) {sender beneficiary : Address} {kind : FeeKind} {ref : FeeReference}
    (h : w.accrue D sender beneficiary amount kind ref = .ok w') : Wired D w' := by
  obtain ⟨f, es, hf, _, rfl⟩ := accrue_eq_ok h
  refine Wired.emitAll ?_ es
  simp only [FeeVault.accrue, bind_eq_ok, revertIf_eq_ok] at hf
  obtain ⟨_, _, _, _, hf⟩ := hf
  split at hf
  · cases hf
    exact hw.of_same rfl rfl rfl rfl rfl le_rfl
  · simp only [bind_eq_ok, revertIf_eq_ok, not_lt, Except.ok.injEq] at hf
    obtain ⟨_, hle, rfl⟩ := hf
    exact { hw with feeCredits := hle }

theorem sync (hw : Wired D w) {previous current : Nat} (h : w.sync market = .ok (w', previous, current)) :
    Wired D w' := by
  obtain ⟨g, es, hg, _, rfl⟩ := sync_eq_ok h
  refine Wired.emitAll (hw.setGuard (Guard.sync_balanced hw.balanced hg) ?_) es
  exact Guard.sync_registered hg

end Wired

/-! ## Effects -/

/-- What a call does to vaults and bonds. -/
inductive Effect (D : Deployment) (w w' : Core) : Prop
  /-- No vault and no bond changes, and none of the contracts but the fee vault pays. -/
  | other (ps : List Payment) (vaults : w'.vaults = w.vaults) (factory : w'.factory.isMarket = w.factory.isMarket)
    (escrow : w'.escrow = w.escrow) (trace : Trace w w' [] ps)
    (unpaid : ∀ a, D.outside a = false → a ≠ 0 → a ≠ D.feeVault → tally (Payment.sent a) ps = 0)
  /-- One vault takes a step. -/
  | vault (market : Address) (v' : Vault) (e : Option VaultEvent) (p : Option Payment)
    (isMarket : w.factory.isMarket market = true) (step : VaultStep D market w.now (w.vaults market) v' e p)
    (vaults : w'.vaults = Function.update w.vaults market v') (factory : w'.factory = w.factory)
    (escrow : w'.escrow = w.escrow) (trace : Trace w w' (e.toList.map (market, ·)) p.toList)
    (unfunded : tally VaultEvent.bonusFunded e.toList = 0)
    (unpaid : ∀ a, D.outside a = false → a ≠ market → tally (Payment.sent a) p.toList = 0)
  /-- A bond is settled to its creator's credit. -/
  | credit (market : Address) (e : Escrow) (vaults : w'.vaults = w.vaults) (factory : w'.factory = w.factory)
    (bonded : (w.escrow.bondOf market).creator ≠ 0) (unsettled : (w.escrow.bondOf market).settled = false)
    (ended : (w.vaults market).marketState ≠ .open)
    (destination : ¬(timedOut (w.vaults market) = true ∧ (w.vaults market).totalPrincipal ≠ 0))
    (unlock : w.escrow.unlock market = .ok (e, w.escrow.bondOf market))
    (escrow : w'.escrow = e.credit (w.escrow.bondOf market).creator (w.escrow.bondOf market).amount)
    (trace : Trace w w' [] [])
  /-- A bond is settled to its market, as the timeout bonus. -/
  | fund (market : Address) (v' : Vault) (previous current : Nat) (isMarket : w.factory.isMarket market = true)
    (bonded : (w.escrow.bondOf market).creator ≠ 0) (unsettled : (w.escrow.bondOf market).settled = false)
    (step : VaultStep D market w.now (w.vaults market) v'
      (some (.TimeoutBonusFunded (w.escrow.bondOf market).amount v'.totalPrincipal previous current))
      (some ⟨D.bondEscrow, market, (w.escrow.bondOf market).amount⟩))
    (destination : timedOut (w.vaults market) = true ∧ (w.vaults market).totalPrincipal ≠ 0)
    (vaults : w'.vaults = Function.update w.vaults market v') (factory : w'.factory = w.factory)
    (unlock : w.escrow.unlock market = .ok (w'.escrow, w.escrow.bondOf market))
    (trace : Trace w w'
      [(market, .TimeoutBonusFunded (w.escrow.bondOf market).amount v'.totalPrincipal previous current)]
      [⟨D.bondEscrow, market, (w.escrow.bondOf market).amount⟩])
  /-- A creator's credit is paid out. -/
  | claim (creator : Address) (credits : Credits) (amount : Nat) (vaults : w'.vaults = w.vaults)
    (factory : w'.factory = w.factory) (claimed : w.escrow.credits.claim creator = .ok (credits, amount))
    (escrow : w'.escrow = { w.escrow with credits := credits })
    (trace : Trace w w' [] [⟨D.bondEscrow, creator, amount⟩])
  /-- A market is created and its bond locked. -/
  | create (creator market : Address) (p : CreateMarketParams) (economics : EconomicSnapshot) (v : Vault) (e : Escrow)
    (ps : List Payment) (new : w.factory.isMarket market = false) (outside : D.outside creator = true)
    (valid : economics.Bounded) (snapshot : ∃ c, validate D w p = .ok c)
    (initialized : Vault.blank.initializeVault D.factory (buildInit D w p creator economics) p.terms = .ok v)
    (vaults : w'.vaults = Function.update w.vaults market v)
    (factory : w'.factory.isMarket = Function.update w.factory.isMarket market true)
    (locked : ∃ balance, w.escrow.lockBond balance market creator p.creatorBond = .ok e) (escrow : w'.escrow = e)
    (covered : e.totalLocked + e.credits.totalCredits ≤ w'.token.balanceOf D.bondEscrow)
    (trace : Trace w w' [] ps)
    (unpaid : ∀ a, D.outside a = false → tally (Payment.sent a) ps = 0)

end Core

end Cpredict
