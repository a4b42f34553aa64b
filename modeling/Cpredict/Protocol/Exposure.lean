import Cpredict.Core.Brake
import Cpredict.Protocol.Books

/-!
# The exposure guard while receivers have control

A vault delivers the shares of a purchase when all that is left to do is to log it. The receiver has control then, and
may buy and report and settle in its turn (`Nested`). No call reads the log, so the states it can reach are those that
calls one after the other reach, but for the log (`Nested.Reachable.linear`). In all of them the guard has a report of
at least what each market owes (`launch_exposure`), and what pays users out does not depend on the guard at all.
-/

namespace Cpredict

open Outcome Balances Finset

namespace Core

/-! ## Another log, another guard -/

/-- The state with another guard if there is one, and `l` before its log. -/
def along (g : Option Guard) (l : Log) (w : Core) : Core := w.beside w.emergency g l

/-- The state without its log. -/
def unlogged (w : Core) : Core := { w with log := [] }

/-- The state with another guard. -/
def guarded (g : Guard) (w : Core) : Core := { w with guard := g }

section

variable {D : Deployment} {w v w' : Core} {caller market : Address} {c : CoreCall}

/-- A call does the same after another log and, if it leaves the guard alone, with another guard. -/
theorem exec_along {g : Option Guard} (l : Log) (w : Core) (hg : g = none ∨ c.leavesGuard = true) :
    exec D (w.along g l) caller c = along g l <$> exec D w caller c := by
  cases hc : c.leavesBrake with
  | false =>
    cases c with
    | setEmergency =>
      simp only [exec, map_bind]
      rfl
    | _ => cases hc
  | true =>
    have hb : exec D (w.along g l) caller c = beside w.emergency g l <$> exec D w caller c :=
      exec_beside w.emergency g l w D caller hc hg fun _ _ => rfl
    rw [hb]
    cases hx : exec D w caller c with
    | error e => rfl
    | ok w' => rw [map_ok, map_ok, ← exec_emergency hc hx, along]

/-- States that differ in their logs do the same. -/
theorem exec_unlogged (h : v.unlogged = w.unlogged) (hx : exec D w caller c = .ok w') :
    ∃ v', exec D v caller c = .ok v' ∧ v'.unlogged = w'.unlogged := by
  have hlog : ∀ u : Core, exec D u caller c = along none u.log <$> exec D u.unlogged caller c := fun u => by
    have hu : u = u.unlogged.along none u.log := by simp [unlogged, along, beside]
    rw [← exec_along _ _ (.inl rfl), ← hu]
  rw [hlog, ← h] at hx
  obtain ⟨u, hu, rfl⟩ := map_eq_ok.mp hx
  exact ⟨u.along none v.log, by rw [hlog, hu, map_ok], rfl⟩

/-- What leaves the guard alone does the same with another. -/
theorem exec_guarded (hg : c.leavesGuard = true) (g : Guard) (w : Core) :
    exec D (w.guarded g) caller c = guarded g <$> exec D w caller c :=
  exec_along (g := some g) [] w (.inr hg)

theorem exec_guard (hg : c.leavesGuard = true) (hx : exec D w caller c = .ok w') : w'.guard = w.guard := by
  have hw : exec D w caller c = guarded w.guard <$> exec D w caller c := exec_guarded hg w.guard w
  rw [hx, map_ok] at hw
  rw [Except.ok.inj hw, guarded]

/-! ## Reports -/

/-- Only a registered market has a report. -/
def Reported (w : Core) : Prop := ∀ m, w.guard.registeredMarket m = false → w.guard.reportedExposure m = 0

theorem Reported.of_guard (h : Reported w) (hg : w'.guard = w.guard) : Reported w' := by
  unfold Reported
  rw [hg]
  exact h

theorem Reported.sync {previous current : Nat} (h : Reported w) (hs : w.sync market = .ok (w', previous, current)) :
    Reported w' := by
  obtain ⟨g, es, hg, -, rfl⟩ := sync_eq_ok hs
  intro m hm
  simp only [Guard.sync, bind_eq_ok, revertIf_eq_ok, Bool.not_eq_false] at hg
  obtain ⟨_, hreg, hg⟩ := hg
  split at hg
  · cases hg
    exact h m hm
  · simp only [bind_eq_ok, Except.ok.injEq, Prod.mk.injEq] at hg
    obtain ⟨_, _, rfl, -⟩ := hg
    have hne : m ≠ market := by
      rintro rfl
      exact Bool.noConfusion (hm.symm.trans hreg)
    exact (Function.update_of_ne hne _ _).trans (h m hm)

theorem Reported.completeBuy {buyer : Address} {outcomeId desiredUnits filledUnits : Nat} {accepts : Bool}
    (h : Reported w) (hx : completeBuy D w caller market buyer outcomeId desiredUnits filledUnits accepts = .ok w') :
    Reported w' := by
  simp only [Core.completeBuy, bind_eq_ok, Except.ok.injEq] at hx
  obtain ⟨g, hg, v, _, _, _, rfl⟩ := hx
  intro m hm
  simp only [Guard.reserve, bind_eq_ok, revertIf_eq_ok, Bool.not_eq_false] at hg
  obtain ⟨_, hreg, hg⟩ := hg
  split at hg
  · cases hg
    exact h m hm
  · simp only [bind_eq_ok, Except.ok.injEq] at hg
    obtain ⟨_, _, rfl⟩ := hg
    have hne : m ≠ market := by
      rintro rfl
      exact Bool.noConfusion (hm.symm.trans hreg)
    exact (Function.update_of_ne hne _ _).trans (h m hm)

/-- What the payments of a call leave of the guard. -/
theorem guard_of_beside {f : Core → Except Err Core} (hf : ∀ e g l w, f (w.beside e g l) = beside e g l <$> f w)
    (h : f w = .ok w') : w'.guard = w.guard := by
  have hw : f w = beside w.emergency (some w.guard) [] <$> f w := hf w.emergency (some w.guard) [] w
  rw [h, map_ok] at hw
  rw [Except.ok.inj hw]
  rfl

theorem guard_pay {source target : Address} {amount : Nat} (h : w.pay source target amount = .ok w') :
    w'.guard = w.guard :=
  guard_of_beside (f := fun u => u.pay source target amount) (fun e g l u => pay_beside e g l u source target amount) h

theorem guard_pullExact {spender source target : Address} {amount : Nat}
    (h : w.pullExact spender source target amount = .ok w') : w'.guard = w.guard :=
  guard_of_beside (f := fun u => u.pullExact spender source target amount)
    (fun e g l u => pullExact_beside e g l u spender source target amount) h

theorem Reported.exec (h : Reported w) (hx : Core.exec D w caller c = .ok w') : Reported w' := by
  cases hg : c.leavesGuard with
  | true => exact h.of_guard (exec_guard hg hx)
  | false =>
    obtain ⟨_, _, hx⟩ := bind_eq_ok.mp hx
    cases c with
    | createMarket p fees market =>
      simp only [createMarket, bind_eq_ok, Except.ok.injEq] at hx
      obtain ⟨_, _, _, _, _, _, _, _, _, _, _, _, _, _, v, _, g, hreg, f, _, w₁, hfee, w₂, hlock, rfl⟩ := hx
      have h₁ := guard_of_beside (f := fun u => payCreationFee D u caller market)
        (fun e g l u => payCreationFee_beside e g l u D caller market) hfee
      have h₂ := guard_of_beside (f := fun u => lockBond D u caller market p.creatorBond)
        (fun e g l u => lockBond_beside e g l u D caller market p.creatorBond) hlock
      simp only [Guard.registerMarket, bind_eq_ok, Except.ok.injEq] at hreg
      obtain ⟨_, _, _, _, rfl⟩ := hreg
      refine Reported.of_guard (w := _) (fun m hm => ?_) (h₂.trans h₁)
      have hne : m ≠ market := by
        rintro rfl
        simp [registered, emitAll] at hm
      exact h m ((Function.update_of_ne hne _ _).symm.trans hm)
    | buy =>
      simp only [buy, bind_eq_ok] at hx
      obtain ⟨_, _, _, _, w₁, hpull, hx⟩ := hx
      exact (h.of_guard (guard_pullExact hpull)).completeBuy hx
    | buyWithPermit2 =>
      simp only [buyWithPermit2, bind_eq_ok] at hx
      obtain ⟨_, _, _, _, _, _, _, _, _, _, _, _, w₁, hpull, hx⟩ := hx
      exact (h.of_guard (guard_pullExact hpull)).completeBuy hx
    | settleBond market =>
      simp only [settleBond, bind_eq_ok, Prod.exists] at hx
      obtain ⟨_, _, _, _, _, _, e, b, _, hx⟩ := hx
      split at hx
      · simp only [fundTimeoutBonus, bind_eq_ok, Except.ok.injEq, Prod.exists] at hx
        obtain ⟨w₁, hp, _, ⟨_, _, v, _, w₂, _, _, hs, _, _, rfl⟩, rfl⟩ := hx
        have h₁ := guard_pay hp
        have hv : Reported (w₁.setVault market v) := h.of_guard h₁
        exact (hv.sync hs).of_guard rfl
      · cases hx
        exact h
    | sync =>
      simp only [bind_eq_ok, Except.ok.injEq, Prod.exists] at hx
      obtain ⟨w₁, _, _, hs, rfl⟩ := hx
      exact h.sync hs
    | raiseCap =>
      simp only [Guard.raiseCap, bind_eq_ok, Except.ok.injEq] at hx
      obtain ⟨_, _, g, ⟨_, _, rfl⟩, rfl⟩ := hx
      exact h
    | retireForever =>
      simp only [Guard.retireForever, bind_eq_ok, Except.ok.injEq] at hx
      obtain ⟨_, _, g, ⟨_, _, rfl⟩, rfl⟩ := hx
      exact h
    | _ => cases hg

theorem Reachable.reported (h : Reachable D w) : Reported w := by
  refine Reach.Reachable.invariant (I := Reported) (fun _ h₀ m _ => h₀.guard.2.2 m) (fun s t _ hs ht => ?_) h
  cases ht with
  | call _ caller c hx => exact hs.exec hx
  | tick seconds => exact hs

/-! ## Bonds -/

/-- The report of a bonus does not stop it. -/
theorem fundTimeoutBonus_guarded {amount : Nat} {g : Guard} (hb : g.Balanced)
    (hr : ∀ m, w.factory.isMarket m = true → g.registeredMarket m = true)
    (h : fundTimeoutBonus w caller market amount = .ok w') :
    ∃ w'', fundTimeoutBonus (w.guarded g) caller market amount = .ok w'' := by
  simp only [fundTimeoutBonus, bind_eq_ok, requireMarket_eq_ok, Except.ok.injEq, Prod.exists] at h
  obtain ⟨_, hm, v, hv, w₁, _, _, hs, u, hcover, rfl⟩ := h
  obtain ⟨_, _, -, -, rfl⟩ := sync_eq_ok hs
  obtain ⟨g', previous, current, hg⟩ := Guard.sync_succeeds hb (hr market hm)
    (((w.guarded g).setVault market v).vaults market).guardExposure
  obtain ⟨w₂, hs₂⟩ : ∃ w₂, ((w.guarded g).setVault market v).sync market = .ok (w₂, previous, current) := by
    unfold sync
    exact ⟨_, bind_eq_ok.mpr ⟨_, hg, rfl⟩⟩
  obtain ⟨_, _, -, -, rfl⟩ := sync_eq_ok hs₂
  exact ⟨_, bind_eq_ok.mpr ⟨(), requireMarket_eq_ok.mpr hm, bind_eq_ok.mpr ⟨v, hv, bind_eq_ok.mpr ⟨_, hs₂,
    bind_eq_ok.mpr ⟨u, hcover, rfl⟩⟩⟩⟩⟩

/-- A bond is settled under one guard if it is under another that keeps its books for the same markets. -/
theorem settleBond_guarded {g : Guard} (hb : g.Balanced)
    (hr : ∀ m, w.factory.isMarket m = true → g.registeredMarket m = true)
    (h : exec D w caller (.settleBond market) = .ok w') :
    ∃ w'', exec D (w.guarded g) caller (.settleBond market) = .ok w'' := by
  obtain ⟨_, ho, h⟩ := bind_eq_ok.mp h
  suffices hset : ∃ w'', settleBond D (w.guarded g) market = .ok w'' by
    obtain ⟨w'', hset⟩ := hset
    exact ⟨w'', bind_eq_ok.mpr ⟨_, ho, hset⟩⟩
  simp only [settleBond, bind_eq_ok, Prod.exists] at h ⊢
  obtain ⟨_, h₁, _, h₂, _, h₃, e, b, hunlock, h⟩ := h
  by_cases ht : timedOut (w.vaults market) = true ∧ (w.vaults market).totalPrincipal ≠ 0
  · rw [if_pos ht] at h
    obtain ⟨w₁, hp, h⟩ := bind_eq_ok.mp h
    obtain ⟨w₂, hf, -⟩ := bind_eq_ok.mp h
    have hr₁ : ∀ m, w₁.factory.isMarket m = true → g.registeredMarket m = true := fun m hm =>
      hr m (by rw [(kept_pay hp).factory] at hm; exact hm)
    obtain ⟨_, rfl⟩ := pay_eq_ok hp
    have hp' := pay_beside w.emergency (some g) [] { w with escrow := e } D.bondEscrow market b.amount
    rw [hp, map_ok] at hp'
    obtain ⟨w₃, hf'⟩ := fundTimeoutBonus_guarded hb hr₁ hf
    refine ⟨w₃.emit (.BondFundedToTimeoutMarket market b.amount), _, h₁, _, h₂, _, h₃, e, b, hunlock,
      (if_pos ht).trans ?_⟩
    exact bind_eq_ok.mpr ⟨_, hp', bind_eq_ok.mpr ⟨w₃, hf', rfl⟩⟩
  · rw [if_neg ht] at h
    exact ⟨_, _, h₁, _, h₂, _, h₃, e, b, hunlock, if_neg ht⟩

/-! ## Purchases -/

theorem emitAll_pair (u : Core) (a b : Event) : u.emitAll [a, b] = (u.emit a).emit b := by
  simp [emit, emitAll]

/-- The last that a purchase does is to log itself. -/
theorem purchase_logged (hp : c.isPurchase = true) (hx : exec D w caller c = .ok w') :
    ∃ (u : Core) (e : Event), w' = u.emit e := by
  have hlast : ∀ {u w' : Core} {market buyer : Address} {outcomeId desiredUnits filledUnits : Nat} {accepts : Bool},
      completeBuy D u caller market buyer outcomeId desiredUnits filledUnits accepts = .ok w' →
        ∃ (u : Core) (e : Event), w' = u.emit e := by
    intro u w' market buyer outcomeId desiredUnits filledUnits accepts h
    simp only [completeBuy, bind_eq_ok, Except.ok.injEq] at h
    obtain ⟨g, _, v, _, _, _, rfl⟩ := h
    exact ⟨_, _, emitAll_pair _ _ _⟩
  obtain ⟨_, _, hx⟩ := bind_eq_ok.mp hx
  cases c with
  | buy =>
    simp only [buy, bind_eq_ok] at hx
    obtain ⟨_, _, _, _, _, _, hx⟩ := hx
    exact hlast hx
  | buyWithPermit2 =>
    simp only [buyWithPermit2, bind_eq_ok] at hx
    obtain ⟨_, _, _, _, _, _, _, _, _, _, _, _, _, _, hx⟩ := hx
    exact hlast hx
  | _ => cases hp

end

end Core

/-! ## Receivers in control -/

/-- The core, and the purchases under way: each has still to log its event. -/
structure Nested where
  core : Core
  pending : List Event

namespace Nested

/-- A call, a purchase up to its delivery, the end of a purchase whose receiver accepts, or time passing between two
transactions. That the lock of a vault refuses most calls to it during its purchase is left out. -/
inductive Step (D : Deployment) : Nested → Nested → Prop
  | call (w w' : Core) (pending : List Event) (caller : Address) (c : CoreCall) :
    Core.exec D w caller c = .ok w' → Step D ⟨w, pending⟩ ⟨w', pending⟩
  | enter (w w' : Core) (pending : List Event) (caller : Address) (c : CoreCall) (e : Event) : c.isPurchase = true →
    Core.exec D w caller c = .ok (w'.emit e) → Step D ⟨w, pending⟩ ⟨w', e :: pending⟩
  | leave (w : Core) (pending : List Event) (e : Event) : Step D ⟨w, e :: pending⟩ ⟨w.emit e, pending⟩
  | tick (w : Core) (seconds : Nat) : Step D ⟨w, []⟩ ⟨{ w with now := w.now + seconds }, []⟩

/-- The states that the core passes through. -/
def Reachable (D : Deployment) : Nested → Prop :=
  Reach.Reachable (fun x => Core.Genesis D x.core ∧ x.pending = []) (Step D)

variable {D : Deployment} {x : Nested}

/-- Without purchases under way, the states are those of the core. -/
theorem Reachable.of_core {w : Core} (h : Core.Reachable D w) : Reachable D ⟨w, []⟩ := by
  refine Reach.Reachable.invariant (I := fun w => Reachable D ⟨w, []⟩) (fun w h₀ => .start ⟨h₀, rfl⟩)
    (fun v w _ hv hs => ?_) h
  cases hs with
  | call _ caller c hx => exact hv.next (.call _ _ _ caller c hx)
  | tick seconds => exact hv.next (.tick v seconds)

/-- Whatever receivers do, they come to states of calls one after the other. -/
theorem Reachable.linear (h : Reachable D x) : ∃ w, Core.Reachable D w ∧ w.unlogged = x.core.unlogged := by
  refine Reach.Reachable.invariant (I := fun x => ∃ w, Core.Reachable D w ∧ w.unlogged = x.core.unlogged)
    (fun x h₀ => ⟨x.core, .start h₀.1, rfl⟩) (fun x y _ hx hs => ?_) h
  obtain ⟨v, hr, hv⟩ := hx
  cases hs with
  | call w w' pending caller c hx =>
    obtain ⟨v', hx', hv'⟩ := Core.exec_unlogged hv hx
    exact ⟨v', hr.next (.call _ _ _ _ hx'), hv'⟩
  | enter w w' pending caller c e _ hx =>
    obtain ⟨v', hx', hv'⟩ := Core.exec_unlogged hv hx
    exact ⟨v', hr.next (.call _ _ _ _ hx'), hv'⟩
  | leave w pending e => exact ⟨v, hr, hv⟩
  | tick w seconds =>
    refine ⟨_, hr.next (.tick v seconds), ?_⟩
    have hnow : v.now = w.now := (congrArg (fun u => u.now) hv :)
    have hrest : ({ v.unlogged with now := w.now + seconds } : Core) = { w.unlogged with now := w.now + seconds } :=
      congrArg (fun u : Core => { u with now := w.now + seconds }) hv
    rw [hnow]
    exact hrest

/-- **The exposure guard.** In every state that the core passes through, in the middle of purchases too: the total is
the sum of the reports of the registered markets, and every one of them can be reported anew. Until the guard is retired
no market owes more than its report, and no purchase leaves a total above the cap. What pays users out or ends a market
does the same under any other guard, and a bond can be settled under any other that keeps its books for the same
markets. -/
theorem launch_exposure (h : Reachable D x) :
    x.core.guard.totalReportedExposure =
        ∑ m ∈ univ.filter fun m => x.core.guard.registeredMarket m = true, x.core.guard.reportedExposure m ∧
      (∀ m, x.core.guard.registeredMarket m = true → ∃ r, x.core.sync m = .ok r) ∧
      (x.core.guard.retired = false →
        (∀ m, (x.core.vaults m).guardExposure ≤ x.core.guard.reportedExposure m) ∧
        ∀ caller c w', c.isPurchase = true → Core.exec D x.core caller c = .ok w' →
          w'.guard.totalReportedExposure ≤ w'.guard.exposureCap) ∧
      (∀ g caller c, c.leavesGuard = true →
        Core.exec D (x.core.guarded g) caller c = Core.guarded g <$> Core.exec D x.core caller c) ∧
      ∀ g : Guard, g.Balanced → g.registeredMarket = x.core.guard.registeredMarket → ∀ caller m,
        (∃ w', Core.exec D (x.core.guarded g) caller (.settleBond m) = .ok w') ↔
          ∃ w', Core.exec D x.core caller (.settleBond m) = .ok w' := by
  obtain ⟨v, hr, hv⟩ := h.linear
  have hguard : v.guard = x.core.guard := (congrArg (fun u => u.guard) hv :)
  have hvaults : v.vaults = x.core.vaults := (congrArg (fun u => u.vaults) hv :)
  have hfactory : v.factory = x.core.factory := (congrArg (fun u => u.factory) hv :)
  have hsound := Core.Reachable.sound hr
  have hbalanced := hsound.wired.balanced
  have hreported := Core.Reachable.reported hr
  have hregistered := hsound.wired.registered
  have howed := (Core.Reachable.booked hr).reported
  unfold Core.Reported at hreported
  rw [hguard] at hbalanced hreported howed
  rw [hguard, hfactory] at hregistered
  rw [hvaults] at howed
  refine ⟨?_, fun m hm => ?_, fun hret => ⟨howed hret, ?_⟩, fun g caller c hg => Core.exec_guarded hg g x.core,
    fun g hg hsame caller m => ⟨?_, ?_⟩⟩
  · rw [hbalanced, sum_filter]
    refine sum_congr rfl fun m _ => ?_
    split
    · rfl
    · rename_i hm
      exact hreported m (by simpa using hm)
  · obtain ⟨g, previous, current, hg⟩ := Guard.sync_succeeds hbalanced hm (x.core.vaults m).guardExposure
    exact ⟨_, bind_eq_ok.mpr ⟨_, hg, rfl⟩⟩
  · intro caller c w' hp hx
    obtain ⟨v', hx', hv'⟩ := Core.exec_unlogged hv hx
    obtain ⟨hcap, -⟩ := Core.purchase_capped hsound hx' hp (by rw [hguard]; exact hret)
    have hguard' : v'.guard = w'.guard := (congrArg (fun u => u.guard) hv' :)
    rw [← hguard']
    exact hcap
  · rintro ⟨w', hx⟩
    exact Core.settleBond_guarded (w := x.core.guarded g) (g := x.core.guard) hbalanced hregistered hx
  · rintro ⟨w', hx⟩
    exact Core.settleBond_guarded hg (by rw [hsame]; exact hregistered) hx

end Nested

namespace Sample

/-- The sample market before its first purchase. -/
def opened : List (Address × CoreCall ⊕ Nat) := [.inl (creator, .createMarket params none market)]

/-- A guard whose cap is what the sample market takes in. -/
def tight : Core := { genesis with guard := { genesis.guard with exposureCap := 4000000 } }

theorem tight_ok : Core.Genesis deployment tight := { genesis_ok with guard := ⟨rfl, fun _ => rfl, fun _ => rfl⟩ }

/-- The sample market takes in what the cap allows, is not resolved in time, and gets its bond; then the guard is
retired. -/
def retirement : List (Address × CoreCall ⊕ Nat) :=
  purchases ++ [.inr 10000, .inl (bob, .voidAfterDeadline market), .inl (bob, .settleBond market),
    .inl (addr 99, .retireForever), .inl (creator, .createMarket { params with terms := { terms with
      closeAt := 20000, outcomeDeadlineAt := 30000 } } none (addr 51))]

end Sample

/-- Alice buys, and the market is reported while her shares are delivered. -/
theorem launch_exposure_sample :
    ∃ x : Nested, Nested.Reachable Sample.deployment x ∧ x.pending ≠ [] ∧
      (x.core.vaults Sample.market).guardExposure = 3000000 ∧
      (x.core.vaults Sample.market).guardExposure ≤ x.core.guard.reportedExposure Sample.market ∧
      ∃ r, x.core.sync Sample.market = .ok r := by
  have hok : ((Core.exec Sample.deployment (Sample.played Sample.opened) Sample.alice
      (.buy Sample.market 0 3000000 1 3000000 9999 true)).toOption.map fun w =>
        ((w.vaults Sample.market).guardExposure, w.guard.retired, w.guard.registeredMarket Sample.market)) =
      some (3000000, false, true) := by decide +kernel
  cases hx : Core.exec Sample.deployment (Sample.played Sample.opened) Sample.alice
      (.buy Sample.market 0 3000000 1 3000000 9999 true) with
  | error e => rw [hx] at hok; cases hok
  | ok w' =>
    rw [hx] at hok
    simp only [Except.toOption, Option.map_some, Option.some.injEq, Prod.mk.injEq] at hok
    obtain ⟨howed, hretired, hregistered⟩ := hok
    obtain ⟨u, e, rfl⟩ := Core.purchase_logged rfl hx
    have hr : Nested.Reachable Sample.deployment ⟨u, [e]⟩ :=
      (Nested.Reachable.of_core (Sample.played_reachable Sample.opened)).next (.enter _ _ _ _ _ _ rfl hx)
    obtain ⟨-, hsync, hunretired, -, -⟩ := Nested.launch_exposure hr
    exact ⟨_, hr, by simp, howed, (hunretired hretired).1 Sample.market, hsync _ hregistered⟩

/-- A retired guard lets a purchase through with a total above its cap. -/
theorem reserved_over_cap :
    ∃ x : Nested, Nested.Reachable Sample.deployment x ∧ x.core.guard.retired = true ∧
      ∃ w', Core.exec Sample.deployment x.core Sample.alice (.buy (addr 51) 0 1000000 1 1000000 19000 true) =
        .ok w' ∧ w'.guard.exposureCap < w'.guard.totalReportedExposure := by
  have hok : ((Core.exec Sample.deployment (Sample.retirement.foldl Sample.play Sample.tight) Sample.alice
      (.buy (addr 51) 0 1000000 1 1000000 19000 true)).toOption.map fun w =>
        decide (w.guard.exposureCap < w.guard.totalReportedExposure)) = some true := by decide +kernel
  refine ⟨⟨Sample.retirement.foldl Sample.play Sample.tight, []⟩,
    .of_core ⟨Sample.tight, Sample.tight_ok, Sample.foldl_run _ _⟩, by decide +kernel, ?_⟩
  cases hx : Core.exec Sample.deployment (Sample.retirement.foldl Sample.play Sample.tight) Sample.alice
      (.buy (addr 51) 0 1000000 1 1000000 19000 true) with
  | error e => rw [hx] at hok; cases hok
  | ok w' =>
    rw [hx] at hok
    exact ⟨w', rfl, of_decide_eq_true (Option.some.inj hok)⟩

end Cpredict
