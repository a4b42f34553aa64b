import Cpredict.Core.Accounting
import Cpredict.Core.Brake

/-!
# The emergency controller

The controller has one pause in each epoch, by the emergency safe, and governance opens the next epoch. `Braked` is the
core together with its controller: the emergency state that the core reads is the controller's, and only the calls of
the controller change it. Of every run: what a pause stops, and until when, is fixed with the pause (`pause_stands`),
and between two epochs no flag is up for more than the longest pause (`pause_bounded`).
-/

namespace Cpredict

open Outcome

def PAUSE_PAYMASTER : Nat := 1 <<< 5

def ALL_PAUSE_FLAGS : Nat := (1 <<< 6) - 1

namespace EmergencyController

def MAX_PAUSE_DURATION : Nat := 7 * 24 * 3600

inductive Error
  | Unauthorized (account : Address)
  | ZeroAddress
  | InvalidConfiguration (field : String)
  | ValueOutOfRange (field : String) (value minimum maximum : Nat)
  | EmergencyEpochAlreadyUsed (epoch : Nat)
  | EmergencyPauseStillActive (expiresAt : Nat)
  | Panic
deriving DecidableEq

inductive Event
  | EmergencySafeUpdated (previousSafe newSafe : Address)
  | EmergencyPauseActivated (epoch flags expiresAt : Nat) (caller : Address)
  | EmergencyEpochReset (previousEpoch newEpoch : Nat)
deriving DecidableEq

end EmergencyController

open EmergencyController (MAX_PAUSE_DURATION)

/-- `EmergencyControllerV1` -/
structure EmergencyController where
  governance : Address
  emergencySafe : Address
  epoch : Nat
  pauseExpiresAt : Nat
  pausedFlags : Nat
  epochUsed : Nat → Bool

namespace EmergencyController

/-- The constructor. -/
def construct (governance emergencySafe : Address) : Except Error EmergencyController := do
  revertIf (governance = 0 ∨ emergencySafe = 0) .ZeroAddress
  .ok ⟨governance, emergencySafe, 1, 0, 0, fun _ => false⟩

variable (k : EmergencyController) (now : Nat) (caller : Address)

/-- What `isPaused` reads. -/
def brake : Emergency := ⟨k.pauseExpiresAt, k.pausedFlags⟩

/-- `pause`: the time of the block is truncated to 64 bits. -/
def pause (flags duration : Nat) : Except Error (EmergencyController × Event) := do
  revertIf (caller ≠ k.emergencySafe) (.Unauthorized caller)
  revertIf (flags = 0 ∨ (flags &&& (2 ^ 256 - 1 - ALL_PAUSE_FLAGS)) ≠ 0) (.InvalidConfiguration "pause.flags")
  revertIf (duration = 0 ∨ MAX_PAUSE_DURATION < duration)
    (.ValueOutOfRange "pause.duration" duration 1 MAX_PAUSE_DURATION)
  revertIf (k.epochUsed k.epoch = true) (.EmergencyEpochAlreadyUsed k.epoch)
  revertIf (2 ^ 64 ≤ now % 2 ^ 64 + duration) .Panic
  .ok ({ k with
      epochUsed := Function.update k.epochUsed k.epoch true
      pausedFlags := flags
      pauseExpiresAt := now % 2 ^ 64 + duration },
    .EmergencyPauseActivated k.epoch flags (now % 2 ^ 64 + duration) caller)

/-- `onlyGovernance` -/
def onlyGovernance : Except Error Unit := revertIf (caller ≠ k.governance) (.Unauthorized caller)

def resetEpoch : Except Error (EmergencyController × Event) := do
  k.onlyGovernance caller
  revertIf (now < k.pauseExpiresAt) (.EmergencyPauseStillActive k.pauseExpiresAt)
  revertIf (2 ^ 64 ≤ k.epoch + 1) .Panic
  .ok ({ k with epoch := k.epoch + 1, pausedFlags := 0, pauseExpiresAt := 0 },
    .EmergencyEpochReset k.epoch (k.epoch + 1))

def setEmergencySafe (newSafe : Address) : Except Error (EmergencyController × Event) := do
  k.onlyGovernance caller
  revertIf (newSafe = 0) .ZeroAddress
  .ok ({ k with emergencySafe := newSafe }, .EmergencySafeUpdated k.emergencySafe newSafe)

inductive Call
  | pause (flags duration : Nat)
  | resetEpoch
  | setEmergencySafe (newSafe : Address)

def exec : Call → Except Error (EmergencyController × Event)
  | .pause flags duration => k.pause now caller flags duration
  | .resetEpoch => k.resetEpoch now caller
  | .setEmergencySafe newSafe => k.setEmergencySafe caller newSafe

/-! ## What a call does -/

variable {k now caller} {k' : EmergencyController} {e : Event} {c : Call}

/-- A call changes the safe, or pauses the flags of an epoch without a pause, or opens the next epoch when no pause
lasts. -/
theorem exec_cases (h : k.exec now caller c = .ok (k', e)) :
    k'.governance = k.governance ∧
    ((k'.epoch = k.epoch ∧ k'.brake = k.brake ∧ k'.epochUsed = k.epochUsed) ∨
     (caller = k.emergencySafe ∧ k.epochUsed k.epoch = false ∧ ∃ flags duration, duration ≤ MAX_PAUSE_DURATION ∧
        k' = { k with
          epochUsed := Function.update k.epochUsed k.epoch true
          pausedFlags := flags
          pauseExpiresAt := now % 2 ^ 64 + duration }) ∨
     (caller = k.governance ∧ k.pauseExpiresAt ≤ now ∧
        k' = { k with epoch := k.epoch + 1, pausedFlags := 0, pauseExpiresAt := 0 })) := by
  cases c with
  | pause flags duration =>
    simp only [exec, pause, bind_eq_ok, revertIf_eq_ok, Except.ok.injEq, Prod.mk.injEq] at h
    obtain ⟨_, hcaller, _, _, _, hdur, _, hused, _, _, rfl, _⟩ := h
    exact ⟨rfl, .inr (.inl ⟨not_not.mp hcaller, by simpa using hused, flags, duration, by omega, rfl⟩)⟩
  | resetEpoch =>
    simp only [exec, resetEpoch, onlyGovernance, bind_eq_ok, revertIf_eq_ok, Except.ok.injEq, Prod.mk.injEq] at h
    obtain ⟨_, hcaller, _, hexp, _, _, rfl, _⟩ := h
    exact ⟨rfl, .inr (.inr ⟨not_not.mp hcaller, by omega, rfl⟩)⟩
  | setEmergencySafe newSafe =>
    simp only [exec, setEmergencySafe, onlyGovernance, bind_eq_ok, revertIf_eq_ok, Except.ok.injEq, Prod.mk.injEq] at h
    obtain ⟨_, _, _, _, rfl, _⟩ := h
    exact ⟨rfl, .inl ⟨rfl, rfl, rfl⟩⟩

/-- The epochs from the next one on have no pause yet, and an epoch without a pause has no flag up. -/
structure Fresh (k : EmergencyController) : Prop where
  later : ∀ n, k.epoch < n → k.epochUsed n = false
  unused : k.epochUsed k.epoch = false → k.pauseExpiresAt = 0

theorem construct_fresh {governance emergencySafe : Address} (h : construct governance emergencySafe = .ok k) :
    k.Fresh := by
  simp only [construct, bind_eq_ok, revertIf_eq_ok, Except.ok.injEq] at h
  obtain ⟨_, _, rfl⟩ := h
  exact ⟨fun _ _ => rfl, fun _ => rfl⟩

theorem Fresh.exec (hk : k.Fresh) (h : k.exec now caller c = .ok (k', e)) : k'.Fresh := by
  obtain ⟨_, ⟨hepoch, hbrake, hused⟩ | ⟨_, _, flags, duration, _, rfl⟩ | ⟨_, _, rfl⟩⟩ := exec_cases h
  · have hexp : k'.pauseExpiresAt = k.pauseExpiresAt := congrArg Emergency.pauseExpiresAt hbrake
    refine ⟨fun n hn => ?_, fun hn => ?_⟩
    · rw [hused]
      exact hk.later n (by omega)
    · rw [hexp]
      exact hk.unused (by rw [← hused, ← hepoch]; exact hn)
  · refine ⟨fun n hn => ?_, fun hn => ?_⟩
    · have hne : n ≠ k.epoch := by simp only at hn; omega
      simp only [Function.update_of_ne hne]
      exact hk.later n hn
    · simp at hn
  · exact ⟨fun n hn => hk.later n (by simp only at hn; omega), fun _ => rfl⟩

end EmergencyController

/-! ## The core and its controller -/

structure Braked where
  core : Core
  controller : EmergencyController

namespace Braked

/-- A call, of the core or of the controller, that does not revert. -/
inductive Called (D : Deployment) : Braked → Braked → Prop
  | core (s : Braked) (caller : Address) (c : CoreCall) (w : Core) : c.leavesBrake = true →
      s.core.exec D caller c = .ok w → Called D s { s with core := w }
  | controller (s : Braked) (caller : Address) (c : EmergencyController.Call) (k : EmergencyController)
      (e : EmergencyController.Event) : D.outside caller = true → s.controller.exec s.core.now caller c = .ok (k, e) →
      Called D s ⟨s.core.under k.brake, k⟩

def tick (s : Braked) (seconds : Nat) : Braked := { s with core := { s.core with now := s.core.now + seconds } }

inductive Step (D : Deployment) : Braked → Braked → Prop
  | call (s t : Braked) : Called D s t → Step D s t
  | tick (s : Braked) (seconds : Nat) : Step D s (s.tick seconds)

/-- The core as it is activated, with a controller just constructed. -/
structure Genesis (D : Deployment) (s : Braked) : Prop where
  core : Core.Genesis D s.core
  controller : ∃ governance emergencySafe, EmergencyController.construct governance emergencySafe = .ok s.controller
  brake : s.core.emergency = s.controller.brake

def Reachable (D : Deployment) : Braked → Prop := Reach.Reachable (Genesis D) (Step D)

variable {D : Deployment} {s t u : Braked} {flag n : Nat}

/-- A call of the controller is a change of the emergency state of the core. -/
theorem Called.core_step (h : Called D s t) : Core.Step D s.core t.core := by
  cases h with
  | core caller c w hc hx => exact .call _ _ caller c hx
  | controller caller c k e ho hx =>
    exact .call _ _ caller (.setEmergency k.brake) (by simp [Core.exec, ho, Core.under])

/-- A run with the controller is a run of the core. -/
theorem Reachable.core (h : Reachable D s) : Core.Reachable D s.core := by
  refine Reach.Reachable.invariant (I := fun s : Braked => Core.Reachable D s.core) (fun s hs => .start hs.core)
    (fun s t _ hs hstep => ?_) h
  cases hstep with
  | call t hc => exact hs.next hc.core_step
  | tick seconds => exact hs.next (.tick _ seconds)

theorem effect_now {w w' : Core} (h : Core.Effect D w w') : w'.now = w.now := by
  cases h <;> exact Core.Trace.now ‹_›

/-- A call takes no time, and one of the core leaves the controller and the emergency state alone. -/
theorem Called.cases (h : Core.Reachable D s.core) (hc : Called D s t) :
    t.core.now = s.core.now ∧ ((t.controller = s.controller ∧ t.core.emergency = s.core.emergency) ∨
      (t.core.emergency = t.controller.brake ∧
        ∃ caller c e, s.controller.exec s.core.now caller c = .ok (t.controller, e))) := by
  cases hc with
  | core caller c w hc hx =>
    exact ⟨effect_now (Core.exec_effect h.sound.wired h.sound.minimum hx).1, .inl ⟨rfl, Core.exec_emergency hc hx⟩⟩
  | controller caller c k e ho hx => exact ⟨rfl, .inr ⟨rfl, caller, c, e, hx⟩⟩

/-! ## The invariant -/

/-- The core reads the state of the controller, in which no pause lasts longer than the longest one from now. -/
structure Inv (s : Braked) : Prop where
  brake : s.core.emergency = s.controller.brake
  fresh : s.controller.Fresh
  short : s.controller.pauseExpiresAt ≤ s.core.now + MAX_PAUSE_DURATION

theorem Genesis.inv (h : Genesis D s) : Inv s := by
  obtain ⟨governance, emergencySafe, hk⟩ := h.controller
  have hfresh := EmergencyController.construct_fresh hk
  simp only [EmergencyController.construct, bind_eq_ok, revertIf_eq_ok, Except.ok.injEq] at hk
  obtain ⟨_, _, hk⟩ := hk
  exact ⟨h.brake, hfresh, by rw [← hk]; exact Nat.zero_le _⟩

theorem Inv.called (hi : Inv s) (h : Core.Reachable D s.core) (hc : Called D s t) : Inv t := by
  obtain ⟨hnow, ⟨hk, he⟩ | ⟨he, caller, c, e, hx⟩⟩ := hc.cases h
  · exact ⟨by rw [he, hk, hi.brake], hk ▸ hi.fresh, by rw [hk, hnow]; exact hi.short⟩
  · refine ⟨he, hi.fresh.exec hx, ?_⟩
    have hshort := hi.short
    obtain ⟨_, ⟨_, hb, _⟩ | ⟨_, _, flags, duration, hd, hk⟩ | ⟨_, _, hk⟩⟩ := EmergencyController.exec_cases hx
    · rw [hnow, show t.controller.pauseExpiresAt = _ from congrArg Emergency.pauseExpiresAt hb]
      exact hshort
    · have hmod := Nat.mod_le s.core.now (2 ^ 64)
      rw [hk, hnow]
      simp only
      omega
    · rw [hk]
      exact Nat.zero_le _

theorem Inv.tick (hi : Inv s) (seconds : Nat) : Inv (s.tick seconds) :=
  ⟨hi.brake, hi.fresh, hi.short.trans (by simp only [Braked.tick]; omega)⟩

theorem Reachable.inv (h : Reachable D s) : Inv s := by
  refine Reach.Reachable.invariant (I := Inv) (fun s hs => hs.inv) (fun s t hr hi hstep => ?_) h
  cases hstep with
  | call t hc => exact hi.called (Reachable.core hr) hc
  | tick seconds => exact hi.tick seconds

/-! ## A pause stands -/

/-- In an epoch whose pause has been made, a call leaves the pause as it is, or opens the next epoch after its end. -/
theorem Inv.stands (hi : Inv s) (h : Core.Reachable D s.core) (hc : Called D s t)
    (hused : s.controller.epochUsed s.controller.epoch = true) :
    (t.controller.epoch = s.controller.epoch ∧ t.controller.epochUsed t.controller.epoch = true ∧
      t.core.emergency = s.core.emergency) ∨
    (t.controller.epoch = s.controller.epoch + 1 ∧ s.controller.pauseExpiresAt ≤ t.core.now) := by
  obtain ⟨hnow, ⟨hk, he⟩ | ⟨he, caller, c, e, hx⟩⟩ := hc.cases h
  · exact .inl ⟨by rw [hk], by rw [hk, hused], he⟩
  · obtain ⟨_, ⟨hepoch, hb, hu⟩ | ⟨_, hno, _⟩ | ⟨_, hexp, hk⟩⟩ := EmergencyController.exec_cases hx
    · exact .inl ⟨hepoch, by rw [hepoch, hu, hused], by rw [he, hb, hi.brake]⟩
    · rw [hused] at hno
      cases hno
    · exact .inr ⟨by rw [hk], by rw [hnow]; exact hexp⟩

/-- The pause made in the epoch of `s` is the one of `t`, or its epoch is over and so is the pause. -/
def Stands (s t : Braked) : Prop :=
  (t.controller.epoch = s.controller.epoch ∧ t.controller.epochUsed t.controller.epoch = true ∧
    t.core.emergency = s.core.emergency) ∨
  (s.controller.epoch < t.controller.epoch ∧ s.core.emergency.pauseExpiresAt ≤ t.core.now)

theorem Called.epoch_le (h : Core.Reachable D s.core) (hc : Called D s t) :
    s.controller.epoch ≤ t.controller.epoch := by
  obtain ⟨_, ⟨hk, _⟩ | ⟨_, caller, c, e, hx⟩⟩ := hc.cases h
  · rw [hk]
  · obtain ⟨_, ⟨hepoch, _⟩ | ⟨_, _, _, _, _, hk⟩ | ⟨_, _, hk⟩⟩ := EmergencyController.exec_cases hx
    · exact hepoch.ge
    · rw [hk]
    · rw [hk]
      exact Nat.le_succ _

theorem Stands.step (h : Reachable D t) (hs : Stands s t) (hstep : Step D t u) : Stands s u := by
  have hbrake : t.controller.pauseExpiresAt = t.core.emergency.pauseExpiresAt :=
    (congrArg Emergency.pauseExpiresAt h.inv.brake).symm
  cases hstep with
  | call u hc =>
    obtain ⟨hepoch, hused, he⟩ | ⟨hepoch, hexp⟩ := hs
    · obtain ⟨hepoch', hused', he'⟩ | ⟨hepoch', hexp⟩ := h.inv.stands h.core hc hused
      · exact .inl ⟨hepoch'.trans hepoch, hused', he'.trans he⟩
      · exact .inr ⟨by omega, by rw [← he, ← hbrake]; exact hexp⟩
    · exact .inr ⟨hepoch.trans_le (hc.epoch_le h.core), by rw [(hc.cases h.core).1]; exact hexp⟩
  | tick seconds =>
    obtain ⟨hepoch, hused, he⟩ | ⟨hepoch, hexp⟩ := hs
    · exact .inl ⟨hepoch, hused, he⟩
    · exact .inr ⟨hepoch, hexp.trans (Nat.le_add_right _ _)⟩

/-- A pause, once made, stops until it expires what it stopped at first, and nothing from then until governance opens
the next epoch, which it cannot do before. -/
theorem pause_stands (h : Reachable D s) (hused : s.controller.epochUsed s.controller.epoch = true)
    (hrun : Reach.Run (Step D) s t) :
    s.controller.epoch ≤ t.controller.epoch ∧
      (t.core.now < s.core.emergency.pauseExpiresAt → t.controller.epoch = s.controller.epoch) ∧
      (t.controller.epoch = s.controller.epoch → t.core.emergency = s.core.emergency) := by
  have hstands : Stands s t :=
    Reach.Run.since h (.inl ⟨rfl, hused, rfl⟩) (fun _ _ ht hs hstep => hs.step ht hstep) hrun
  obtain ⟨hepoch, _, he⟩ | ⟨hepoch, hexp⟩ := hstands
  · exact ⟨hepoch.ge, fun _ => hepoch, fun _ => he⟩
  · exact ⟨hepoch.le, fun hnow => absurd hexp (by omega), fun heq => absurd hepoch (by omega)⟩

/-! ## How long a flag is up -/

end Braked

/-- The seconds among the next `seconds` in which a flag is up. -/
def Emergency.pausedSeconds (e : Emergency) (now flag seconds : Nat) : Nat :=
  ((List.range seconds).filter fun i => e.isPaused (now + i) flag).length

/-- A flag is up until the pause expires, at most. -/
theorem Emergency.pausedSeconds_le (e : Emergency) (now flag seconds : Nat) :
    e.pausedSeconds now flag seconds + (e.pauseExpiresAt - (now + seconds)) ≤ e.pauseExpiresAt - now := by
  induction seconds with
  | zero => simp [pausedSeconds]
  | succ seconds ih =>
    have hstep : e.pausedSeconds now flag (seconds + 1) =
        e.pausedSeconds now flag seconds + if e.isPaused (now + seconds) flag = true then 1 else 0 := by
      unfold pausedSeconds
      rw [List.range_succ, List.filter_append, List.length_append]
      by_cases hp : e.isPaused (now + seconds) flag = true <;> simp [hp]
    rw [hstep]
    split
    · rename_i hp
      have hlt : now + seconds < e.pauseExpiresAt := by
        simp only [isPaused, Bool.and_eq_true, decide_eq_true_eq] at hp
        exact hp.1
      omega
    · omega

namespace Braked

/-- A run from `s` to `t` in which a flag is up for `n` seconds. -/
inductive Paused (D : Deployment) (flag : Nat) (s : Braked) : Braked → Nat → Prop
  | start : Paused D flag s s 0
  | call (t u : Braked) (n : Nat) : Paused D flag s t n → Called D t u → Paused D flag s u n
  | tick (t : Braked) (n seconds : Nat) : Paused D flag s t n →
      Paused D flag s (t.tick seconds) (n + t.core.emergency.pausedSeconds t.core.now flag seconds)

theorem Paused.reachable (h : Reachable D s) (hp : Paused D flag s t n) : Reachable D t := by
  induction hp with
  | start => exact h
  | call t u n _ hc ih => exact ih.next (.call t u hc)
  | tick t n seconds _ ih => exact ih.next (.tick t seconds)

theorem Paused.run (hp : Paused D flag s t n) : Reach.Run (Step D) s t := by
  induction hp with
  | start => exact .refl
  | call t u n _ hc ih => exact ih.tail (.call t u hc)
  | tick t n seconds _ ih => exact ih.tail (.tick t seconds)

theorem Paused.epoch_le (h : Reachable D s) (hp : Paused D flag s t n) : s.controller.epoch ≤ t.controller.epoch := by
  induction hp with
  | start => exact le_rfl
  | call t u n hp hc ih => exact ih.trans (hc.epoch_le (hp.reachable h).core)
  | tick t n seconds _ ih => exact ih

/-- The seconds for which a flag can still be up in the epoch. -/
def left (s : Braked) : Nat :=
  if s.controller.epochUsed s.controller.epoch = true then s.controller.pauseExpiresAt -
    s.core.now else MAX_PAUSE_DURATION

theorem Inv.left_le (h : Inv s) : s.left ≤ MAX_PAUSE_DURATION := by
  have := h.short
  unfold left
  split <;> omega

/-- A call uses up no time, and only a new epoch gives more. -/
theorem Called.left_le (h : Reachable D s) (hc : Called D s t) :
    t.left + MAX_PAUSE_DURATION * s.controller.epoch ≤ s.left + MAX_PAUSE_DURATION * t.controller.epoch := by
  obtain ⟨hnow, ⟨hk, _⟩ | ⟨_, caller, c, e, hx⟩⟩ := hc.cases h.core
  · simp only [left, hk, hnow, le_refl]
  · obtain ⟨_, ⟨hepoch, hb, hu⟩ | ⟨_, hno, flags, duration, hd, hk⟩ | ⟨_, hexp, hk⟩⟩ :=
      EmergencyController.exec_cases hx
    · have hexp : t.controller.pauseExpiresAt = s.controller.pauseExpiresAt := congrArg Emergency.pauseExpiresAt hb
      simp only [left, hepoch, hu, hexp, hnow, le_refl]
    · have hmod := Nat.mod_le s.core.now (2 ^ 64)
      have hs : s.left = MAX_PAUSE_DURATION := by simp [left, hno]
      have ht : t.left ≤ duration := by
        simp only [left, hk, hnow, Function.update_self, if_true]
        omega
      rw [hs, hk]
      simp only
      omega
    · have ht := (h.inv.called h.core hc).left_le
      rw [hk]
      simp only [Nat.mul_add, Nat.mul_one]
      omega

theorem tick_left (flag : Nat) (s : Braked) (h : Inv s) (seconds : Nat) :
    s.core.emergency.pausedSeconds s.core.now flag seconds + (s.tick seconds).left ≤ s.left := by
  have hle := s.core.emergency.pausedSeconds_le s.core.now flag seconds
  have hexp : s.core.emergency.pauseExpiresAt = s.controller.pauseExpiresAt := congrArg Emergency.pauseExpiresAt h.brake
  rw [hexp] at hle
  by_cases hu : s.controller.epochUsed s.controller.epoch = true
  · simp only [left, tick, hu, if_true]
    exact hle
  · have hzero := h.fresh.unused (by simpa using hu)
    simp only [left, tick, hu, if_false, Bool.false_eq_true]
    omega

theorem Paused.budget (h : Reachable D s) (hp : Paused D flag s t n) :
    n + t.left + MAX_PAUSE_DURATION * s.controller.epoch ≤ s.left + MAX_PAUSE_DURATION * t.controller.epoch := by
  induction hp with
  | start => omega
  | call t u n hp hc ih =>
    have := hc.left_le (hp.reachable h)
    omega
  | tick t n seconds hp ih =>
    have := tick_left flag t (hp.reachable h).inv seconds
    simp only [Braked.tick] at this ⊢
    omega

/-- Over any run a flag is up for no more than the longest pause in each of its epochs. -/
theorem pause_bounded (h : Reachable D s) (hp : Paused D flag s t n) :
    n ≤ MAX_PAUSE_DURATION * (t.controller.epoch + 1 - s.controller.epoch) := by
  have hbudget := hp.budget h
  have hleft := h.inv.left_le
  have hmono := hp.epoch_le h
  have hsplit : MAX_PAUSE_DURATION * (t.controller.epoch + 1 - s.controller.epoch) =
      MAX_PAUSE_DURATION * t.controller.epoch + MAX_PAUSE_DURATION - MAX_PAUSE_DURATION * s.controller.epoch := by
    rw [Nat.mul_sub, Nat.mul_add, Nat.mul_one]
  omega

/-! ## What the brake cannot do -/

end Braked

namespace Core

/-- A step of the core in which the emergency state does not change. -/
inductive FreeStep (D : Deployment) : Core → Core → Prop
  | call (w w' : Core) (caller : Address) (c : CoreCall) : c.leavesBrake = true → exec D w caller c = .ok w' →
      FreeStep D w w'
  | tick (w : Core) (seconds : Nat) : FreeStep D w { w with now := w.now + seconds }

/-- The states that runs without any pause reach. -/
def Free (D : Deployment) : Core → Prop :=
  Reach.Reachable (fun w => Genesis D w ∧ w.emergency = .released) (FreeStep D)

end Core

namespace Braked

theorem Reachable.free (h : Reachable D s) : Core.Free D (s.core.under .released) := by
  refine Reach.Reachable.invariant (I := fun s : Braked => Core.Free D (s.core.under .released))
    (fun s hs => .start ⟨{ hs.core with }, rfl⟩) (fun s t _ hf hstep => ?_) h
  cases hstep with
  | call t hc =>
    cases hc with
    | core caller c w hc hx => exact hf.next (.call _ _ caller c hc (Core.exec_released hc hx))
    | controller caller c k e ho hx => exact hf
  | tick seconds => exact hf.next (.tick _ seconds)

/-- The brake only stops purchases and the creation of markets: whatever a run with pauses reaches is reached, but for
the emergency state, by a run without any; in it a call of which no flag is up does what it does without any pause, and
a call of which one is up reverts. -/
theorem brake_stops_only (h : Reachable D s) :
    Core.Free D (s.core.under .released) ∧
      ∀ (caller : Address) (c : CoreCall), c.leavesBrake = true →
        ((∀ flag ∈ c.brakes, s.core.emergency.isPaused s.core.now flag = false) →
          s.core.exec D caller c = Core.under s.core.emergency <$> (s.core.under .released).exec D caller c) ∧
        ((∃ flag ∈ c.brakes, s.core.emergency.isPaused s.core.now flag = true) →
          ∀ w, s.core.exec D caller c ≠ .ok w) := by
  refine ⟨h.free, fun caller c hc => ⟨fun hdown => ?_, fun hup w hx => ?_⟩⟩
  · refine Core.exec_under s.core.emergency (s.core.under .released) D caller hc fun flag hf => ?_
    rw [Core.under_now, Core.under_emergency, hdown flag hf, Emergency.released_unpaused]
  · obtain ⟨flag, hf, hflag⟩ := hup
    rw [Core.exec_unpaused hx flag hf] at hflag
    cases hflag

end Braked

/-! ## A sample of pauses -/

namespace Sample

def governance : Address := addr 99

def emergencySafe : Address := addr 98

/-- The sample genesis with a controller. -/
def unbraked : Braked := ⟨genesis, ⟨governance, emergencySafe, 1, 0, 0, fun _ => false⟩⟩

theorem unbraked_ok : Braked.Genesis deployment unbraked where
  core := genesis_ok
  controller := by
    refine ⟨governance, emergencySafe, ?_⟩
    unfold EmergencyController.construct
    rw [revertIf_neg _ (by decide)]
    rfl
  brake := rfl

inductive Action
  | call (caller : Address) (c : CoreCall)
  | control (caller : Address) (c : EmergencyController.Call)
  | wait (seconds : Nat)

/-- An action, with the seconds for which a flag has been up. What reverts changes nothing. -/
def brake (flag : Nat) (x : Braked × Nat) : Action → Braked × Nat
  | .call caller c => match c.leavesBrake, x.1.core.exec deployment caller c with
    | true, .ok w => ({ x.1 with core := w }, x.2)
    | _, _ => x
  | .control caller c => match deployment.outside caller, x.1.controller.exec x.1.core.now caller c with
    | true, .ok (k, _) => (⟨x.1.core.under k.brake, k⟩, x.2)
    | _, _ => x
  | .wait seconds => (x.1.tick seconds, x.2 + x.1.core.emergency.pausedSeconds x.1.core.now flag seconds)

theorem brake_paused {flag : Nat} {s : Braked} {x : Braked × Nat} (h : Braked.Paused deployment flag s x.1 x.2)
    (a : Action) : Braked.Paused deployment flag s (brake flag x a).1 (brake flag x a).2 := by
  cases a with
  | call caller c =>
    simp only [brake]
    split
    · rename_i w hc hx
      exact .call _ _ _ h (.core _ caller c w hc hx)
    · exact h
  | control caller c =>
    simp only [brake]
    split
    · rename_i k e ho hx
      exact .call _ _ _ h (.controller _ caller c k e ho hx)
    · exact h
  | wait seconds => exact .tick _ _ seconds h

theorem brakes_paused {flag : Nat} {s : Braked} {x : Braked × Nat} (h : Braked.Paused deployment flag s x.1 x.2)
    (xs : List Action) : Braked.Paused deployment flag s (xs.foldl (brake flag) x).1 (xs.foldl (brake flag) x).2 := by
  induction xs generalizing x with
  | nil => exact h
  | cons a xs ih => exact ih (brake_paused h a)

/-- The state after a list of actions, and the seconds for which primary purchases have been stopped. -/
def braked (s : Braked) (xs : List Action) : Braked × Nat := xs.foldl (brake PAUSE_PRIMARY_BUY) (s, 0)

theorem braked_paused (s : Braked) (xs : List Action) :
    Braked.Paused deployment PAUSE_PRIMARY_BUY s (braked s xs).1 (braked s xs).2 := brakes_paused .start xs

theorem braked_reachable (xs : List Action) : Braked.Reachable deployment (braked unbraked xs).1 :=
  (braked_paused unbraked xs).reachable (.start unbraked_ok)

/-- A purchase, and then a pause of an hour. -/
def pausing : List Action :=
  [.call creator (.createMarket params none market), .call alice (.buy market 0 3000000 1 3000000 9999 true),
   .control emergencySafe (.pause PAUSE_PRIMARY_BUY 3600)]

/-- Attempts to end the pause and to prolong it. -/
def meddling : List Action :=
  [.wait 600, .control governance .resetEpoch, .control emergencySafe (.pause PAUSE_PRIMARY_BUY 3600)]

/-- A pause of an hour, the next epoch, and another one. -/
def twice : List Action :=
  [.control emergencySafe (.pause PAUSE_PRIMARY_BUY 3600), .wait 4000, .control governance .resetEpoch,
   .control emergencySafe (.pause PAUSE_PRIMARY_BUY 600), .wait 1000]

end Sample

/-- Attempts to end a pause and to prolong it: it stands. -/
theorem pause_stands_sample :
    (Sample.braked (Sample.braked Sample.unbraked Sample.pausing).1 Sample.meddling).1.controller.epoch = 1 ∧
      (Sample.braked (Sample.braked Sample.unbraked Sample.pausing).1 Sample.meddling).1.core.emergency =
        (Sample.braked Sample.unbraked Sample.pausing).1.core.emergency := by
  have hstands := Braked.pause_stands (Sample.braked_reachable Sample.pausing) (by decide +kernel)
    (Sample.braked_paused _ Sample.meddling).run
  have hepoch := hstands.2.1 (by decide +kernel)
  exact ⟨hepoch.trans (by decide +kernel), hstands.2.2 hepoch⟩

/-- Two pauses, of an hour and of ten minutes, in two epochs. -/
theorem pause_bounded_sample :
    (Sample.braked Sample.unbraked Sample.twice).2 = 4200 ∧
      (Sample.braked Sample.unbraked Sample.twice).2 ≤ EmergencyController.MAX_PAUSE_DURATION *
        ((Sample.braked Sample.unbraked Sample.twice).1.controller.epoch + 1 - Sample.unbraked.controller.epoch) :=
  ⟨by decide +kernel, Braked.pause_bounded (.start Sample.unbraked_ok) (Sample.braked_paused _ Sample.twice)⟩

/-- Under a pause of purchases one reverts; the state is one that no pause is needed for. -/
theorem brake_stops_only_sample :
    (∀ w, (Sample.braked Sample.unbraked Sample.pausing).1.core.exec Sample.deployment Sample.bob
        (.buy Sample.market 1 1000000 1 1000000 9999 true) ≠ .ok w) ∧
      Core.Free Sample.deployment ((Sample.braked Sample.unbraked Sample.pausing).1.core.under .released) := by
  obtain ⟨hfree, hcalls⟩ := Braked.brake_stops_only (Sample.braked_reachable Sample.pausing)
  exact ⟨(hcalls _ _ rfl).2 ⟨PAUSE_PRIMARY_BUY, by simp [CoreCall.brakes], by decide +kernel⟩, hfree⟩

end Cpredict
