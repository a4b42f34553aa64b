import Cpredict.Core.Frame

/-!
# What the emergency brake stops

A call of the core reads the emergency state only for the flags in `CoreCall.brakes`: two states that differ in nothing
else, and agree on these flags, have the same outcome up to the emergency state (`exec_under`). So every call that buys
no share and creates no market goes on under any pause as without it, and a call that goes through under a pause does
what it would do with no pause at all (`exec_released`).
-/

namespace Cpredict

open Outcome

namespace Emergency

/-- No flag is up. -/
def released : Emergency := ⟨0, 0⟩

theorem released_unpaused (now flag : Nat) : released.isPaused now flag = false := by
  simp [released, isPaused]

end Emergency

namespace Core

/-- The state with another emergency state. -/
def under (e : Emergency) (w : Core) : Core := { w with emergency := e }

section

variable (e : Emergency) (w : Core) (D : Deployment) (caller : Address)

@[simp] theorem under_now : (w.under e).now = w.now := rfl

@[simp] theorem under_emergency : (w.under e).emergency = e := rfl

theorem under_self : w.under w.emergency = w := rfl

/-- A call does the same under two emergency states that agree on the flags it reads. -/
theorem exec_under {c : CoreCall} (hc : c.leavesBrake = true)
    (h : ∀ flag ∈ c.brakes, e.isPaused w.now flag = w.emergency.isPaused w.now flag) :
    exec D (w.under e) caller c = under e <$> exec D w caller c :=
  exec_beside e none [] w D caller hc (.inl rfl) h

variable {e w D caller} {w' : Core} {c : CoreCall}

theorem exec_emergency (hc : c.leavesBrake = true) (h : exec D w caller c = .ok w') : w'.emergency = w.emergency := by
  have hu := exec_under w.emergency w D caller hc fun _ _ => rfl
  rw [under_self, h, map_ok] at hu
  have heq : w' = w'.under w.emergency := Except.ok.inj hu
  rw [heq, under_emergency]

/-- A call that goes through has found the flags it reads down. -/
theorem exec_unpaused (h : exec D w caller c = .ok w') :
    ∀ flag ∈ c.brakes, w.emergency.isPaused w.now flag = false := by
  obtain ⟨_, _, h⟩ := bind_eq_ok.mp h
  cases c with
  | createMarket =>
    simp only [createMarket, bind_eq_ok, revertIf_eq_ok] at h
    obtain ⟨_, _, _, _, _, hp, _⟩ := h
    simpa [CoreCall.brakes] using hp
  | buy =>
    simp only [buy, Vault.prepareBuy, bind_eq_ok, revertIf_eq_ok] at h
    obtain ⟨_, _, _, ⟨_, _, _, _, _, hp, _⟩, _⟩ := h
    simpa [CoreCall.brakes] using hp
  | buyWithPermit2 =>
    simp only [buyWithPermit2, Vault.prepareBuy, bind_eq_ok, revertIf_eq_ok] at h
    obtain ⟨_, _, _, _, _, hpermit, _, ⟨_, _, _, _, _, hp, _⟩, _⟩ := h
    simp only [CoreCall.brakes, List.mem_cons, List.not_mem_nil, or_false, forall_eq_or_imp, forall_eq]
    exact ⟨Bool.eq_false_iff.mpr hpermit, Bool.eq_false_iff.mpr hp⟩
  | _ => simp [CoreCall.brakes]

/-- What goes through goes through the same with no flag up. -/
theorem exec_released (hc : c.leavesBrake = true) (h : exec D w caller c = .ok w') :
    exec D (w.under .released) caller c = .ok (w'.under .released) := by
  rw [exec_under _ _ _ _ hc fun flag hf => by rw [Emergency.released_unpaused, exec_unpaused h flag hf], h, map_ok]

/-- A call that no flag stops does under any emergency state what it does under the present one. -/
theorem exec_exit (hc : c.leavesBrake = true) (hb : c.brakes = []) (e : Emergency) :
    exec D (w.under e) caller c = under e <$> exec D w caller c :=
  exec_under e w D caller hc (by simp [hb])

end

end Core

end Cpredict
