import Mathlib.Logic.Relation
import Mathlib.Tactic

/-!
# Reachable states

A system has initial states and a step relation. `Reachable.invariant` is the induction that every safety result uses:
what holds initially and is kept by every step from a reachable state holds of every reachable state. `Run` is a finite
sequence of steps.
-/

namespace Reach

variable {σ : Type}

/-- `t` comes from `s` by finitely many steps. -/
abbrev Run (step : σ → σ → Prop) : σ → σ → Prop := Relation.ReflTransGen step

/-- `t` comes from an initial state by finitely many steps. -/
def Reachable (init : σ → Prop) (step : σ → σ → Prop) (t : σ) : Prop := ∃ s, init s ∧ Run step s t

variable {init : σ → Prop} {step : σ → σ → Prop}

theorem Reachable.start {s : σ} (h : init s) : Reachable init step s := ⟨s, h, .refl⟩

theorem Reachable.next {s t : σ} (h : Reachable init step s) (ht : step s t) : Reachable init step t := by
  obtain ⟨s₀, h₀, hr⟩ := h
  exact ⟨s₀, h₀, hr.tail ht⟩

theorem Reachable.run {s t : σ} (h : Reachable init step s) (ht : Run step s t) : Reachable init step t := by
  obtain ⟨s₀, h₀, hr⟩ := h
  exact ⟨s₀, h₀, hr.trans ht⟩

/-- An invariant: initial states have it and steps from reachable states keep it. -/
theorem Reachable.invariant {I : σ → Prop} (h₀ : ∀ s, init s → I s)
    (hs : ∀ s t, Reachable init step s → I s → step s t → I t) {t : σ} (h : Reachable init step t) : I t := by
  obtain ⟨s, hi, hr⟩ := h
  induction hr with
  | refl => exact h₀ s hi
  | tail hr ht ih => exact hs _ _ ⟨s, hi, hr⟩ ih ht

/-- A relation between the ends of a run: it is reflexive, and steps from reachable states extend it. -/
theorem Run.since {R : σ → σ → Prop} {s : σ} (h : Reachable init step s) (hr : R s s)
    (hs : ∀ t u, Reachable init step t → R s t → step t u → R s u) {t : σ} (ht : Run step s t) : R s t := by
  induction ht with
  | refl => exact hr
  | tail hrun hstep ih => exact hs _ _ (h.run hrun) ih hstep

end Reach
