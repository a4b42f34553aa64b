import Mathlib.Algebra.BigOperators.Group.Finset.Basic
import Mathlib.Algebra.Order.BigOperators.Group.Finset
import Mathlib.Data.Fintype.BigOperators
import Mathlib.Tactic

/-!
# Sums over balances

A ledger maps holders to amounts; its total is a sum over a finite set. Changing one amount changes the total by the
difference (`sum_change`), and moving an amount from one holder to another does not change it (`sum_move`).
-/

set_option linter.unusedSectionVars false

namespace Balances

open Finset

variable {ι : Type} [DecidableEq ι]

/-- Two ledgers that agree but for one holder: the totals differ as the holder's amounts do. -/
theorem sum_change {s : Finset ι} {f g : ι → Nat} {i : ι} (hi : i ∈ s) (h : ∀ j ∈ s, j ≠ i → g j = f j) :
    ∑ j ∈ s, g j + f i = ∑ j ∈ s, f j + g i := by
  have hrest : ∑ j ∈ s.erase i, g j = ∑ j ∈ s.erase i, f j :=
    sum_congr rfl fun j hj => h j (mem_of_mem_erase hj) (ne_of_mem_erase hj)
  rw [← add_sum_erase s g hi, ← add_sum_erase s f hi, hrest]
  omega

/-- Two ledgers that agree on a set have one total there. -/
theorem sum_same {s : Finset ι} {f g : ι → Nat} (h : ∀ j ∈ s, g j = f j) : ∑ j ∈ s, g j = ∑ j ∈ s, f j :=
  sum_congr rfl h

theorem sum_update {s : Finset ι} (f : ι → Nat) {i : ι} (hi : i ∈ s) (v : Nat) :
    ∑ j ∈ s, Function.update f i v j + f i = ∑ j ∈ s, f j + v := by
  have := sum_change (f := f) (g := Function.update f i v) hi fun j _ hj => Function.update_of_ne hj _ _
  rwa [Function.update_self] at this

theorem le_sum {s : Finset ι} (f : ι → Nat) {i : ι} (hi : i ∈ s) : f i ≤ ∑ j ∈ s, f j :=
  single_le_sum (fun _ _ => Nat.zero_le _) hi

/-- A table with one entry changed. -/
def update₂ {β γ : Type} [DecidableEq β] (f : ι → β → γ) (a : ι) (b : β) (v : γ) : ι → β → γ :=
  Function.update f a (Function.update (f a) b v)

theorem update₂_self {β γ : Type} [DecidableEq β] (f : ι → β → γ) (a : ι) (b : β) (v : γ) :
    update₂ f a b v a b = v := by
  simp [update₂]

theorem update₂_of_ne {β γ : Type} [DecidableEq β] (f : ι → β → γ) {a c : ι} (b : β) (v : γ) (h : c ≠ a) :
    update₂ f a b v c = f c := Function.update_of_ne h _ _

theorem update₂_other_holder {β γ : Type} [DecidableEq β] (f : ι → β → γ) {a c : ι} {b d : β} (v : γ) (h : d ≠ b) :
    update₂ f a b v c d = f c d := by
  by_cases hc : c = a
  · subst hc; simp [update₂, h]
  · rw [update₂_of_ne f b v hc]

theorem update₂_eq_self {β γ : Type} [DecidableEq β] (f : ι → β → γ) (a : ι) (b : β) : update₂ f a b (f a b) = f := by
  simp [update₂]

/-- The table as a map from pairs. -/
theorem uncurry_update₂ {β γ : Type} [DecidableEq β] (f : ι → β → γ) (a : ι) (b : β) (v : γ) :
    (fun k : ι × β => update₂ f a b v k.1 k.2) = Function.update (fun k : ι × β => f k.1 k.2) (a, b) v := by
  funext ⟨c, d⟩
  by_cases hc : c = a
  · subst hc
    by_cases hd : d = b
    · subst hd; simp [update₂_self]
    · simp [update₂_other_holder f v hd, hd]
  · simp [update₂_of_ne f b v hc, hc]

/-- `n` moves from `a` to `b`. -/
def move (f : ι → Nat) (a b : ι) (n : Nat) : ι → Nat :=
  Function.update (Function.update f a (f a - n)) b (Function.update f a (f a - n) b + n)

theorem move_of_ne (f : ι → Nat) {a b c : ι} (n : Nat) (ha : c ≠ a) (hb : c ≠ b) : move f a b n c = f c := by
  simp [move, ha, hb]

theorem move_from (f : ι → Nat) {a b : ι} (n : Nat) (h : a ≠ b) : move f a b n a = f a - n := by simp [move, h]

theorem move_to (f : ι → Nat) {a b : ι} (n : Nat) (h : a ≠ b) : move f a b n b = f b + n := by simp [move, h.symm]

theorem move_self (f : ι → Nat) {a : ι} {n : Nat} (h : n ≤ f a) : move f a a n = f := by
  funext c
  by_cases hc : c = a
  · subst hc; simp [move]; omega
  · exact move_of_ne f n hc hc

theorem move_zero (f : ι → Nat) (a b : ι) : move f a b 0 = f := by simp [move]

/-- A transfer takes from nobody but its sender. -/
theorem le_move (f : ι → Nat) {a b c : ι} (n : Nat) (hc : c ≠ a) : f c ≤ move f a b n c := by
  by_cases hb : c = b
  · subst hb; rw [move_to f n (fun e => hc e.symm)]; omega
  · rw [move_of_ne f n hc hb]

theorem sum_move [Fintype ι] {f : ι → Nat} {a b : ι} {n : Nat} (h : n ≤ f a) : ∑ c, move f a b n c = ∑ c, f c := by
  by_cases hab : a = b
  · subst hab; rw [move_self f h]
  · have h₁ := sum_update f (mem_univ a) (f a - n)
    have h₂ := sum_update (Function.update f a (f a - n)) (mem_univ b) (Function.update f a (f a - n) b + n)
    unfold move
    omega

end Balances
