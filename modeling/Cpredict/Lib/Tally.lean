import Mathlib.Tactic

/-!
# Totals over a log

A log only grows at its end. `tally f` adds up what every entry contributes, so a step of the system adds to it what
its own entries contribute (`tally_append`).
-/

namespace Tally

variable {α β : Type}

/-- The sum of the contributions of the entries. -/
def tally (f : α → Nat) (log : List α) : Nat := (log.map f).sum

@[simp] theorem tally_nil (f : α → Nat) : tally f [] = 0 := rfl

@[simp] theorem tally_append (f : α → Nat) (xs ys : List α) : tally f (xs ++ ys) = tally f xs + tally f ys := by
  simp [tally]

@[simp] theorem tally_cons (f : α → Nat) (x : α) (xs : List α) : tally f (x :: xs) = f x + tally f xs := by
  simp [tally]

/-- A contribution that is split over finitely many parties adds up to the parts of the parties. -/
theorem sum_tally {s : Finset β} {f : β → α → Nat} (log : List α) :
    ∑ b ∈ s, tally (f b) log = tally (fun x => ∑ b ∈ s, f b x) log := by
  induction log with
  | nil => simp
  | cons x xs ih => simp [Finset.sum_add_distrib, ih]

/-- Entries that contribute nothing may be left out. -/
theorem tally_filter {f : α → Nat} {p : α → Bool} {log : List α} (h : ∀ x ∈ log, p x = false → f x = 0) :
    tally f (log.filter p) = tally f log := by
  induction log with
  | nil => rfl
  | cons x xs ih =>
    have ih' := ih fun y hy => h y (List.mem_cons_of_mem x hy)
    cases hp : p x with
    | true => rw [List.filter_cons_of_pos hp, tally_cons, tally_cons, ih']
    | false =>
      have h0 := h x List.mem_cons_self hp
      rw [List.filter_cons_of_neg (by simp [hp]), tally_cons, ih', h0, Nat.zero_add]

/-- Entries of different keys, each of which is covered by an entry of the other log with its key, contribute no
more. -/
theorem tally_le_of_covered {κ : Type} [DecidableEq β] {f : α → Nat} {g : β → Nat} (key : α → κ) (key' : β → κ)
    {xs : List α} {ys : List β} (hd : (xs.map key).Nodup) (h : ∀ x ∈ xs, ∃ y ∈ ys, key' y = key x ∧ f x ≤ g y) :
    tally f xs ≤ tally g ys := by
  induction xs generalizing ys with
  | nil => exact Nat.zero_le _
  | cons x xs ih =>
    obtain ⟨hx, hxs⟩ := List.nodup_cons.mp hd
    obtain ⟨y, hy, hk, hle⟩ := h x List.mem_cons_self
    have hrest : tally f xs ≤ tally g (ys.erase y) := by
      refine ih hxs ?_
      intro x' hx'
      obtain ⟨y', hy', hk', hle'⟩ := h x' (List.mem_cons_of_mem x hx')
      -- another key is covered by another entry
      have hne : y' ≠ y := by
        rintro rfl
        exact hx (hk.symm.trans hk' ▸ List.mem_map_of_mem hx')
      exact ⟨y', (List.mem_erase_of_ne hne).mpr hy', hk', hle'⟩
    have hperm : tally g ys = g y + tally g (ys.erase y) := ((List.perm_cons_erase hy).map g).sum_eq
    rw [tally_cons, hperm]
    omega

end Tally
