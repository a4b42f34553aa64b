import Cpredict.Lib.Balances
import Cpredict.Lib.Tally

/-!
# Reservations that are settled later

A cost is reserved under a key when it is accepted, and moves from what is reserved to what is spent when it is
settled. `Books` relates the two tables to the entries that are open and those that are settled: any order of settling
keeps it, and tables with coarser keys hold the sums of those with finer ones.
-/

namespace Quota

open Tally Finset

variable {κ ρ : Type} [DecidableEq κ]

/-- What is reserved and what is spent under each key. -/
structure Tables (κ : Type) where
  reserved : κ → Nat
  spent : κ → Nat

/-- The cost of an entry, for its own key. -/
def costAt (key : ρ → κ) (cost : ρ → Nat) (k : κ) (r : ρ) : Nat := if key r = k then cost r else 0

/-- The tables hold the entries that are open and those that are settled. -/
structure Books (key : ρ → κ) (cost : ρ → Nat) (T : Tables κ) (opened settled : List ρ) : Prop where
  reserved : ∀ k, T.reserved k = tally (costAt key cost k) opened
  spent : ∀ k, T.spent k = tally (costAt key cost k) settled

variable {key : ρ → κ} {cost : ρ → Nat} {T T' : Tables κ} {opened settled pre post : List ρ} {r : ρ}

theorem tally_middle (f : ρ → Nat) (pre post : List ρ) (r : ρ) :
    tally f (pre ++ r :: post) = tally f (pre ++ post) + f r := by
  rw [tally_append, tally_append, tally_cons]
  omega

theorem Books.start (key : ρ → κ) (cost : ρ → Nat) : Books key cost ⟨fun _ => 0, fun _ => 0⟩ [] [] :=
  ⟨fun _ => rfl, fun _ => rfl⟩

/-- An entry is accepted. -/
theorem Books.reserve (h : Books key cost T opened settled)
    (hr : T'.reserved = Function.update T.reserved (key r) (T.reserved (key r) + cost r)) (hs : T'.spent = T.spent) :
    Books key cost T' (opened ++ [r]) settled where
  reserved k := by
    rw [hr, tally_append, tally_cons, tally_nil, ← h.reserved k]
    by_cases hk : k = key r
    · subst hk
      simp [costAt]
    · simp [costAt, Function.update_of_ne hk, Ne.symm hk]
  spent k := by rw [hs, h.spent]

/-- An open entry is settled. -/
theorem Books.settle (h : Books key cost T (pre ++ r :: post) settled)
    (hr : T'.reserved = Function.update T.reserved (key r) (T.reserved (key r) - cost r))
    (hs : T'.spent = Function.update T.spent (key r) (T.spent (key r) + cost r)) :
    Books key cost T' (pre ++ post) (settled ++ [r]) where
  reserved k := by
    have hk := h.reserved k
    rw [tally_middle] at hk
    rw [hr]
    by_cases he : k = key r
    · subst he
      rw [Function.update_self, hk]
      simp [costAt]
    · rw [Function.update_of_ne he, hk]
      simp [costAt, Ne.symm he]
  spent k := by
    rw [hs, tally_append, tally_cons, tally_nil, ← h.spent k]
    by_cases he : k = key r
    · subst he
      simp [costAt]
    · simp [costAt, Function.update_of_ne he, Ne.symm he]

/-- What an open entry moves is reserved. -/
theorem Books.cost_le (h : Books key cost T (pre ++ r :: post) settled) : cost r ≤ T.reserved (key r) := by
  have hk := h.reserved (key r)
  rw [tally_middle] at hk
  simp only [costAt, if_true] at hk
  omega

/-- Reserved and spent are together what has been accepted, in whatever order it is settled. -/
theorem Books.total (h : Books key cost T opened settled) {accepted : List ρ} (hp : accepted.Perm (opened ++ settled))
    (k : κ) : T.spent k + T.reserved k = tally (costAt key cost k) accepted := by
  have hsum : tally (costAt key cost k) accepted = tally (costAt key cost k) (opened ++ settled) :=
    (hp.map _).sum_eq
  rw [hsum, tally_append, h.reserved k, h.spent k, Nat.add_comm]

/-! ## Coarser keys -/

variable {ι : Type} [DecidableEq ι] [Fintype ι] {sub : ρ → ι}

theorem sum_costAt (k : κ) (r : ρ) :
    ∑ i, costAt (fun r => (key r, sub r)) cost (k, i) r = costAt key cost k r := by
  unfold costAt
  by_cases h : key r = k
  · simp [h]
  · simp [h]

/-- The tables by day and party add up to the tables by day. -/
theorem Books.sum {T : Tables (κ × ι)} {G : Tables κ} (h : Books (fun r => (key r, sub r)) cost T opened settled)
    (hg : Books key cost G opened settled) (k : κ) :
    G.reserved k = ∑ i, T.reserved (k, i) ∧ G.spent k = ∑ i, T.spent (k, i) := by
  constructor
  · rw [hg.reserved, sum_congr rfl fun i _ => h.reserved (k, i), sum_tally]
    exact congrArg (fun f => tally f opened) (funext fun r => (sum_costAt k r).symm)
  · rw [hg.spent, sum_congr rfl fun i _ => h.spent (k, i), sum_tally]
    exact congrArg (fun f => tally f settled) (funext fun r => (sum_costAt k r).symm)

end Quota
