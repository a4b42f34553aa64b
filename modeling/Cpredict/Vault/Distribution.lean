import Cpredict.Vault.Step

/-!
# The distribution of the remaining pools

The pools of winners, early birds and the timeout bonus are paid out by `_consumeRemainingPool`, claim by claim
(`claimWinningsFor_consumes` and its two siblings). `consumeAll` makes a run of such claims on a pool and its units.
-/

namespace Cpredict.Vault

open Outcome ProRata

/-- A run of claims: each takes its payout off the pool and its units off the units left. -/
def consumeAll : List Nat → Nat → Nat → Except Err (List Nat × Nat × Nat)
  | [], remainingUnits, remainingPool => .ok ([], remainingUnits, remainingPool)
  | units :: rest, remainingUnits, remainingPool => do
    let payout ← consumeRemainingPool units remainingUnits remainingPool
    let remainingUnits ← checkedSub .Panic remainingUnits units
    let remainingPool ← checkedSub .Panic remainingPool payout
    let (payouts, remainingUnits, remainingPool) ← consumeAll rest remainingUnits remainingPool
    .ok (payout :: payouts, remainingUnits, remainingPool)

/-! ## The claims of the vault are such claims -/

section

variable {v v' : Vault} {marketplace owner : Address} {units payout : Nat}

theorem claimWinningsFor_consumes (h : v.claimWinningsFor marketplace owner = .ok (v', units, payout)) :
    consumeAll [units] v.remainingWinningUnits v.remainingWinnerPool =
      .ok ([payout], v'.remainingWinningUnits, v'.remainingWinnerPool) := by
  simp only [claimWinningsFor, bind_eq_ok, Except.ok.injEq, Prod.mk.injEq] at h
  obtain ⟨-, -, -, -, -, -, _, hp, _, hu, _, hl, _, -, rfl, rfl, rfl⟩ := h
  simp [consumeAll, hp, hu, hl]

theorem claimEarlyBirdFor_consumes (h : v.claimEarlyBirdFor owner = .ok (v', units, payout)) :
    consumeAll [units] v.remainingEarlyBirdScore v.remainingEarlyBirdPool =
      .ok ([payout], v'.remainingEarlyBirdScore, v'.remainingEarlyBirdPool) := by
  simp only [claimEarlyBirdFor, bind_eq_ok, Except.ok.injEq, Prod.mk.injEq] at h
  obtain ⟨-, -, -, -, _, hp, _, hu, _, hl, rfl, rfl, rfl⟩ := h
  simp [consumeAll, hp, hu, hl]

theorem claimTimeoutBonusFor_consumes (h : v.claimTimeoutBonusFor owner = .ok (v', units, payout)) :
    consumeAll [units] v.remainingTimeoutBonusUnits v.remainingTimeoutBonusPool =
      .ok ([payout], v'.remainingTimeoutBonusUnits, v'.remainingTimeoutBonusPool) := by
  simp only [claimTimeoutBonusFor, bind_eq_ok, Except.ok.injEq, Prod.mk.injEq] at h
  obtain ⟨-, -, -, -, _, hp, _, hu, _, hl, rfl, rfl, rfl⟩ := h
  simp [consumeAll, hp, hu, hl]

end

/-! ## Runs of claims -/

variable {us : List Nat} {U A : Nat}

theorem consumeRemainingPool_eq {u : Nat} (h0 : 0 < u) (h : u ≤ U) : consumeRemainingPool u U A = .ok (share u U A) :=
  consumeRemainingPool_eq_ok.mpr ⟨by omega, h, rfl⟩

/-- Claims of positive sizes that the units left cover are all paid. -/
theorem consumeAll_eq (hpos : ∀ u ∈ us, 0 < u) (h : us.sum ≤ U) :
    consumeAll us U A = .ok (payouts us U A, U - us.sum, rest us U A) := by
  induction us generalizing U A with
  | nil => rfl
  | cons u us ih =>
    rw [List.sum_cons] at h
    have hu : u ≤ U := by omega
    have hrest := ih (U := U - u) (A := left u U A) (fun x hx => hpos x (List.mem_cons_of_mem _ hx)) (by omega)
    simp only [consumeAll, consumeRemainingPool_eq (hpos u List.mem_cons_self) hu, checkedSub_of_le _ hu,
      checkedSub_of_le _ (share_le A hu), ok_bind]
    rw [show A - share u U A = left u U A from rfl, hrest]
    simp only [ok_bind, payouts, rest, List.sum_cons, Nat.sub_sub]

/-- The pool and the units after the first `k` claims of a run. -/
theorem consumeAll_take (hpos : ∀ u ∈ us, 0 < u) (h : us.sum ≤ U) (k : Nat) :
    consumeAll (us.take k) U A =
      .ok ((payouts us U A).take k, U - (us.take k).sum, rest (us.take k) U A) := by
  have hsum : (us.take k).sum + (us.drop k).sum = us.sum := by rw [← List.sum_append, List.take_append_drop]
  rw [consumeAll_eq (fun u hu => hpos u (List.mem_of_mem_take hu)) (by omega)]
  have hsplit := payouts_append (us.take k) (us.drop k) U A
  rw [List.take_append_drop] at hsplit
  have hlen : (payouts (us.take k) U A).length = min k us.length := by rw [length_payouts, List.length_take]
  rcases Nat.le_total k us.length with hk | hk
  · rw [hsplit, List.take_left' (by omega)]
  · rw [List.take_of_length_le hk, List.take_of_length_le (by rw [length_payouts]; exact hk)]

/-- The claims up to one, that claim, and what it takes. -/
theorem sum_take_add {k : Nat} (hk : k < us.length) : (us.take k).sum + us[k] + (us.drop (k + 1)).sum = us.sum := by
  rw [← List.sum_take_succ us k hk, ← List.sum_append, List.take_append_drop]

theorem payouts_getElem? {k : Nat} (hk : k < us.length) :
    (payouts us U A)[k]? = some (share us[k] (U - (us.take k).sum) (rest (us.take k) U A)) := by
  have hsplit := payouts_append (us.take k) (us.drop k) U A
  rw [List.take_append_drop, List.drop_eq_getElem_cons hk] at hsplit
  have hlen : (payouts (us.take k) U A).length = k := by rw [length_payouts, List.length_take]; omega
  rw [hsplit, List.getElem?_append_right (by omega), hlen, Nat.sub_self]
  rfl

/-! ## The distribution -/

/-- A pool is paid out exactly, by claims that none of them empties before the last; the rate never falls, and each
claim is at least its proportion of the whole pool and less than `max k 1` more, after `k` claims. -/
theorem consumeAll_distributes (hU : 0 < U) (hpos : ∀ u ∈ us, 0 < u) (hsum : us.sum = U) :
    ∃ ps, consumeAll us U A = .ok (ps, 0, 0) ∧ ps.sum = A ∧
      (∀ (k : Nat) (hk : k < us.length), ∃ Uk Ak p, consumeAll (us.take k) U A = .ok (ps.take k, Uk, Ak) ∧
        ps[k]? = some p ∧ consumeRemainingPool us[k] Uk Ak = .ok p ∧ p ≤ Ak ∧ (0 < A → 0 < Ak) ∧
        us[k] * A / U ≤ p ∧ (p : ℚ) < us[k] * A / U + (max k 1 : Nat)) ∧
      (∀ j k, j ≤ k → k < us.length → ∃ Uj Aj Uk Ak, consumeAll (us.take j) U A = .ok (ps.take j, Uj, Aj) ∧
        consumeAll (us.take k) U A = .ok (ps.take k, Uk, Ak) ∧ (Aj : ℚ) / Uj ≤ Ak / Uk ∧
        ∀ w, 0 < w → w ≤ Uk → ∃ p q, consumeRemainingPool w Uj Aj = .ok p ∧ consumeRemainingPool w Uk Ak = .ok q ∧
          p ≤ q) := by
  have hne : us ≠ [] := by rintro rfl; simp at hsum; omega
  refine ⟨payouts us U A, ?_, ?_, ?_, ?_⟩
  · rw [consumeAll_eq hpos hsum.le, hsum, Nat.sub_self, rest_eq_zero_of_sum hne hsum]
  · have := sum_payouts (A := A) hsum.le
    rwa [rest_eq_zero_of_sum hne hsum] at this
  · intro k hk
    have hcut := sum_take_add hk
    have hu := hpos us[k] (List.getElem_mem hk)
    have hlen : (us.take k).length = k := by rw [List.length_take]; omega
    refine ⟨_, _, _, consumeAll_take hpos hsum.le k, payouts_getElem? hk, consumeRemainingPool_eq hu (by omega),
      share_le _ (by omega), rest_pos (by omega), le_share_rest hu (by omega), ?_⟩
    have hlt : (share us[k] (U - (us.take k).sum) (rest (us.take k) U A) : ℚ) < us[k] * A / U +
      (max (us.take k).length 1 : Nat) :=
      share_rest_lt hu (by omega)
    rwa [hlen] at hlt
  · intro j k hjk hk
    have hcut := sum_take_add hk
    have hu := hpos us[k] (List.getElem_mem hk)
    -- the claims from the one to the other
    have hsplit : us.take j ++ (us.take k).drop j = us.take k := by
      have := List.take_append_drop j (us.take k)
      rwa [List.take_take, Nat.min_eq_left hjk] at this
    have hmid : ∀ u ∈ (us.take k).drop j, 0 < u := fun u hm => hpos u (List.mem_of_mem_take (List.mem_of_mem_drop hm))
    have hadd : (us.take j).sum + ((us.take k).drop j).sum = (us.take k).sum := by rw [← List.sum_append, hsplit]
    have hunits : U - (us.take k).sum = U - (us.take j).sum - ((us.take k).drop j).sum := by omega
    have hpool : rest (us.take k) U A = rest ((us.take k).drop j) (U - (us.take j).sum) (rest (us.take j) U A) := by
      rw [← rest_append, hsplit]
    refine ⟨_, _, _, _, consumeAll_take hpos hsum.le j, consumeAll_take hpos hsum.le k, ?_, ?_⟩
    · rw [hunits, hpool]
      exact rate_le_rate_rest (by omega)
    · intro w hw hle
      refine ⟨_, _, consumeRemainingPool_eq hw (by omega), consumeRemainingPool_eq hw hle, ?_⟩
      rw [hunits, hpool]
      exact share_le_share_rest hmid hw (by omega)

/-- Ten units of payment among six holders of one unit each. -/
theorem consumeAll_distributes_six : ∃ ps, consumeAll [1, 1, 1, 1, 1, 1] 6 10 = .ok (ps, 0, 0) ∧ ps.sum = 10 :=
  let ⟨ps, h, hs, _⟩ := @consumeAll_distributes [1, 1, 1, 1, 1, 1] 6 10 (by decide) (by decide) rfl
  ⟨ps, h, hs⟩

example : consumeAll [1, 1, 1, 1, 1, 1] 6 10 = .ok ([1, 1, 2, 2, 2, 2], 0, 0) := by decide

/-! ## Splitting a claim -/

/-- A claim in parts is paid at most what the claim as a whole is paid, and leaves whoever claims afterwards no
worse off. -/
theorem consumeAll_split {vs : List Nat} {u : Nat} (hpos : ∀ v ∈ vs, 0 < v) (hu : 0 < u) (hsum : vs.sum = u)
    (hle : u ≤ U) :
    ∃ ps p A', consumeAll vs U A = .ok (ps, U - u, A') ∧ consumeRemainingPool u U A = .ok p ∧ ps.sum ≤ p ∧
      (u = U → ps.sum = p) ∧
      ∀ ws, (∀ w ∈ ws, 0 < w) → ws.sum ≤ U - u → ∃ qs qs' B B', consumeAll ws (U - u) (A - p) =
        .ok (qs, U - u - ws.sum, B) ∧
        consumeAll ws (U - u) A' = .ok (qs', U - u - ws.sum, B') ∧ List.Forall₂ (· ≤ ·) qs qs' := by
  have hne : vs ≠ [] := by rintro rfl; simp at hsum; omega
  subst hsum
  refine ⟨_, _, _, consumeAll_eq hpos hle, consumeRemainingPool_eq hu hle, sum_payouts_le_share hne hle, ?_, ?_⟩
  · intro heq
    have := sum_payouts (A := A) hle
    rw [rest_eq_zero_of_sum hne heq] at this
    rw [heq, share_self]
    exact this
  · intro ws hw hws
    exact ⟨_, _, _, _, consumeAll_eq hw hws, consumeAll_eq hw hws, payouts_mono hws (left_sum_le_rest hne hle)⟩

/-- Two of six units in two parts. -/
theorem consumeAll_split_six : ∃ ps p A', consumeAll [1, 1] 6 10 = .ok (ps, 4, A') ∧
    consumeRemainingPool 2 6 10 = .ok p ∧ ps.sum ≤ p :=
  let ⟨ps, p, A', h, hp, hs, _⟩ :=
    @consumeAll_split 6 10 [1, 1] 2 (by decide) (by decide) rfl (by decide)
  ⟨ps, p, A', h, hp, hs⟩

end Cpredict.Vault
