import Mathlib.Tactic

/-!
# Sharing out what is left of a pool

A pool `A` is shared among `U` units by claims of parts of the units, one after another: a claim of `u` of the `U`
units left takes `share u U A`, its proportion of what is left rounded down, and the last claim takes everything.

- one claim leaves at least its proportion (`left_mul_ge`) and less than one more (`left_mul_lt`);
- a run of claims (`payouts`, `rest`): what it pays and what it leaves add up to the pool (`sum_payouts`), the rate of
  the pool does not fall (`rate_le_rate_rest`), and after `k` claims it is too high by less than `k` for the units
  of any one claim (`mul_rate_rest_lt`);
- a larger pool pays every later claim at least as much (`payouts_mono`).
-/

namespace ProRata

/-- What a claim of `u` of the `U` units left takes from a pool of `A`. -/
def share (u U A : Nat) : Nat := if u = U then A else u * A / U

@[simp] theorem share_self (U A : Nat) : share U U A = A := if_pos rfl

theorem share_le {u U : Nat} (A : Nat) (h : u ≤ U) : share u U A ≤ A := by
  unfold share
  split
  · exact le_rfl
  · exact Nat.div_le_of_le_mul (Nat.mul_le_mul_right A h)

/-- A claim that is not the last leaves something of a pool that is not empty. -/
theorem share_lt {u U A : Nat} (h : u < U) (hA : 0 < A) : share u U A < A := by
  unfold share
  rw [if_neg (by omega), Nat.div_lt_iff_lt_mul (by omega), Nat.mul_comm A U]
  exact Nat.mul_lt_mul_of_pos_right h hA

/-- An empty remainder of units leaves an empty pool. -/
theorem rest_eq_zero {u U A : Nat} (h : u ≤ U) (hz : U - u = 0) : A - share u U A = 0 := by
  have : u = U := by omega
  subst this
  rw [share_self, Nat.sub_self]

/-! ## What a claim leaves -/

/-- What a claim of `u` of the `U` units left leaves of a pool of `A`. -/
def left (u U A : Nat) : Nat := A - share u U A

theorem share_add_left {u U : Nat} (A : Nat) (h : u ≤ U) : share u U A + left u U A = A :=
  Nat.add_sub_of_le (share_le A h)

/-- A claim takes at most its proportion of the pool. -/
theorem share_mul_le (u U A : Nat) : share u U A * U ≤ u * A := by
  unfold share
  split
  · rename_i h
    rw [h, Nat.mul_comm]
  · exact Nat.div_mul_le_self _ _

/-- A claim takes more than one less than its proportion of the pool. -/
theorem lt_share_mul {u U : Nat} (A : Nat) (h : u < U) : u * A < share u U A * U + U := by
  unfold share
  rw [if_neg (by omega)]
  have hm := Nat.mod_lt (u * A) (by omega : 0 < U)
  have hd := Nat.div_add_mod' (u * A) U
  omega

/-- What is left is at least its proportion of the pool. -/
theorem left_mul_ge {u U : Nat} (A : Nat) (h : u ≤ U) : A * (U - u) ≤ left u U A * U := by
  have ht := share_mul_le u U A
  have hs : share u U A * U + left u U A * U = A * U := by rw [← Nat.add_mul, share_add_left A h]
  rw [Nat.mul_sub, Nat.mul_comm A u]
  omega

/-- What is left is less than one more than its proportion of the pool. -/
theorem left_mul_lt {u U : Nat} (A : Nat) (h : u < U) : left u U A * U < A * (U - u) + U := by
  have ht := lt_share_mul A h
  have hs : share u U A * U + left u U A * U = A * U := by rw [← Nat.add_mul, share_add_left A h.le]
  have hle : u * A ≤ A * U := by rw [Nat.mul_comm]; exact Nat.mul_le_mul_left A h.le
  rw [Nat.mul_sub, Nat.mul_comm A u]
  omega

/-- A larger pool pays at least as much. -/
theorem share_mono {u U A A' : Nat} (h : A ≤ A') : share u U A ≤ share u U A' := by
  unfold share
  split
  · exact h
  · exact Nat.div_le_div_right (Nat.mul_le_mul_left u h)

/-- A larger pool is left with at least as much. -/
theorem left_mono {u U A A' : Nat} (hu : u ≤ U) (h : A ≤ A') : left u U A ≤ left u U A' := by
  unfold left share
  split
  · omega
  · rename_i hne
    have hU : 0 < U := by omega
    have hle : u * A' / U ≤ u * A / U + (A' - A) := by
      rw [← Nat.add_mul_div_right _ _ hU]
      refine Nat.div_le_div_right ?_
      have : u * (A' - A) ≤ (A' - A) * U := by rw [Nat.mul_comm]; exact Nat.mul_le_mul_left _ hu
      rw [Nat.mul_sub] at this
      have := Nat.mul_le_mul_left u h
      omega
    have := Nat.div_le_of_le_mul (Nat.mul_le_mul_right A hu)
    omega

/-! ## Runs of claims -/

/-- What the claims of a run take. -/
def payouts : List Nat → Nat → Nat → List Nat
  | [], _, _ => []
  | u :: us, U, A => share u U A :: payouts us (U - u) (left u U A)

/-- What a run of claims leaves. -/
def rest : List Nat → Nat → Nat → Nat
  | [], _, A => A
  | u :: us, U, A => rest us (U - u) (left u U A)

/-- The pool that stands behind one unit. -/
def rate (U A : Nat) : ℚ := A / U

variable {us vs : List Nat} {U A A' : Nat}

@[simp] theorem length_payouts : (payouts us U A).length = us.length := by
  induction us generalizing U A with
  | nil => rfl
  | cons u us ih => simp [payouts, ih]

theorem payouts_append (us vs : List Nat) (U A : Nat) :
    payouts (us ++ vs) U A = payouts us U A ++ payouts vs (U - us.sum) (rest us U A) := by
  induction us generalizing U A with
  | nil => rfl
  | cons u us ih =>
    simp only [List.cons_append, payouts, rest, List.sum_cons, ih]
    rw [Nat.sub_sub]

theorem rest_append (us vs : List Nat) (U A : Nat) :
    rest (us ++ vs) U A = rest vs (U - us.sum) (rest us U A) := by
  induction us generalizing U A with
  | nil => rfl
  | cons u us ih =>
    simp only [List.cons_append, rest, List.sum_cons, ih]
    rw [Nat.sub_sub]

/-- Nothing of the pool is lost. -/
theorem sum_payouts (h : us.sum ≤ U) : (payouts us U A).sum + rest us U A = A := by
  induction us generalizing U A with
  | nil => simp [payouts, rest]
  | cons u us ih =>
    rw [List.sum_cons] at h
    have hrest := ih (U := U - u) (A := left u U A) (by omega)
    have hshare := share_add_left A (show u ≤ U by omega)
    simp only [payouts, rest, List.sum_cons]
    omega

/-- Claims of all units leave nothing. -/
theorem rest_eq_zero_of_sum (hne : us ≠ []) (h : us.sum = U) : rest us U A = 0 := by
  induction us generalizing U A with
  | nil => exact absurd rfl hne
  | cons u us ih =>
    rw [List.sum_cons] at h
    cases us with
    | nil =>
      have : u = U := by simpa using h
      subst this
      simp [rest, left]
    | cons v us => exact ih (List.cons_ne_nil _ _) (by omega)

/-- Claims that are not of all units leave something of a pool that is not empty. -/
theorem rest_pos (h : us.sum < U) (hA : 0 < A) : 0 < rest us U A := by
  induction us generalizing U A with
  | nil => exact hA
  | cons u us ih =>
    rw [List.sum_cons] at h
    have hlt := share_lt (u := u) (U := U) (A := A) (by omega) hA
    exact ih (by omega) (by unfold left; omega)

/-- A run leaves at least the proportion of the units that are left. -/
theorem rest_mul_ge (h : us.sum ≤ U) : A * (U - us.sum) ≤ rest us U A * U := by
  induction us generalizing U A with
  | nil => simp [rest]
  | cons u us ih =>
    rw [List.sum_cons] at h ⊢
    rcases Nat.eq_zero_or_pos (U - u) with h0 | hpos
    · rw [show U - (u + us.sum) = 0 by omega, Nat.mul_zero]
      exact Nat.zero_le _
    · have hone := left_mul_ge A (show u ≤ U by omega)
      have hrun := ih (U := U - u) (A := left u U A) (by omega)
      rw [Nat.sub_sub] at hrun
      refine Nat.le_of_mul_le_mul_right (c := U - u) ?_ hpos
      calc A * (U - (u + us.sum)) * (U - u) = A * (U - u) * (U - (u + us.sum)) := by ring
        _ ≤ left u U A * U * (U - (u + us.sum)) := Nat.mul_le_mul_right _ hone
        _ = left u U A * (U - (u + us.sum)) * U := by ring
        _ ≤ rest us (U - u) (left u U A) * (U - u) * U := Nat.mul_le_mul_right _ hrun
        _ = rest us (U - u) (left u U A) * U * (U - u) := by ring

/-- The rate of the pool does not fall. -/
theorem rate_le_rate_rest (h : us.sum < U) : rate U A ≤ rate (U - us.sum) (rest us U A) := by
  have hU : (0 : ℚ) < U := by exact_mod_cast (by omega : 0 < U)
  have hV : (0 : ℚ) < (U - us.sum : Nat) := by exact_mod_cast (by omega : 0 < U - us.sum)
  unfold rate
  rw [div_le_div_iff₀ hU hV]
  exact_mod_cast rest_mul_ge (A := A) h.le

/-- A claim raises the rate by less than what one unit of the rest is worth. -/
theorem rate_left_lt {u : Nat} (h : u < U) : rate (U - u) (left u U A) < rate U A + 1 / (U - u : Nat) := by
  have hU : (0 : ℚ) < U := by exact_mod_cast (by omega : 0 < U)
  have hV : (0 : ℚ) < (U - u : Nat) := by exact_mod_cast (by omega : 0 < U - u)
  have hlt : (left u U A : ℚ) * U < A * (U - u : Nat) + U := by exact_mod_cast left_mul_lt A h
  unfold rate
  rw [div_add_div _ _ hU.ne' hV.ne', div_lt_div_iff₀ hV (mul_pos hU hV)]
  nlinarith

/-- After some claims, the rate is too high by less than one unit of payment for each of them, for whoever claims
next. -/
theorem mul_rate_rest_lt {w : Nat} (hne : us ≠ []) (hw : 0 < w) (h : us.sum + w ≤ U) :
    w * rate (U - us.sum) (rest us U A) < w * rate U A + us.length := by
  induction us generalizing U A with
  | nil => exact absurd rfl hne
  | cons u us ih =>
    rw [List.sum_cons] at h ⊢
    have hw' : (0 : ℚ) < w := by exact_mod_cast hw
    have hV : (0 : ℚ) < (U - u : Nat) := by exact_mod_cast (by omega : 0 < U - u)
    have hone : w * rate (U - u) (left u U A) < w * rate U A + 1 := by
      calc w * rate (U - u) (left u U A) < w * (rate U A + 1 / (U - u : Nat)) :=
            mul_lt_mul_of_pos_left (rate_left_lt (by omega)) hw'
        _ = w * rate U A + w / (U - u : Nat) := by ring
        _ ≤ w * rate U A + 1 := by
            have : (w : ℚ) ≤ (U - u : Nat) := by exact_mod_cast (by omega : w ≤ U - u)
            have := (div_le_one hV).mpr this
            linarith
    rw [← Nat.sub_sub, rest, List.length_cons]
    push_cast
    cases us with
    | nil => simpa [rest] using hone
    | cons v us =>
      have hrun := ih (U := U - u) (A := left u U A) (List.cons_ne_nil _ _) (by omega)
      linarith

/-- After any run, a claim is at least its proportion of the whole pool. -/
theorem le_share_rest {w : Nat} (hw : 0 < w) (h : us.sum + w ≤ U) :
    w * A / U ≤ share w (U - us.sum) (rest us U A) := by
  rw [Nat.div_le_iff_le_mul_add_pred (by omega)]
  have hone := Nat.mul_le_mul_left w (@rest_mul_ge us U A (by omega))
  generalize us.sum = S at *
  generalize rest us U A = R at *
  -- what is paid is the largest number below the proportion of the rest
  have hfloor : w * R < (share w (U - S) R + 1) * (U - S) := by
    rcases Nat.lt_or_eq_of_le (show w ≤ U - S by omega) with hlt | rfl
    · have := lt_share_mul R hlt
      rw [Nat.add_mul]
      omega
    · rw [share_self, Nat.mul_comm]
      exact Nat.mul_lt_mul_of_pos_right (Nat.lt_succ_self R) (by omega)
  have hmul : w * A * (U - S) < (share w (U - S) R + 1) * U * (U - S) := by
    calc w * A * (U - S) = w * (A * (U - S)) := by ring
      _ ≤ w * (R * U) := hone
      _ = w * R * U := by ring
      _ < (share w (U - S) R + 1) * (U - S) * U := Nat.mul_lt_mul_of_pos_right hfloor (by omega)
      _ = (share w (U - S) R + 1) * U * (U - S) := by ring
  have := Nat.lt_of_mul_lt_mul_right hmul
  rw [Nat.add_mul, Nat.mul_comm _ U] at this
  omega

/-- After a run, a claim is above its proportion of the whole pool by less than one for each claim of the run. -/
theorem share_rest_lt {w : Nat} (hw : 0 < w) (h : us.sum + w ≤ U) :
    (share w (U - us.sum) (rest us U A) : ℚ) < w * A / U + (max us.length 1 : Nat) := by
  have hV : (0 : ℚ) < (U - us.sum : Nat) := by exact_mod_cast (by omega : 0 < U - us.sum)
  have hrate : (w : ℚ) * rate U A = w * A / U := by unfold rate; ring
  have hpaid : (share w (U - us.sum) (rest us U A) : ℚ) ≤ w * rate (U - us.sum) (rest us U A) := by
    unfold rate
    rw [← mul_div_assoc, le_div_iff₀ hV]
    exact_mod_cast share_mul_le _ _ _
  refine hpaid.trans_lt ?_
  cases us with
  | nil => simp [rest, hrate]
  | cons u us =>
    have := mul_rate_rest_lt (A := A) (List.cons_ne_nil u us) hw h
    rw [hrate] at this
    rwa [show max (u :: us).length 1 = (u :: us).length by rw [List.length_cons]; omega]

/-- The same claim made after a run pays at least as much as before it. -/
theorem share_le_share_rest {w : Nat} (hpos : ∀ u ∈ us, 0 < u) (hw : 0 < w) (h : us.sum + w ≤ U) :
    share w U A ≤ share w (U - us.sum) (rest us U A) := by
  rcases Nat.lt_or_eq_of_le (show w ≤ U by omega) with hlt | rfl
  · have : w * A / U ≤ share w (U - us.sum) (rest us U A) := le_share_rest hw h
    rwa [share, if_neg (by omega)]
  · cases us with
    | nil => simp [rest]
    | cons u us =>
      have := hpos u List.mem_cons_self
      rw [List.sum_cons] at h
      omega

/-- A larger pool pays each claim of a run at least as much. -/
theorem payouts_mono (h : us.sum ≤ U) (hA : A ≤ A') : List.Forall₂ (· ≤ ·) (payouts us U A) (payouts us U A') := by
  induction us generalizing U A A' with
  | nil => exact .nil
  | cons u us ih =>
    rw [List.sum_cons] at h
    exact .cons (share_mono hA) (ih (by omega) (left_mono (by omega) hA))

/-! ## A claim in parts -/

/-- A claim in parts leaves at least as much as the claim as a whole. -/
theorem left_sum_le_rest (hne : us ≠ []) (h : us.sum ≤ U) : left us.sum U A ≤ rest us U A := by
  rcases Nat.lt_or_eq_of_le h with hlt | heq
  · -- the pool behind the rest is at least its proportion, so the parts take at most theirs
    have hsum := sum_payouts (A := A) h
    have hge := rest_mul_ge (A := A) h
    have hpaid : (payouts us U A).sum ≤ share us.sum U A := by
      unfold share
      rw [if_neg (by omega), Nat.le_div_iff_mul_le (by omega)]
      have hall : (payouts us U A).sum * U + rest us U A * U = A * U := by rw [← Nat.add_mul, hsum]
      rw [Nat.mul_sub, Nat.mul_comm A us.sum] at hge
      have : us.sum * A ≤ A * U := by rw [Nat.mul_comm]; exact Nat.mul_le_mul_left A h
      omega
    unfold left
    omega
  · rw [rest_eq_zero_of_sum hne heq]
    simp [left, heq]

theorem sum_payouts_le_share (hne : us ≠ []) (h : us.sum ≤ U) : (payouts us U A).sum ≤ share us.sum U A := by
  have hleft := left_sum_le_rest (A := A) hne h
  have hsum := sum_payouts (A := A) h
  have hshare := share_add_left A h
  omega

end ProRata
