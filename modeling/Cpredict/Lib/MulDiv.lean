import Mathlib.Tactic

/-!
# Products divided down and up

`mulDiv x y d` is `x * y / d` rounded down and `mulDivUp x y d` the same rounded up. The law that an escrow rests on is
`mulDivUp_add_mulDiv_le`: what is reserved (rounded up) for the part that is left and what is paid (rounded down, at a
price not above the reserved one) for the part that is taken fit together into what was reserved for the whole.
-/

namespace MulDiv

/-- `x * y / d`, rounded down. -/
def mulDiv (x y d : Nat) : Nat := x * y / d

/-- `x * y / d`, rounded up. -/
def mulDivUp (x y d : Nat) : Nat := x * y / d + if x * y % d = 0 then 0 else 1

variable {x y d : Nat}

theorem mulDiv_mul_le (x y d : Nat) : mulDiv x y d * d ≤ x * y := Nat.div_mul_le_self _ _

theorem mulDiv_le_of_le {x' y' : Nat} (hx : x ≤ x') (hy : y ≤ y') : mulDiv x y d ≤ mulDiv x' y' d :=
  Nat.div_le_div_right (Nat.mul_le_mul hx hy)

/-- A share of at most the whole is at most the whole. -/
theorem mulDiv_le_left (h : y ≤ d) : mulDiv x y d ≤ x := by
  rcases Nat.eq_zero_or_pos d with rfl | hd
  · simp [mulDiv]
  · unfold mulDiv
    exact (Nat.div_le_iff_le_mul_add_pred hd).mpr (by nlinarith)

/-- Rounding up is the least number whose multiple covers the product. -/
theorem mulDivUp_le_iff (hd : 0 < d) {c : Nat} : mulDivUp x y d ≤ c ↔ x * y ≤ c * d := by
  have hdm := Nat.div_add_mod (x * y) d
  have hlt := Nat.mod_lt (x * y) hd
  unfold mulDivUp
  constructor
  · intro h
    have hc := Nat.mul_le_mul_right d h
    rw [Nat.add_mul, Nat.mul_comm (x * y / d) d] at hc
    split at hc <;> omega
  · intro h
    split
    · rename_i h0
      rw [Nat.add_zero]
      exact (Nat.div_le_iff_le_mul_add_pred hd).mpr (by rw [Nat.mul_comm d c]; omega)
    · rename_i h0
      have hpos : 0 < x * y % d := Nat.pos_of_ne_zero h0
      exact (Nat.div_lt_iff_lt_mul hd).mpr (lt_of_le_of_ne h fun he => by
        rw [he, Nat.mul_mod_left] at h0
        exact h0 rfl)

theorem le_mulDivUp_mul (hd : 0 < d) : x * y ≤ mulDivUp x y d * d := (mulDivUp_le_iff hd).mp le_rfl

@[simp] theorem mulDivUp_zero (y d : Nat) : mulDivUp 0 y d = 0 := by simp [mulDivUp]

/-- What is left of a reserve covers the reserve of what is left: `a` units stay, `b` are paid at a price `q ≤ p`. -/
theorem mulDivUp_add_mulDiv_le (hd : 0 < d) {a b p q : Nat} (hq : q ≤ p) :
    mulDivUp a p d + mulDiv b q d ≤ mulDivUp (a + b) p d := by
  have hpaid : mulDiv b q d * d ≤ b * p := (mulDiv_mul_le b q d).trans (Nat.mul_le_mul_left b hq)
  have hall : (a + b) * p ≤ mulDivUp (a + b) p d * d := le_mulDivUp_mul hd
  have hle : mulDiv b q d ≤ mulDivUp (a + b) p d := by
    have : mulDiv b q d * d ≤ mulDivUp (a + b) p d * d := by nlinarith
    exact Nat.le_of_mul_le_mul_right this hd
  have hrest : mulDivUp a p d ≤ mulDivUp (a + b) p d - mulDiv b q d := by
    rw [mulDivUp_le_iff hd, Nat.sub_mul]
    have : a * p + b * p ≤ mulDivUp (a + b) p d * d := by rw [← Nat.add_mul]; exact hall
    omega
  omega

end MulDiv
