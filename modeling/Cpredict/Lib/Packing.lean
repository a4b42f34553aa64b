import Mathlib.Tactic

/-!
# Two halves in one word

A word of `2 * w` bits holds a low half (bits `0` to `w - 1`) and a high half (bits `w` to `2 * w - 1`).
-/

namespace Packing

/-- The word with the given halves. -/
def pack (w lo hi : Nat) : Nat := lo ||| (hi <<< w)

/-- The low half. -/
def low (w x : Nat) : Nat := x &&& (2 ^ w - 1)

/-- The high half. -/
def high (w x : Nat) : Nat := x >>> w

theorem pack_eq {w lo : Nat} (h : lo < 2 ^ w) (hi : Nat) : pack w lo hi = 2 ^ w * hi + lo := by
  unfold pack
  rw [Nat.or_comm, ← Nat.shiftLeft_add_eq_or_of_lt h, Nat.shiftLeft_eq, Nat.mul_comm]

theorem low_eq (w x : Nat) : low w x = x % 2 ^ w := Nat.and_two_pow_sub_one_eq_mod x w

theorem high_eq (w x : Nat) : high w x = x / 2 ^ w := Nat.shiftRight_eq_div_pow x w

/-- The halves do not leak into each other. -/
@[simp] theorem low_pack {w lo : Nat} (h : lo < 2 ^ w) (hi : Nat) : low w (pack w lo hi) = lo := by
  rw [low_eq, pack_eq h, Nat.mul_add_mod, Nat.mod_eq_of_lt h]

@[simp] theorem high_pack {w lo : Nat} (h : lo < 2 ^ w) (hi : Nat) : high w (pack w lo hi) = hi := by
  rw [high_eq, pack_eq h, Nat.mul_add_div (by positivity), Nat.div_eq_of_lt h, Nat.add_zero]

@[simp] theorem low_zero (w : Nat) : low w 0 = 0 := by simp [low]

@[simp] theorem high_zero (w : Nat) : high w 0 = 0 := by simp [high]

end Packing
