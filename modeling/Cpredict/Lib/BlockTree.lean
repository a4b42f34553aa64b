import Mathlib.Tactic

/-!
# Blocks and their parent chains

Every block has a number and a parent, one number below. A chain is named by its last block: `blockAt h n` is the
block with number `n` on the chain that ends in `h`, and `On g h` says that `g` lies on that chain. A block fixes
the chain below it (`On.blockAt_eq`).
-/

namespace BlockTree

structure Blocks (H : Type) where
  number : H → Nat
  parent : H → H
  number_parent : ∀ h, number h ≠ 0 → number (parent h) + 1 = number h

variable {H : Type} (T : Blocks H)

/-- The block with a number on the chain that ends in `h`. -/
def blockAt (h : H) (n : Nat) : Option H := if n ≤ T.number h then some (T.parent^[T.number h - n] h) else none

/-- `g` lies on the chain that ends in `h`. -/
def On (g h : H) : Prop := blockAt T h (T.number g) = some g

instance [DecidableEq H] (g h : H) : Decidable (On T g h) := inferInstanceAs (Decidable (_ = _))

variable {T}

theorem number_iterate {h : H} {k : Nat} (hk : k ≤ T.number h) : T.number (T.parent^[k] h) + k = T.number h := by
  induction k with
  | zero => rfl
  | succ k ih =>
    have hi := ih (by omega)
    have hp := T.number_parent (T.parent^[k] h) (by omega)
    rw [Function.iterate_succ_apply']
    omega

theorem number_blockAt {h g : H} {n : Nat} (he : blockAt T h n = some g) : T.number g = n := by
  unfold blockAt at he
  split at he
  · cases he
    have := number_iterate (T := T) (h := h) (k := T.number h - n) (by omega)
    omega
  · cases he

theorem le_of_blockAt {h g : H} {n : Nat} (he : blockAt T h n = some g) : n ≤ T.number h := by
  unfold blockAt at he
  split at he
  · assumption
  · cases he

theorem exists_blockAt {h : H} {n : Nat} (hn : n ≤ T.number h) : ∃ g, blockAt T h n = some g := ⟨_, if_pos hn⟩

/-- The chain that ends in a block of a chain is the lower part of that chain. -/
theorem blockAt_blockAt {h g : H} {m n : Nat} (he : blockAt T h n = some g) (hm : m ≤ n) :
    blockAt T g m = blockAt T h m := by
  have hn := le_of_blockAt he
  have hg := number_blockAt he
  unfold blockAt at he ⊢
  rw [if_pos hn] at he
  rw [if_pos (by omega), if_pos (by omega), hg, ← Option.some.inj he, ← Function.iterate_add_apply]
  congr 2
  omega

theorem On.refl (h : H) : On T h h := by simp [On, blockAt]

theorem on_of_blockAt {h g : H} {n : Nat} (he : blockAt T h n = some g) : On T g h := by
  rw [On, number_blockAt he]
  exact he

theorem On.number_le {g h : H} (hg : On T g h) : T.number g ≤ T.number h := le_of_blockAt hg

theorem On.blockAt_eq {g h : H} (hg : On T g h) {n : Nat} (hn : n ≤ T.number g) : blockAt T g n = blockAt T h n :=
  blockAt_blockAt hg hn

theorem On.trans {f g h : H} (hf : On T f g) (hg : On T g h) : On T f h := by
  rw [On, ← hg.blockAt_eq hf.number_le]
  exact hf

/-- Of two blocks of a chain the lower one lies below the other. -/
theorem On.of_le {f g h : H} (hf : On T f h) (hg : On T g h) (hn : T.number f ≤ T.number g) : On T f g := by
  rw [On, hg.blockAt_eq hn]
  exact hf

theorem on_parent {g : H} (hn : T.number g ≠ 0) : On T (T.parent g) g := by
  have hp := T.number_parent g hn
  have hk : T.number g - T.number (T.parent g) = 1 := by omega
  rw [On, blockAt, if_pos (by omega), hk, Function.iterate_one]

end BlockTree
