import Mathlib.Data.List.Lex
import Mathlib.Data.Nat.Digits.Lemmas
import Mathlib.Tactic

/-!
# Texts of hexadecimal digits

A number in base 16 with leading zeros (`hexText`), and how such texts are ordered: by their characters, which is
`<` on lists, or by the rules of a locale (`Collation`), which may take several characters for one letter.
-/

namespace HexText

/-- The digits of a number, at least `length` of them. -/
def hexText (length n : Nat) : List (Fin 16) :=
  List.replicate (length - (Nat.digits 16 n).length) 0 ++ (Nat.digits 16 n).reverse.map (Fin.ofNat 16)

theorem hexText_injective (length : Nat) : Function.Injective (hexText length) := by
  intro m n h
  have hdigit : ∀ d < 16, (Fin.ofNat 16 d).val = d := fun d hd => Nat.mod_eq_of_lt hd
  have hdigits : ∀ k, ((Nat.digits 16 k).reverse.map (Fin.ofNat 16)).map Fin.val = (Nat.digits 16 k).reverse := by
    intro k
    rw [List.map_map]
    refine (List.map_congr_left fun d hd => ?_).trans (List.map_id _)
    exact hdigit d (Nat.digits_lt_base (by decide) (List.mem_reverse.mp hd))
  have hvalue : ∀ k, Nat.ofDigits 16 ((hexText length k).map Fin.val).reverse = k := by
    intro k
    rw [hexText, List.map_append, hdigits, List.reverse_append, List.reverse_reverse, Nat.ofDigits_append,
      Nat.ofDigits_digits, List.map_replicate, List.reverse_replicate]
    simp [Nat.ofDigits_replicate_zero]
  rw [← hvalue m, h, hvalue n]

theorem hexText_length {length n : Nat} (h : n < 16 ^ length) : (hexText length n).length = length := by
  have hdigits : (Nat.digits 16 n).length ≤ length := (Nat.digits_length_le_iff (by decide) n).mpr h
  rw [hexText, List.length_append, List.length_replicate, List.length_map, List.length_reverse]
  omega

/-- How a locale orders texts: by keys, which no two texts share. -/
structure Collation (K : Type) where
  sortKey : List (Fin 16) → K
  injective : Function.Injective sortKey

namespace Collation

variable {K : Type} [LinearOrder K] (locale : Collation K) (s t : List (Fin 16))

/-- The locale orders texts of one length as `<` does. -/
def ByCharacter : Prop := ∀ s t : List (Fin 16), s.length = t.length → (locale.sortKey s < locale.sortKey t ↔ s < t)

/-- `s.localeCompare(t)` -/
def localeCompare : Int :=
  if locale.sortKey s < locale.sortKey t then -1 else if locale.sortKey s = locale.sortKey t then 0 else 1

theorem localeCompare_cases :
    locale.sortKey s < locale.sortKey t ∧ locale.localeCompare s t = -1 ∨
      locale.sortKey s = locale.sortKey t ∧ locale.localeCompare s t = 0 ∨
        locale.sortKey t < locale.sortKey s ∧ locale.localeCompare s t = 1 := by
  unfold localeCompare
  rcases lt_trichotomy (locale.sortKey s) (locale.sortKey t) with h | h | h
  · exact .inl ⟨h, if_pos h⟩
  · exact .inr (.inl ⟨h, by rw [if_neg h.not_lt, if_pos h]⟩)
  · exact .inr (.inr ⟨h, by rw [if_neg h.not_gt, if_neg h.ne']⟩)

theorem localeCompare_le : locale.localeCompare s t ≤ 0 ↔ locale.sortKey s ≤ locale.sortKey t := by
  rcases locale.localeCompare_cases s t with ⟨h, he⟩ | ⟨h, he⟩ | ⟨h, he⟩
  · simp [he, h.le]
  · simp [he, h]
  · simp [he, h.not_ge]

end Collation

end HexText
