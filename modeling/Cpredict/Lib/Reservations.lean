import Cpredict.Lib.Table

/-!
# Usage tables

Items are reserved, and then committed or released. A usage table has a row for every key under which items are
counted, with what is reserved and what is committed under this key (`Tracks`). Opening a row, reserving an item and
ending a reservation keep the table right, whatever is counted: the amounts may be of any commutative group, and a
table that counts a tuple counts each part (`Tracks.map`).
-/

namespace Reservations

open Table

inductive Phase
  | reserved
  | committed
  | released
deriving DecidableEq

variable {α ρ κ ι M N : Type} [DecidableEq κ] [DecidableEq ι] [AddCommGroup M] [AddCommGroup N]

/-- What an item contributes to a key in a phase. -/
def share (belongs : α → κ) (phase : α → Phase) (v : α → M) (p : Phase) (k : κ) (a : α) : M :=
  if belongs a = k then if phase a = p then v a else 0 else 0

/-- The rows hold the totals of the items. -/
structure Tracks (key : ρ → κ) (reserved committed : ρ → M) (belongs : α → κ) (phase : α → Phase) (v : α → M)
    (rows : List ρ)
    (items : List α) : Prop where
  nodup : (rows.map key).Nodup
  found : ∀ a ∈ items, (find key (belongs a) rows).isSome
  reserved : ∀ r ∈ rows, reserved r = (items.map (share belongs phase v .reserved (key r))).sum
  committed : ∀ r ∈ rows, committed r = (items.map (share belongs phase v .committed (key r))).sum

section

variable {key : ρ → κ} {reserved committed : ρ → M} {belongs : α → κ} {phase : α → Phase} {v : α → M} {rows : List ρ}
  {items : List α}
  {p : Phase} {k : κ} {a : α} {r : ρ}

theorem share_self : share belongs phase v p (belongs a) a = if phase a = p then v a else 0 := if_pos rfl

theorem share_other (h : belongs a ≠ k) : share belongs phase v p k a = 0 := if_neg h

theorem share_nonneg [Preorder M] (h : 0 ≤ v a) : 0 ≤ share belongs phase v p k a := by
  unfold share
  split
  · split
    · exact h
    · exact le_refl 0
  · exact le_refl 0

theorem sum_share_of_absent (h : ∀ a ∈ items, belongs a ≠ k) (p : Phase) :
    (items.map (share belongs phase v p k)).sum = 0 := by
  have hzero : items.map (share belongs phase v p k) = items.map fun _ => 0 :=
    List.map_congr_left fun a ha => share_other (h a ha)
  rw [hzero]
  simp

theorem Tracks.start (key : ρ → κ) (reserved committed : ρ → M) (belongs : α → κ) (phase : α → Phase) (v : α → M) :
    Tracks key reserved committed belongs phase v [] [] := ⟨List.nodup_nil, by simp, by simp, by simp⟩

/-- A row without amounts is opened. -/
theorem Tracks.openRow (h : Tracks key reserved committed belongs phase v rows items) (hr : reserved r = 0)
    (hc : committed r = 0) :
    Tracks key reserved committed belongs phase v (insertNew key r rows) items := by
  have habsent : find key (key r) rows = none → ∀ a ∈ items, belongs a ≠ key r := by
    intro hnone a ha he
    have := h.found a ha
    rw [he, hnone] at this
    cases this
  refine ⟨nodup_insertNew h.nodup r, fun a ha => isSome_find_of_insertNew (h.found a ha), ?_, ?_⟩
  · intro q hq
    rcases mem_insertNew hq with hq | ⟨rfl, hnone⟩
    · exact h.reserved q hq
    · rw [hr, sum_share_of_absent (habsent hnone)]
  · intro q hq
    rcases mem_insertNew hq with hq | ⟨rfl, hnone⟩
    · exact h.committed q hq
    · rw [hc, sum_share_of_absent (habsent hnone)]

/-- An item is reserved under a key that has a row. -/
theorem Tracks.reserve (h : Tracks key reserved committed belongs phase v rows items) {f : ρ → ρ}
    (hkey : ∀ r, key (f r) = key r)
    (hrow : (find key (belongs a) rows).isSome) (hphase : phase a = .reserved)
    (hr : ∀ r, reserved (f r) = reserved r + v a)
    (hc : ∀ r, committed (f r) = committed r) :
    Tracks key reserved committed belongs phase v (update key (belongs a) f rows) (items ++ [a]) := by
  refine ⟨?_, ?_, ?_, ?_⟩
  · rw [map_key_update _ hkey]
    exact h.nodup
  · intro b hb
    rw [isSome_find_update _ hkey]
    rcases List.mem_append.mp hb with hb | hb
    · exact h.found b hb
    · rw [List.mem_singleton.mp hb]
      exact hrow
  · intro r hr'
    obtain ⟨q, hq, rfl⟩ := mem_update.mp hr'
    have hold := h.reserved q hq
    rw [List.map_append, List.sum_append, List.map_singleton, List.sum_singleton]
    by_cases hk : key q = belongs a
    · rw [if_pos hk, hr, hkey, hk, share_self, if_pos hphase, hold, hk]
    · rw [if_neg hk, share_other (Ne.symm hk), add_zero, hold]
  · intro r hr'
    obtain ⟨q, hq, rfl⟩ := mem_update.mp hr'
    have hold := h.committed q hq
    have hnot : ¬phase a = .committed := by simp [hphase]
    rw [List.map_append, List.sum_append, List.map_singleton, List.sum_singleton]
    by_cases hk : key q = belongs a
    · rw [if_pos hk, hc, hkey, hk, share_self, if_neg hnot, add_zero, hold, hk]
    · rw [if_neg hk, share_other (Ne.symm hk), add_zero, hold]

/-- A reservation ends: it is committed, or released. -/
theorem Tracks.finish (h : Tracks key reserved committed belongs phase v rows items) {f : ρ → ρ}
    (hkey : ∀ r, key (f r) = key r)
    {id : α → ι} (hn : (items.map id).Nodup) (ha : find id (id a) items = some a) (hphase : phase a = .reserved) {b : α}
    (hb : belongs b = belongs a) (hv : v b = v a) (hend : phase b ≠ .reserved)
    (hr : ∀ r, reserved (f r) = reserved r - v a)
    (hc : ∀ r, committed (f r) = committed r + if phase b = .committed then v a else 0) :
    Tracks key reserved committed belongs phase v (update key (belongs a) f rows)
      (update id (id a) (fun _ => b) items) := by
  have hnot : ¬phase a = .committed := by simp [hphase]
  refine ⟨?_, ?_, ?_, ?_⟩
  · rw [map_key_update _ hkey]
    exact h.nodup
  · intro c hc'
    rw [isSome_find_update _ hkey]
    obtain ⟨q, hq, rfl⟩ := mem_update.mp hc'
    split
    · rw [hb]
      exact h.found a (mem_of_find ha).1
    · exact h.found q hq
  · intro r hr'
    obtain ⟨q, hq, rfl⟩ := mem_update.mp hr'
    have hold := h.reserved q hq
    rw [sum_map_update _ hn ha]
    by_cases hk : key q = belongs a
    · rw [if_pos hk, hr, hkey, hk, share_self, if_pos hphase, ← hb, share_self, if_neg hend, add_zero, hold, hk, hb]
    · rw [if_neg hk, share_other (Ne.symm hk), share_other (hb ▸ Ne.symm hk), sub_zero, add_zero, hold]
  · intro r hr'
    obtain ⟨q, hq, rfl⟩ := mem_update.mp hr'
    have hold := h.committed q hq
    rw [sum_map_update _ hn ha]
    by_cases hk : key q = belongs a
    · rw [if_pos hk, hc, hkey, hk, share_self, if_neg hnot, sub_zero, ← hb, share_self, hv, hold, hk, hb]
    · rw [if_neg hk, share_other (Ne.symm hk), share_other (hb ▸ Ne.symm hk), sub_zero, add_zero, hold]

theorem map_share (φ : M →+ N) (p : Phase) (k : κ) (items : List α) :
    φ (items.map (share belongs phase v p k)).sum = (items.map (share belongs phase (fun a => φ (v a)) p k)).sum := by
  rw [map_list_sum, List.map_map]
  congr 1
  refine List.map_congr_left fun a _ => ?_
  unfold share
  simp only [Function.comp]
  split
  · split
    · rfl
    · exact map_zero φ
  · exact map_zero φ

/-- A part of what is counted is counted. -/
theorem Tracks.map (h : Tracks key reserved committed belongs phase v rows items) (φ : M →+ N) :
    Tracks key (fun r => φ (reserved r)) (fun r => φ (committed r)) belongs phase (fun a => φ (v a)) rows items where
  nodup := h.nodup
  found := h.found
  reserved r hr := by rw [h.reserved r hr, map_share]
  committed r hr := by rw [h.committed r hr, map_share]

/-- Amounts that are not negative make columns that are not negative. -/
theorem Tracks.nonneg [PartialOrder M] [IsOrderedAddMonoid M]
    (h : Tracks key reserved committed belongs phase v rows items)
    (hv : ∀ a ∈ items, 0 ≤ v a) (hr : r ∈ rows) : 0 ≤ reserved r ∧ 0 ≤ committed r := by
  have hshare : ∀ p, 0 ≤ (items.map (share belongs phase v p (key r))).sum := by
    intro p
    refine List.sum_nonneg ?_
    intro x hx
    obtain ⟨a, ha, rfl⟩ := List.mem_map.mp hx
    exact share_nonneg (hv a ha)
  rw [h.reserved r hr, h.committed r hr]
  exact ⟨hshare .reserved, hshare .committed⟩

/-- Rows with finer keys add up to the totals under a coarser key. -/
theorem sum_rows (hn : (rows.map key).Nodup) (hf : ∀ a ∈ items, (find key (belongs a) rows).isSome) {τ : Type}
    [DecidableEq τ]
    (coarse : κ → τ) {total : ρ → M} (ht : ∀ r ∈ rows, total r = (items.map (share belongs phase v p (key r))).sum)
    (d : τ) :
    (rows.map fun r => if coarse (key r) = d then total r else 0).sum =
      (items.map (share (fun a => coarse (belongs a)) phase v p d)).sum := by
  rw [← sum_groups hn belongs (share (fun a => coarse (belongs a)) phase v p d) hf]
  congr 1
  refine List.map_congr_left fun r hr => ?_
  split
  case isTrue hd =>
    rw [ht r hr]
    congr 1
    refine List.map_congr_left fun a _ => ?_
    by_cases hk : belongs a = key r
    · simp [share, hk, hd]
    · simp [share, hk]
  case isFalse hd =>
    have hzero : (items.map fun a => if belongs a = key r then share (fun a => coarse (belongs a)) phase v
      p d a else 0) =
        items.map fun _ => 0 := by
      refine List.map_congr_left fun a _ => ?_
      by_cases hk : belongs a = key r
      · simp [share, hk, hd]
      · simp [hk]
    rw [hzero]
    simp

end

end Reservations
