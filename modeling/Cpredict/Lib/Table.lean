import Mathlib.Algebra.BigOperators.Group.List.Basic
import Mathlib.Tactic

/-!
# Tables with a primary key

The rows of a table in the order of insertion, each under its own key. A row is found by its key, changed under its
key, and inserted if its key is new. When a row changes, the totals over the table change by what the row
contributes (`sum_map_update`), and totals over the rows that belong to each row of another table add up to the
total over all of them (`sum_groups`).
-/

namespace Table

variable {ρ κ M : Type} [DecidableEq κ] (key : ρ → κ)

/-- `SELECT .. WHERE key = k` -/
def find (k : κ) (t : List ρ) : Option ρ := t.find? fun r => decide (key r = k)

/-- `UPDATE .. WHERE key = k` -/
def update (k : κ) (f : ρ → ρ) (t : List ρ) : List ρ := t.map fun r => if key r = k then f r else r

/-- `INSERT .. ON CONFLICT DO NOTHING` -/
def insertNew (r : ρ) (t : List ρ) : List ρ := if (find key (key r) t).isSome then t else t ++ [r]

variable {key} {t : List ρ} {r : ρ} {k : κ} {f : ρ → ρ}

theorem find_eq_none : find key k t = none ↔ ∀ r ∈ t, key r ≠ k := by simp [find]

theorem mem_of_find (h : find key k t = some r) : r ∈ t ∧ key r = k :=
  ⟨List.mem_of_find?_eq_some h, by simpa using List.find?_some h⟩

theorem isSome_find : (find key k t).isSome ↔ ∃ r ∈ t, key r = k := by simp [find]

theorem find_of_mem (hn : (t.map key).Nodup) (h : r ∈ t) : find key (key r) t = some r := by
  cases hf : find key (key r) t with
  | none => exact absurd rfl (find_eq_none.mp hf r h)
  | some r' =>
    obtain ⟨hm, hk⟩ := mem_of_find hf
    rw [List.inj_on_of_nodup_map hn hm h hk]

/-- Rows keep their keys when they change. -/
theorem map_key_update (key : ρ → κ) (hf : ∀ r, key (f r) = key r) (k : κ) (t : List ρ) :
    (update key k f t).map key = t.map key := by
  unfold update
  rw [List.map_map]
  refine List.map_congr_left fun r _ => ?_
  dsimp only [Function.comp]
  split
  · exact hf r
  · rfl

theorem mem_update : r ∈ update key k f t ↔ ∃ q ∈ t, r = if key q = k then f q else q := by
  unfold update
  rw [List.mem_map]
  constructor
  · rintro ⟨q, hq, rfl⟩
    exact ⟨q, hq, rfl⟩
  · rintro ⟨q, hq, rfl⟩
    exact ⟨q, hq, rfl⟩

theorem find_update (hf : ∀ r, key (f r) = key r) (k k' : κ) (t : List ρ) :
    find key k' (update key k f t) = (find key k' t).map fun r => if key r = k then f r else r := by
  unfold find update
  rw [List.find?_map]
  congr 2
  funext r
  dsimp only [Function.comp]
  split
  · rw [hf]
  · rfl

theorem isSome_find_update (key : ρ → κ) (hf : ∀ r, key (f r) = key r) (k k' : κ) (t : List ρ) :
    (find key k' (update key k f t)).isSome = (find key k' t).isSome := by rw [find_update hf, Option.isSome_map]

/-! ## Insertion -/

theorem nodup_insertNew (hn : (t.map key).Nodup) (r : ρ) : ((insertNew key r t).map key).Nodup := by
  unfold insertNew
  split
  · exact hn
  · rename_i h
    rw [isSome_find] at h
    push Not at h
    rw [List.map_append, List.nodup_append]
    refine ⟨hn, List.nodup_singleton _, ?_⟩
    simp only [List.mem_map, List.map_cons, List.map_nil, List.mem_singleton]
    rintro _ ⟨q, hq, rfl⟩ _ rfl
    exact h q hq

theorem isSome_find_insertNew (key : ρ → κ) (r : ρ) (t : List ρ) : (find key (key r) (insertNew key r t)).isSome := by
  unfold insertNew
  split
  · assumption
  · simp [find]

theorem mem_insertNew {q : ρ} (h : q ∈ insertNew key r t) : q ∈ t ∨ q = r ∧ find key (key r) t = none := by
  unfold insertNew at h
  split at h
  · exact .inl h
  · rename_i hn
    rw [List.mem_append, List.mem_singleton] at h
    rcases h with h | rfl
    · exact .inl h
    · exact .inr ⟨rfl, by simpa using hn⟩

theorem isSome_find_of_insertNew (h : (find key k t).isSome) : (find key k (insertNew key r t)).isSome := by
  unfold insertNew
  split
  · exact h
  · rw [isSome_find] at h ⊢
    obtain ⟨q, hq, hk⟩ := h
    exact ⟨q, List.mem_append_left _ hq, hk⟩

/-! ## Totals -/

section

variable [AddCommGroup M] (g : ρ → M)

/-- A row that changes takes its old contribution out of a total and puts its new one in. -/
theorem sum_map_update (hn : (t.map key).Nodup) (h : find key k t = some r) :
    ((update key k f t).map g).sum = (t.map g).sum - g r + g (f r) := by
  induction t with
  | nil => cases h
  | cons q t ih =>
    rw [List.map_cons, List.nodup_cons] at hn
    by_cases hq : key q = k
    · have hqr : q = r := by
        have hfind : find key k (q :: t) = some q := by simp [find, hq]
        rw [hfind] at h
        exact Option.some.inj h
      have hrest : update key k f t = t := by
        unfold update
        refine (List.map_congr_left fun p hp => if_neg ?_).trans (List.map_id t)
        rintro rfl
        exact hn.1 (hq ▸ List.mem_map_of_mem hp)
      have hcons : update key k f (q :: t) = f q :: update key k f t := by simp [update, hq]
      rw [hcons, hrest, List.map_cons, List.sum_cons, List.map_cons, List.sum_cons, hqr]
      abel
    · have hfind : find key k (q :: t) = find key k t := by simp [find, hq]
      have hcons : update key k f (q :: t) = q :: update key k f t := by simp [update, hq]
      rw [hfind] at h
      rw [hcons, List.map_cons, List.sum_cons, List.map_cons, List.sum_cons, ih hn.2 h]
      abel

/-- In a total over a table only the row of a key counts for this key. -/
theorem sum_single (hn : (t.map key).Nodup) (h : (find key k t).isSome) (v : M) :
    (t.map fun r => if k = key r then v else 0).sum = v := by
  induction t with
  | nil => cases h
  | cons q t ih =>
    rw [List.map_cons, List.nodup_cons] at hn
    rw [List.map_cons, List.sum_cons]
    by_cases hq : k = key q
    · have hzero : (t.map fun p => if k = key p then v else 0) = t.map fun _ => 0 := by
        refine List.map_congr_left fun p hp => if_neg ?_
        intro he
        exact hn.1 (hq.symm.trans he ▸ List.mem_map_of_mem hp)
      rw [if_pos hq, hzero]
      simp
    · have hfind : find key k (q :: t) = find key k t := by simp [find, Ne.symm hq]
      rw [hfind] at h
      rw [if_neg hq, ih hn.2 h, zero_add]

/-- A total over rows, each of which belongs to one row of a table, is the sum of the totals of the rows of the
table. -/
theorem sum_groups {α : Type} (hn : (t.map key).Nodup) (belongs : α → κ) (v : α → M) {items : List α}
    (h : ∀ a ∈ items, (find key (belongs a) t).isSome) :
    (t.map fun r => (items.map fun a => if belongs a = key r then v a else 0).sum).sum = (items.map v).sum := by
  induction items with
  | nil => simp
  | cons a items ih =>
    have hone := sum_single hn (h a List.mem_cons_self) (v a)
    have hsplit : (t.map fun r => ((a :: items).map fun a => if belongs a = key r then v a else 0).sum).sum =
        (t.map fun r => if belongs a = key r then v a else 0).sum +
          (t.map fun r => (items.map fun a => if belongs a = key r then v a else 0).sum).sum := by
      rw [← List.sum_map_add]
      simp
    rw [hsplit, hone, ih fun b hb => h b (List.mem_cons_of_mem a hb), List.map_cons, List.sum_cons]

end

/-- Items under different ids, each of which is covered by a row of its own, total no more than the rows. -/
theorem sum_le_of_covered {α ι : Type} [DecidableEq ρ] [AddCommGroup M] [PartialOrder M] [IsOrderedAddMonoid M]
    {items : List α}
    {f : α → M} {g : ρ → M} (id : α → ι) (id' : ρ → ι) (hn : (items.map id).Nodup) (hg : ∀ r ∈ t, 0 ≤ g r)
    (h : ∀ a ∈ items, ∃ r ∈ t, id' r = id a ∧ f a ≤ g r) : (items.map f).sum ≤ (t.map g).sum := by
  induction items generalizing t with
  | nil =>
    refine List.sum_nonneg ?_
    intro x hx
    obtain ⟨r, hr, rfl⟩ := List.mem_map.mp hx
    exact hg r hr
  | cons a items ih =>
    rw [List.map_cons, List.nodup_cons] at hn
    obtain ⟨r, hr, hk, hle⟩ := h a List.mem_cons_self
    have hrest : (items.map f).sum ≤ ((t.erase r).map g).sum := by
      refine ih hn.2 (fun q hq => hg q (List.mem_of_mem_erase hq)) ?_
      intro b hb
      obtain ⟨q, hq, hk', hle'⟩ := h b (List.mem_cons_of_mem a hb)
      have hne : q ≠ r := by
        rintro rfl
        exact hn.1 (hk.symm.trans hk' ▸ List.mem_map_of_mem hb)
      exact ⟨q, (List.mem_erase_of_ne hne).mpr hq, hk', hle'⟩
    have hperm : (t.map g).sum = g r + ((t.erase r).map g).sum := ((List.perm_cons_erase hr).map g).sum_eq
    rw [List.map_cons, List.sum_cons, hperm]
    exact add_le_add hle hrest

end Table
