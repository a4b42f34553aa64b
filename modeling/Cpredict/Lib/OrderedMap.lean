import Mathlib.Data.List.Nodup
import Mathlib.Tactic.Common

/-!
# Maps that keep the order of insertion

A map as JavaScript has it: setting a new key puts it last, setting a key that is there leaves it in its place.
Restricted to some of the keys (`restrict`), a map is one by itself: what is read and set there is read and set in
the restriction (`get_restrict`, `restrict_set`), and what is set elsewhere leaves the restriction alone
(`restrict_set_other`). As the rows of a table under its primary key, entries are inserted where there are none
(`add`), and changed where there are (`modify`).
-/

structure OrderedMap (κ β : Type) where
  entries : List (κ × β)
deriving DecidableEq

namespace OrderedMap

variable {κ β : Type}

def empty : OrderedMap κ β := ⟨[]⟩

def values (m : OrderedMap κ β) : List β := m.entries.map Prod.snd

/-- The part of a map with some of the keys. -/
def restrict (p : κ → Bool) (m : OrderedMap κ β) : OrderedMap κ β := ⟨m.entries.filter fun x => p x.1⟩

theorem nodup_restrict {m : OrderedMap κ β} (hn : (m.entries.map Prod.fst).Nodup) (p : κ → Bool) :
    ((restrict p m).entries.map Prod.fst).Nodup :=
  hn.sublist (List.filter_sublist.map Prod.fst)

variable [DecidableEq κ]

def get (m : OrderedMap κ β) (k : κ) : Option β := (m.entries.find? fun x => decide (x.1 = k)).map Prod.snd

def has (m : OrderedMap κ β) (k : κ) : Bool := m.entries.any fun x => decide (x.1 = k)

/-- The value of an entry is changed if its key is the given one. -/
def put (k : κ) (v : β) (x : κ × β) : κ × β := if x.1 = k then (k, v) else x

def set (m : OrderedMap κ β) (k : κ) (v : β) : OrderedMap κ β :=
  if m.has k = true then ⟨m.entries.map (put k v)⟩ else ⟨m.entries ++ [(k, v)]⟩

/-- A new entry, unless the key has one. -/
def add (m : OrderedMap κ β) (k : κ) (v : β) : OrderedMap κ β := if m.has k = true then m else m.set k v

/-- The entry of a key, if there is one, is changed. -/
def modify (m : OrderedMap κ β) (k : κ) (f : β → β) : OrderedMap κ β :=
  ⟨m.entries.map fun x => if x.1 = k then (x.1, f x.2) else x⟩

section

variable {m : OrderedMap κ β} {k : κ} {v : β} {p : κ → Bool}

theorem put_fst (k : κ) (v : β) (x : κ × β) : (put k v x).1 = x.1 := by
  unfold put
  split
  · rename_i h
    exact h.symm
  · rfl

theorem put_of_ne {x : κ × β} (h : x.1 ≠ k) : put k v x = x := if_neg h

theorem has_restrict (h : p k = true) : (restrict p m).has k = m.has k := by
  unfold has restrict
  rw [List.any_filter, Bool.eq_iff_iff, List.any_eq_true, List.any_eq_true]
  constructor
  · rintro ⟨x, hx, hk⟩
    exact ⟨x, hx, (Bool.and_eq_true_iff.mp hk).2⟩
  · rintro ⟨x, hx, hk⟩
    refine ⟨x, hx, Bool.and_eq_true_iff.mpr ⟨?_, hk⟩⟩
    rw [of_decide_eq_true hk, h]

/-- What is read of the restriction. -/
theorem get_restrict (h : p k = true) : (restrict p m).get k = m.get k := by
  unfold get restrict
  rw [List.find?_filter]
  congr 2
  funext x
  by_cases hx : x.1 = k
  · simp [hx, h]
  · simp [hx]

theorem restrict_map_put (p : κ → Bool) (k : κ) (v : β) (l : List (κ × β)) :
    (l.map (put k v)).filter (fun x => p x.1) = (l.filter fun x => p x.1).map (put k v) := by
  rw [List.filter_map]
  congr 2
  funext x
  exact congrArg p (put_fst k v x)

/-- What is set of the restriction. -/
theorem restrict_set (h : p k = true) : restrict p (m.set k v) = (restrict p m).set k v := by
  unfold set
  rw [has_restrict h]
  split
  · unfold restrict
    rw [restrict_map_put]
  · have hone : [(k, v)].filter (fun x => p x.1) = [(k, v)] := List.filter_cons_of_pos h
    unfold restrict
    rw [List.filter_append, hone]

/-- What is set elsewhere. -/
theorem restrict_set_other (h : p k = false) : restrict p (m.set k v) = restrict p m := by
  unfold set
  split
  · have hsame : ∀ x ∈ m.entries.filter fun x => p x.1, put k v x = x := by
      intro x hx
      apply put_of_ne
      intro hk
      have hp := (List.mem_filter.mp hx).2
      rw [hk, h] at hp
      cases hp
    unfold restrict
    rw [restrict_map_put, List.map_congr_left hsame, List.map_id']
  · have hnone : [(k, v)].filter (fun x => p x.1) = [] := by simp [h]
    unfold restrict
    rw [List.filter_append, hnone, List.append_nil]

/-- What is inserted of the restriction. -/
theorem restrict_add (h : p k = true) : restrict p (m.add k v) = (restrict p m).add k v := by
  unfold add
  rw [has_restrict h]
  split
  · rfl
  · exact restrict_set h

/-- What is inserted elsewhere. -/
theorem restrict_add_other (h : p k = false) : restrict p (m.add k v) = restrict p m := by
  unfold add
  split
  · rfl
  · exact restrict_set_other h

/-- What is changed of the restriction. -/
theorem restrict_modify (f : β → β) : restrict p (m.modify k f) = (restrict p m).modify k f := by
  unfold restrict modify
  rw [List.filter_map]
  congr 2
  apply List.filter_congr
  intro x _
  dsimp only [Function.comp]
  split <;> rfl

/-- What is changed elsewhere. -/
theorem restrict_modify_other (h : p k = false) (f : β → β) : restrict p (m.modify k f) = restrict p m := by
  have hsame : ∀ x ∈ m.entries.filter fun x => p x.1, (if x.1 = k then (x.1, f x.2) else x) = x := by
    intro x hx
    refine if_neg fun hk => ?_
    have hp := (List.mem_filter.mp hx).2
    rw [hk, h] at hp
    cases hp
  rw [restrict_modify]
  unfold restrict modify
  rw [List.map_congr_left hsame, List.map_id']

/-- What was set is read. -/
theorem get_set_self (m : OrderedMap κ β) (k : κ) (v : β) : (m.set k v).get k = some v := by
  unfold get set
  split
  · rename_i hk
    obtain ⟨x, hx, hxk⟩ := List.any_eq_true.mp hk
    have hcomp : ((fun x : κ × β => decide (x.1 = k)) ∘ put k v) = fun x => decide (x.1 = k) := by
      funext y
      exact congrArg (fun z => decide (z = k)) (put_fst k v y)
    rw [List.find?_map, hcomp]
    cases hf : m.entries.find? fun x => decide (x.1 = k) with
    | none => exact absurd hxk (List.find?_eq_none.mp hf x hx)
    | some y =>
      have hy : y.1 = k := by simpa using List.find?_some hf
      simp [put, hy]
  · rename_i hk
    have hnone : m.entries.find? (fun x => decide (x.1 = k)) = none :=
      List.find?_eq_none.mpr fun x hx hxk => hk (List.any_eq_true.mpr ⟨x, hx, hxk⟩)
    rw [List.find?_append, hnone]
    simp

/-- What was not set is read as before. -/
theorem get_set_of_ne {k' : κ} (m : OrderedMap κ β) (v : β) (h : k' ≠ k) : (m.set k v).get k' = m.get k' := by
  have hone := restrict_set_other (m := m) (k := k) (v := v) (p := fun x => decide (x = k'))
    (decide_eq_false (Ne.symm h))
  have hget : ∀ l : OrderedMap κ β, (l.restrict fun x => decide (x = k')).get k' = l.get k' :=
    fun l => get_restrict (decide_eq_true rfl)
  rw [← hget, hone, hget]

theorem mem_set {x : κ × β} (h : x ∈ (m.set k v).entries) : x ∈ m.entries ∨ x = (k, v) := by
  unfold set at h
  split at h
  · obtain ⟨y, hy, rfl⟩ := List.mem_map.mp h
    unfold put
    split
    · exact .inr rfl
    · exact .inl hy
  · rcases List.mem_append.mp h with hx | hx
    · exact .inl hx
    · exact .inr (List.mem_singleton.mp hx)

theorem get_mem (h : m.get k = some v) : (k, v) ∈ m.entries := by
  unfold get at h
  obtain ⟨x, hx, rfl⟩ := Option.map_eq_some_iff.mp h
  have hk : x.1 = k := by simpa using List.find?_some hx
  rw [← hk]
  exact List.mem_of_find?_eq_some hx

theorem get_eq_some (hn : (m.entries.map Prod.fst).Nodup) : m.get k = some v ↔ (k, v) ∈ m.entries := by
  refine ⟨get_mem, fun h => ?_⟩
  unfold get
  cases hf : m.entries.find? fun x => decide (x.1 = k) with
  | none => exact absurd (decide_eq_true rfl) (List.find?_eq_none.mp hf (k, v) h)
  | some x =>
    have hk : x.1 = k := by simpa using List.find?_some hf
    rw [List.inj_on_of_nodup_map hn (List.mem_of_find?_eq_some hf) h hk]
    rfl

theorem nodup_set (hn : (m.entries.map Prod.fst).Nodup) (k : κ) (v : β) : ((m.set k v).entries.map Prod.fst).Nodup := by
  unfold set
  split
  · have hsame : (m.entries.map (put k v)).map Prod.fst = m.entries.map Prod.fst := by
      rw [List.map_map]
      exact List.map_congr_left fun x _ => put_fst k v x
    rw [hsame]
    exact hn
  · rename_i hk
    rw [List.map_append, List.nodup_append]
    refine ⟨hn, List.pairwise_singleton _ k, ?_⟩
    intro a ha b hb hab
    obtain ⟨x, hx, rfl⟩ := List.mem_map.mp ha
    rw [List.map_singleton, List.mem_singleton] at hb
    exact hk (List.any_eq_true.mpr ⟨x, hx, decide_eq_true (hab.trans hb)⟩)

end

end OrderedMap
