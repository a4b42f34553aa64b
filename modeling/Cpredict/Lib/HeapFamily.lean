import Cpredict.Lib.IndexedHeap

/-!
# Heaps under keys with one common index

Several heaps, one for each key, share one map of offsets: an element is in at most one of them. `filed x k` says
that `x` is filed under `k`, and `Family` that every heap holds exactly the elements filed under its key, in order, and
that the offset of an element filed under no key is zero. Inserting an element under a key and removing one from the
heap of its key keep this (`Family.insert`, `Family.remove`).
-/

set_option linter.unusedSectionVars false

namespace IndexedHeap

variable {α ι κ : Type} [DecidableEq α] [DecidableEq ι] [LinearOrder κ]

/-- The heap of every key holds, in the order of its rank, the elements filed under the key; the index is common. -/
structure Family (heaps : ι → Slots α) (offset : α → Nat) (filed : α → ι → Prop) (r : ι → α → κ) : Prop where
  functional : ∀ x k l, filed x k → filed x l → k = l
  holds : ∀ k, Holds ⟨heaps k, offset⟩ {x | filed x k}
  ordered : ∀ k, Ordered (r k) (heaps k)
  absent : ∀ x, (∀ k, ¬filed x k) → offset x = 0

namespace Family

variable {heaps : ι → Slots α} {offset : α → Nat} {filed filed' : α → ι → Prop} {r r' : ι → α → κ}

theorem congr (h : Family heaps offset filed r) (hf : ∀ x k, filed' x k ↔ filed x k)
    (hr : ∀ k x, filed x k → r' k x = r k x) : Family heaps offset filed' r' where
  functional := fun x k l hk hl => h.functional x k l ((hf x k).mp hk) ((hf x l).mp hl)
  holds := fun k => by
    have he : {x | filed' x k} = {x | filed x k} := Set.ext fun x => hf x k
    rw [he]; exact h.holds k
  ordered := fun k i h0 hi => by
    have hp := parent_lt (i := i) (by omega)
    rw [hr k _ ((h.holds k).mem _ hi), hr k _ ((h.holds k).mem _ (show parent i < (heaps k).length by omega))]
    exact h.ordered k i h0 hi
  absent := fun x hx => h.absent x fun k hk => hx k ((hf x k).mpr hk)

/-- Empty heaps, with nothing filed. -/
theorem empty {slots : ι → Slots α} (hl : ∀ k, (slots k).length = 0) (hf : ∀ x k, ¬filed x k) (h0 : ∀ x, offset x = 0) :
    Family slots offset filed r where
  functional := fun x k _ hk _ => absurd hk (hf x k)
  holds := fun k => ⟨fun i hi => absurd hi (by simp [hl]), fun x hx => absurd hx (hf x k),
    fun i hi => absurd hi (by simp [hl])⟩
  ordered := fun k i _ hi => absurd hi (by simp [hl])
  absent := fun x _ => h0 x

/-- An element is in some heap iff its offset is not zero. -/
theorem offset_ne_zero_iff (h : Family heaps offset filed r) (x : α) : offset x ≠ 0 ↔ ∃ k, filed x k := by
  constructor
  · intro h0
    by_contra hne
    exact h0 (h.absent x fun k hk => hne ⟨k, hk⟩)
  · rintro ⟨k, hk⟩
    exact ((h.holds k).offset_of_mem hk).1

/-- The first slot of the heap of `k` holds the element filed under `k` that is ranked first. -/
theorem top (h : Family heaps offset filed r) {k : ι} (hl : (heaps k).length ≠ 0) :
    filed ((heaps k).slot 0) k ∧ ∀ x, filed x k → r k ((heaps k).slot 0) ≤ r k x := by
  refine ⟨(h.holds k).mem 0 (by simp only; omega), fun x hx => ?_⟩
  obtain ⟨i, hi, rfl⟩ := (h.holds k).slot x hx
  exact (h.ordered k).top_le (r k) i hi

theorem length_eq_zero_iff (h : Family heaps offset filed r) (k : ι) : (heaps k).length = 0 ↔ ∀ x, ¬filed x k := by
  rw [(h.holds k).empty_iff, Set.eq_empty_iff_forall_notMem]
  rfl

/-- Filing an element under a key and inserting it into the heap of the key. -/
theorem insert (better : α → α → Bool) (h : Family heaps offset filed r) {x : α} {k : ι} (hx : ∀ l, ¬filed x l)
    (hb : Agrees better (r k) (Insert.insert x {y | filed y k})) :
    Family (Function.update heaps k (insertInto better ⟨heaps k, offset⟩ x).heap)
      (insertInto better ⟨heaps k, offset⟩ x).offset (fun y l => filed y l ∨ y = x ∧ l = k) r := by
  obtain ⟨hh, ho, hf⟩ := insertInto_spec hb (h.holds k) (h.ordered k) (hx k)
  have hset : {y | filed y k ∨ y = x ∧ k = k} = Insert.insert x {y | filed y k} := by
    ext y; simp only [Set.mem_ofPred_eq, Set.mem_insert_iff, and_true]; tauto
  have hother : ∀ l, l ≠ k → ∀ y, filed y l → (insertInto better ⟨heaps k, offset⟩ x).offset y = offset y := by
    intro l hl y hy
    refine hf y ?_
    rintro (rfl | hm)
    · exact hx l hy
    · exact hl (h.functional y l k hy hm)
  constructor
  · rintro y l m (hl | ⟨rfl, rfl⟩) (hm | ⟨hyx, rfl⟩)
    · exact h.functional y l m hl hm
    · exact absurd (hyx ▸ hl) (hx l)
    · exact absurd hm (hx m)
    · rfl
  · intro l
    by_cases hl : l = k
    · subst hl
      rw [Function.update_self, hset]
      exact hh
    · rw [Function.update_of_ne hl]
      have hsetl : {y | filed y l ∨ y = x ∧ l = k} = {y | filed y l} := by ext y; simp [hl]
      rw [hsetl]
      exact ⟨(h.holds l).mem, (h.holds l).slot, fun i hi => by
        simp only
        rw [hother l hl _ ((h.holds l).mem i hi)]
        exact (h.holds l).offset i hi⟩
  · intro l
    by_cases hl : l = k
    · subst hl; rw [Function.update_self]; exact ho
    · rw [Function.update_of_ne hl]; exact h.ordered l
  · intro y hy
    rw [hf y (by
      rintro (rfl | hm)
      · exact hy k (Or.inr ⟨rfl, rfl⟩)
      · exact hy k (Or.inl hm))]
    exact h.absent y fun l hl => hy l (Or.inl hl)

/-- Taking an element out of the heap of its key. -/
theorem remove {better : α → α → Bool} (h : Family heaps offset filed r) {x : α} {k : ι} (hx : filed x k)
    (hb : Agrees better (r k) {y | filed y k}) :
    ∃ t, removeFrom better ⟨heaps k, offset⟩ x = some t ∧
      Family (Function.update heaps k t.heap) t.offset (fun y l => filed y l ∧ y ≠ x) r := by
  obtain ⟨t, ht, hh, ho, h0, hf⟩ := removeFrom_spec hb (h.holds k) (h.ordered k) hx
  refine ⟨t, ht, ?_⟩
  have hother : ∀ l, l ≠ k → ∀ y, filed y l → t.offset y = offset y := fun l hl y hy =>
    hf y fun hm => hl (h.functional y l k hy hm)
  constructor
  · exact fun y l m hl hm => h.functional y l m hl.1 hm.1
  · intro l
    by_cases hl : l = k
    · subst hl
      rw [Function.update_self]
      exact hh
    · rw [Function.update_of_ne hl]
      have hsetl : {y | filed y l ∧ y ≠ x} = {y | filed y l} := by
        ext y
        exact ⟨fun hy => hy.1, fun hy => ⟨hy, fun e => hl (h.functional x l k (e ▸ hy) hx)⟩⟩
      rw [hsetl]
      exact ⟨(h.holds l).mem, (h.holds l).slot, fun i hi => by
        simp only
        rw [hother l hl _ ((h.holds l).mem i hi)]
        exact (h.holds l).offset i hi⟩
  · intro l
    by_cases hl : l = k
    · subst hl; rw [Function.update_self]; exact ho
    · rw [Function.update_of_ne hl]; exact h.ordered l
  · intro y hy
    by_cases hyx : y = x
    · rw [hyx]; exact h0
    · rw [hf y fun hm => hy k ⟨hm, hyx⟩]
      exact h.absent y fun l hl => hy l ⟨hl, hyx⟩

/-- Taking an element out of the heap of its key, or looking there for an element that is filed nowhere. -/
theorem take (better : α → α → Bool) (h : Family heaps offset filed r) {x : α} {k : ι} (hx : ∀ l, filed x l → l = k)
    (hb : Agrees better (r k) {y | filed y k}) :
    ∃ t, removeFrom better ⟨heaps k, offset⟩ x = some t ∧
      Family (Function.update heaps k t.heap) t.offset (fun y l => filed y l ∧ y ≠ x) r := by
  by_cases hk : filed x k
  · exact h.remove hk hb
  · have hnone : ∀ l, ¬filed x l := fun l hl => hk (hx l hl ▸ hl)
    refine ⟨_, removeFrom_absent (h.absent x hnone), ?_⟩
    rw [Function.update_eq_self]
    exact h.congr (fun y l => ⟨fun hy => hy.1, fun hy => ⟨hy, fun e => hnone l (e ▸ hy)⟩⟩) fun _ _ _ => rfl

end Family

end IndexedHeap
