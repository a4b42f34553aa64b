import Mathlib.Order.Basic
import Mathlib.Tactic

/-!
# Binary heaps with an index

A heap kept in a growable array, and for every element its offset in the array, counted from one; offset zero says
that the element is in no heap. Elements go in at the end and sift up (`insertInto`); an element anywhere in the heap
is taken out by moving the last one into its place, which then sifts up or down (`removeFrom`).

`Holds s M`: the array holds the elements of `M`, each once, and the offsets are the inverse of the array.
`Ordered r h`: every slot is ranked at or after its parent, for a rank `r` into a linear order. The comparison that
the sifts call, `better`, only has to agree with the rank on the elements held (`Agrees`). The results: both
operations keep the two properties (`insertInto_spec`, `removeFrom_spec`), touch no offset of an element that is not
in the heap, and the first slot of an ordered heap is ranked first (`Ordered.top_le`).
-/

set_option linter.unusedSectionVars false

namespace IndexedHeap

/-- A growable array: its length and its slots. -/
structure Slots (α : Type) where
  length : Nat
  slot : Nat → α

/-- A heap and the offsets of its elements. -/
structure Indexed (α : Type) where
  heap : Slots α
  offset : α → Nat

variable {α : Type} [DecidableEq α]

def Slots.push (h : Slots α) (x : α) : Slots α := ⟨h.length + 1, Function.update h.slot h.length x⟩

def Slots.pop (h : Slots α) : Slots α := ⟨h.length - 1, h.slot⟩

/-- Exchange two slots and record where their elements are now. -/
def swap (s : Indexed α) (a b : Nat) : Indexed α where
  heap := ⟨s.heap.length, Function.update (Function.update s.heap.slot a (s.heap.slot b)) b (s.heap.slot a)⟩
  offset := Function.update (Function.update s.offset (s.heap.slot b) (a + 1)) (s.heap.slot a) (b + 1)

/-- The slot above slot `i`. -/
def parent (i : Nat) : Nat := (i - 1) / 2

variable (better : α → α → Bool)

/-- Move slot `i` up while it is better than its parent. The fuel is the number of slots above it, `i` at most. -/
def siftUp : Nat → Indexed α → Nat → Indexed α
  | 0, s, _ => s
  | n + 1, s, i =>
    if i ≠ 0 ∧ better (s.heap.slot i) (s.heap.slot (parent i)) = true then siftUp n (swap s i (parent i)) (parent i)
    else s

/-- The better child of slot `i`. -/
def child (h : Slots α) (i : Nat) : Nat :=
  if 2 * i + 2 < h.length ∧ better (h.slot (2 * i + 2)) (h.slot (2 * i + 1)) = true then 2 * i + 2 else 2 * i + 1

/-- Move slot `i` down while its better child is better than it. The fuel is the number of slots from it to the end. -/
def siftDown : Nat → Indexed α → Nat → Indexed α
  | 0, s, _ => s
  | n + 1, s, i =>
    if 2 * i + 1 < s.heap.length then
      if better (s.heap.slot (child better s.heap i)) (s.heap.slot i) = true then
        siftDown n (swap s i (child better s.heap i)) (child better s.heap i)
      else s
    else s

/-- Push `x` and sift it up. -/
def insertInto (s : Indexed α) (x : α) : Indexed α :=
  siftUp better s.heap.length ⟨s.heap.push x, Function.update s.offset x (s.heap.length + 1)⟩ s.heap.length

/-- Sift slot `i` to its place, whichever way it goes. -/
def sift (s : Indexed α) (i : Nat) : Indexed α :=
  if i ≠ 0 ∧ better (s.heap.slot i) (s.heap.slot (parent i)) = true then siftUp better i s i
  else siftDown better s.heap.length s i

/-- Take the element of slot `i` out: the last element takes its place. -/
def dropSlot (s : Indexed α) (x : α) (i : Nat) : Indexed α :=
  let t := if i = s.heap.length - 1 then s else swap s i (s.heap.length - 1)
  ⟨t.heap.pop, Function.update t.offset x 0⟩

/-- Take `x` out of the heap if it is there. There is no result where the array would be read past its end. -/
def removeFrom (s : Indexed α) (x : α) : Option (Indexed α) :=
  if s.offset x = 0 then some s
  else
    let i := s.offset x - 1
    if i < s.heap.length then
      let t := dropSlot s x i
      if i < t.heap.length then some (sift better t i) else some t
    else none

/-! ## Which elements a heap holds -/

/-- The array holds the elements of `M`, each once, and the offsets are its one-based inverse. -/
structure Holds (s : Indexed α) (M : Set α) : Prop where
  mem : ∀ i < s.heap.length, s.heap.slot i ∈ M
  slot : ∀ x ∈ M, ∃ i < s.heap.length, s.heap.slot i = x
  offset : ∀ i < s.heap.length, s.offset (s.heap.slot i) = i + 1

namespace Holds

variable {s : Indexed α} {M : Set α}

theorem inj (h : Holds s M) {i j : Nat} (hi : i < s.heap.length) (hj : j < s.heap.length)
    (he : s.heap.slot i = s.heap.slot j) : i = j := by
  have := h.offset i hi
  rw [he, h.offset j hj] at this
  omega

/-- The offset of an element leads to it. -/
theorem offset_of_mem (h : Holds s M) {x : α} (hx : x ∈ M) :
    s.offset x ≠ 0 ∧ s.offset x - 1 < s.heap.length ∧ s.heap.slot (s.offset x - 1) = x := by
  obtain ⟨i, hi, rfl⟩ := h.slot x hx
  rw [h.offset i hi]
  exact ⟨by omega, by simpa using hi, by simp⟩

theorem length_pos (h : Holds s M) {x : α} (hx : x ∈ M) : 0 < s.heap.length := by
  obtain ⟨i, hi, _⟩ := h.slot x hx
  omega

theorem empty_iff (h : Holds s M) : s.heap.length = 0 ↔ M = ∅ := by
  constructor
  · intro h0
    refine Set.eq_empty_of_forall_notMem fun x hx => ?_
    have := h.length_pos hx
    omega
  · rintro rfl
    by_contra h0
    exact h.mem 0 (by omega)

/-- The slots after a swap. -/
theorem swap_slot (s : Indexed α) (a b k : Nat) :
    (swap s a b).heap.slot k =
      if k = b then s.heap.slot a else if k = a then s.heap.slot b else s.heap.slot k := by
  simp only [swap, Function.update_apply]

@[simp] theorem swap_length (s : Indexed α) (a b : Nat) : (swap s a b).heap.length = s.heap.length := rfl

theorem swap_offset (s : Indexed α) (a b : Nat) (x : α) :
    (swap s a b).offset x =
      if x = s.heap.slot a then b + 1 else if x = s.heap.slot b then a + 1 else s.offset x := by
  simp only [swap, Function.update_apply]

/-- A swap moves two elements and loses none. -/
theorem swap (h : Holds s M) {a b : Nat} (ha : a < s.heap.length) (hb : b < s.heap.length) :
    Holds (swap s a b) M where
  mem := fun i hi => by
    rw [swap_length] at hi
    rw [swap_slot]
    split
    · exact h.mem a ha
    · split
      · exact h.mem b hb
      · exact h.mem i hi
  slot := fun x hx => by
    obtain ⟨i, hi, rfl⟩ := h.slot x hx
    by_cases hia : i = a
    · exact ⟨b, hb, by rw [swap_slot, if_pos rfl, hia]⟩
    · by_cases hib : i = b
      · refine ⟨a, ha, ?_⟩
        rw [swap_slot]
        split
        · rename_i hab; rw [hib, hab]
        · rw [if_pos rfl, hib]
      · exact ⟨i, hi, by rw [swap_slot, if_neg hib, if_neg hia]⟩
  offset := fun i hi => by
    rw [swap_length] at hi
    rw [swap_slot, swap_offset]
    by_cases hib : i = b
    · simp [hib]
    · by_cases hia : i = a
      · subst hia
        rw [if_neg hib, if_pos rfl]
        split
        · rename_i he; exact absurd (h.inj hb hi he) (fun e => hib e.symm)
        · rw [if_pos rfl]
      · rw [if_neg hib, if_neg hia]
        rw [if_neg (fun he => hia (h.inj hi ha he)), if_neg (fun he => hib (h.inj hi hb he))]
        exact h.offset i hi

/-- Pushing an element the heap does not hold. -/
theorem push (h : Holds s M) {x : α} (hx : x ∉ M) :
    Holds ⟨s.heap.push x, Function.update s.offset x (s.heap.length + 1)⟩ (insert x M) where
  mem := fun i hi => by
    simp only [Slots.push, Function.update_apply] at hi ⊢
    split
    · exact Set.mem_insert _ _
    · exact Set.mem_insert_of_mem _ (h.mem i (by omega))
  slot := fun y hy => by
    rcases hy with rfl | hy
    · exact ⟨s.heap.length, by simp [Slots.push], by simp [Slots.push]⟩
    · obtain ⟨i, hi, rfl⟩ := h.slot y hy
      exact ⟨i, by simp [Slots.push]; omega, by simp [Slots.push, Function.update_apply]; omega⟩
  offset := fun i hi => by
    simp only [Slots.push, Function.update_apply] at hi ⊢
    by_cases hl : i = s.heap.length
    · simp [hl]
    · have hi' : i < s.heap.length := by omega
      rw [if_neg hl, if_neg (fun he : s.heap.slot i = x => hx (he ▸ h.mem i hi'))]
      exact h.offset i hi'

/-- Dropping the last element. -/
theorem pop (h : Holds s M) (hl : 0 < s.heap.length) :
    Holds ⟨s.heap.pop, Function.update s.offset (s.heap.slot (s.heap.length - 1)) 0⟩
      (M \ {s.heap.slot (s.heap.length - 1)}) where
  mem := fun i hi => by
    simp only [Slots.pop] at hi ⊢
    refine ⟨h.mem i (by omega), fun he => ?_⟩
    have := h.inj (by omega) (by omega) he
    omega
  slot := fun y hy => by
    obtain ⟨i, hi, rfl⟩ := h.slot y hy.1
    have hne : i ≠ s.heap.length - 1 := fun he => hy.2 (by rw [he]; rfl)
    exact ⟨i, by simp only [Slots.pop]; omega, rfl⟩
  offset := fun i hi => by
    simp only [Slots.pop, Function.update_apply] at hi ⊢
    rw [if_neg (fun he => by have := h.inj (by omega) (by omega) he; omega)]
    exact h.offset i (by omega)

end Holds

/-! ## The order of a heap -/

section Order

variable {κ : Type} [LinearOrder κ] (r : α → κ)

/-- Every slot is ranked at or after its parent. -/
def Ordered (h : Slots α) : Prop := ∀ i, 0 < i → i < h.length → r (h.slot (parent i)) ≤ r (h.slot i)

theorem parent_lt {i : Nat} (h : i ≠ 0) : parent i < i := by unfold parent; omega

/-- The first slot of an ordered heap is ranked first. -/
theorem Ordered.top_le {h : Slots α} (ho : Ordered r h) : ∀ i, i < h.length → r (h.slot 0) ≤ r (h.slot i) := by
  intro i
  induction i using Nat.strong_induction_on with
  | _ i ih =>
    intro hi
    rcases Nat.eq_zero_or_pos i with rfl | hpos
    · exact le_rfl
    · have hp := parent_lt (i := i) (by omega)
      exact (ih _ hp (by omega)).trans (ho i hpos hi)

/-- In order but for slot `i`, which may have to move up: the slots below it are ranked at or after its parent. -/
structure UpTo (h : Slots α) (i : Nat) : Prop where
  rest : ∀ j, 0 < j → j < h.length → j ≠ i → r (h.slot (parent j)) ≤ r (h.slot j)
  grand : i ≠ 0 → ∀ j, 0 < j → j < h.length → parent j = i → r (h.slot (parent i)) ≤ r (h.slot j)

/-- In order but for slot `i`, which may have to move down: the slots below it are ranked at or after its parent. -/
structure DownFrom (h : Slots α) (i : Nat) : Prop where
  rest : ∀ j, 0 < j → j < h.length → parent j ≠ i → r (h.slot (parent j)) ≤ r (h.slot j)
  grand : i ≠ 0 → ∀ j, 0 < j → j < h.length → parent j = i → r (h.slot (parent i)) ≤ r (h.slot j)

variable {r}

/-- An element exchanged with a parent ranked after it. -/
theorem UpTo.swap {s : Indexed α} {i : Nat} (u : UpTo r s.heap i) (hi : i ≠ 0) (hl : i < s.heap.length)
    (hlt : r (s.heap.slot i) < r (s.heap.slot (parent i))) : UpTo r (swap s i (parent i)).heap (parent i) := by
  have hp := parent_lt hi
  have hup : parent i ≠ 0 → r (s.heap.slot (parent (parent i))) ≤ r (s.heap.slot (parent i)) := fun h0 =>
    u.rest (parent i) (by omega) (by omega) (by omega)
  constructor
  · intro j hj0 hj hjp
    rw [Holds.swap_length] at hj
    rw [Holds.swap_slot, Holds.swap_slot, if_neg hjp]
    by_cases hji : j = i
    · rw [if_pos hji, hji, if_pos rfl]; exact hlt.le
    · rw [if_neg hji]
      by_cases hpp : parent j = parent i
      · rw [if_pos hpp]
        have := u.rest j hj0 hj hji
        rw [hpp] at this
        exact hlt.le.trans this
      · rw [if_neg hpp]
        by_cases hpi : parent j = i
        · rw [if_pos hpi]; exact u.grand hi j hj0 hj hpi
        · rw [if_neg hpi]; exact u.rest j hj0 hj hji
  · intro h0 j hj0 hj hpj
    rw [Holds.swap_length] at hj
    have hpp := parent_lt h0
    have hjp := parent_lt (i := j) (by omega)
    rw [Holds.swap_slot, Holds.swap_slot, if_neg (by omega), if_neg (by omega), if_neg (by omega)]
    by_cases hji : j = i
    · rw [if_pos hji]; exact hup h0
    · rw [if_neg hji]
      have := u.rest j hj0 hj hji
      rw [hpj] at this
      exact (hup h0).trans this

/-- An element exchanged with the first-ranked of its children, which is ranked before it. -/
theorem DownFrom.swap {s : Indexed α} {i c : Nat} (d : DownFrom r s.heap i) (hc : 0 < c) (hl : c < s.heap.length)
    (hpc : parent c = i) (hlt : r (s.heap.slot c) < r (s.heap.slot i))
    (hmin : ∀ j, 0 < j → j < s.heap.length → parent j = i → r (s.heap.slot c) ≤ r (s.heap.slot j)) :
    DownFrom r (swap s i c).heap c := by
  have hic : i < c := hpc ▸ parent_lt (by omega)
  constructor
  · intro j hj0 hj hpj
    rw [Holds.swap_length] at hj
    rw [Holds.swap_slot, Holds.swap_slot, if_neg hpj]
    by_cases hjc : j = c
    · rw [if_pos hjc, hjc, hpc, if_pos rfl]; exact hlt.le
    · rw [if_neg hjc]
      by_cases hji : j = i
      · have h0 : i ≠ 0 := by omega
        have hpi : parent j ≠ i := by have := parent_lt (i := j) (by omega); omega
        rw [if_neg hpi, if_pos hji, hji]
        exact d.grand h0 c hc hl hpc
      · rw [if_neg hji]
        by_cases hpi : parent j = i
        · rw [if_pos hpi]; exact hmin j hj0 hj hpi
        · rw [if_neg hpi]; exact d.rest j hj0 hj hpi
  · intro _ j hj0 hj hpj
    rw [Holds.swap_length] at hj
    have hjp := parent_lt (i := j) (by omega)
    rw [Holds.swap_slot, Holds.swap_slot, hpc, if_neg (by omega), if_pos rfl, if_neg (by omega), if_neg (by omega)]
    have := d.rest j hj0 hj (by omega)
    rwa [hpj] at this

end Order

/-! ## The sifts -/

section Sift

variable {κ : Type} [LinearOrder κ] {r : α → κ} {better} {M : Set α}

/-- The comparison agrees with the rank on the elements held. -/
def Agrees (better : α → α → Bool) (r : α → κ) (M : Set α) : Prop :=
  ∀ x ∈ M, ∀ y ∈ M, better x y = true ↔ r x < r y

/-- What the operations leave alone: the length, and the offsets of the elements the heap does not hold. -/
structure Moved (s t : Indexed α) (M : Set α) : Prop where
  length : t.heap.length = s.heap.length
  holds : Holds t M
  frame : ∀ x, x ∉ M → t.offset x = s.offset x

theorem Moved.swap {s : Indexed α} (h : Holds s M) {a b : Nat} (ha : a < s.heap.length) (hb : b < s.heap.length) :
    Moved s (swap s a b) M where
  length := rfl
  holds := h.swap ha hb
  frame := fun x hx => by
    rw [Holds.swap_offset, if_neg (fun e : x = _ => hx (e ▸ h.mem a ha)), if_neg (fun e : x = _ => hx (e ▸ h.mem b hb))]

theorem Moved.trans {s t u : Indexed α} (h₁ : Moved s t M) (h₂ : Moved t u M) : Moved s u M :=
  ⟨h₂.length.trans h₁.length, h₂.holds, fun x hx => (h₂.frame x hx).trans (h₁.frame x hx)⟩

/-- Sifting up puts the heap in order. -/
theorem siftUp_spec (hb : Agrees better r M) : ∀ (n : Nat) (s : Indexed α) (i : Nat), i ≤ n → i < s.heap.length →
    Holds s M → UpTo r s.heap i → Moved s (siftUp better n s i) M ∧ Ordered r (siftUp better n s i).heap
  | 0, s, i, hn, hl, h, u => by
    have h0 : i = 0 := by omega
    subst h0
    exact ⟨⟨rfl, h, fun _ _ => rfl⟩, fun j hj0 hj => u.rest j hj0 hj (by omega)⟩
  | n + 1, s, i, hn, hl, h, u => by
    have hagree := fun hi : i ≠ 0 => hb _ (h.mem i hl) _ (h.mem (parent i) (by have := parent_lt hi; omega))
    rw [siftUp]
    split
    · rename_i hc
      have hp := parent_lt hc.1
      have hm : Moved s (swap s i (parent i)) M := Moved.swap h hl (by omega)
      have ih := siftUp_spec hb n (swap s i (parent i)) (parent i) (by omega) (by rw [hm.length]; omega) hm.holds
        (u.swap hc.1 hl ((hagree hc.1).mp hc.2))
      exact ⟨hm.trans ih.1, ih.2⟩
    · rename_i hc
      refine ⟨⟨rfl, h, fun _ _ => rfl⟩, fun j hj0 hj => ?_⟩
      by_cases hji : j = i
      · subst hji
        have hne : j ≠ 0 := by omega
        exact not_lt.mp fun hlt => hc ⟨hne, (hagree hne).mpr hlt⟩
      · exact u.rest j hj0 hj hji

theorem child_lt (better : α → α → Bool) {h : Slots α} {i : Nat} (hi : 2 * i + 1 < h.length) :
    child better h i < h.length := by
  unfold child
  split <;> omega

theorem child_pos (better : α → α → Bool) (h : Slots α) (i : Nat) : 0 < child better h i := by
  unfold child
  split <;> omega

theorem parent_child (better : α → α → Bool) (h : Slots α) (i : Nat) : parent (child better h i) = i := by
  unfold child parent
  split <;> omega

/-- The child chosen is ranked at or before both children. -/
theorem child_min (hb : Agrees better r M) {s : Indexed α} (h : Holds s M) {i j : Nat} (hi : 2 * i + 1 < s.heap.length)
    (hj0 : 0 < j) (hj : j < s.heap.length) (hp : parent j = i) :
    r (s.heap.slot (child better s.heap i)) ≤ r (s.heap.slot j) := by
  have hcase : j = 2 * i + 1 ∨ j = 2 * i + 2 := by unfold parent at hp; omega
  unfold child
  split
  · rename_i hc
    have hlt := (hb _ (h.mem _ hc.1) _ (h.mem _ hi)).mp hc.2
    rcases hcase with rfl | rfl
    · exact hlt.le
    · exact le_rfl
  · rename_i hc
    rcases hcase with rfl | rfl
    · exact le_rfl
    · exact not_lt.mp fun hlt => hc ⟨hj, (hb _ (h.mem _ hj) _ (h.mem _ hi)).mpr hlt⟩

/-- Sifting down puts the heap in order. -/
theorem siftDown_spec (hb : Agrees better r M) : ∀ (n : Nat) (s : Indexed α) (i : Nat), s.heap.length ≤ i + n →
    Holds s M → DownFrom r s.heap i → Moved s (siftDown better n s i) M ∧ Ordered r (siftDown better n s i).heap
  | 0, s, i, hn, h, d => by
    refine ⟨⟨rfl, h, fun _ _ => rfl⟩, fun j hj0 hj => d.rest j hj0 hj ?_⟩
    have := parent_lt (i := j) (by omega)
    simp only [siftDown] at hj
    omega
  | n + 1, s, i, hn, h, d => by
    rw [siftDown]
    split
    · rename_i hi
      have hcl := child_lt better hi
      have hcp := child_pos better s.heap i
      have hpc := parent_child better s.heap i
      have hic : i < child better s.heap i := by have := parent_lt (i := child better s.heap i) (by omega); omega
      have hagree := hb _ (h.mem _ hcl) _ (h.mem i (by omega))
      split
      · rename_i hc
        have hm : Moved s (swap s i (child better s.heap i)) M := Moved.swap h (by omega) hcl
        have ih := siftDown_spec hb n (swap s i (child better s.heap i)) (child better s.heap i)
          (by rw [hm.length]; omega) hm.holds
          (d.swap hcp hcl hpc (hagree.mp hc) (fun j hj0 hj hp => child_min hb h hi hj0 hj hp))
        exact ⟨hm.trans ih.1, ih.2⟩
      · rename_i hc
        refine ⟨⟨rfl, h, fun _ _ => rfl⟩, fun j hj0 hj => ?_⟩
        by_cases hp : parent j = i
        · rw [hp]
          exact (not_lt.mp fun hlt => hc (hagree.mpr hlt)).trans (child_min hb h hi hj0 hj hp)
        · exact d.rest j hj0 hj hp
    · rename_i hi
      refine ⟨⟨rfl, h, fun _ _ => rfl⟩, fun j hj0 hj => d.rest j hj0 hj ?_⟩
      unfold parent
      omega

/-! ## The operations -/

/-- Inserting an element the heap does not hold. -/
theorem insertInto_spec {s : Indexed α} {x : α} (hb : Agrees better r (insert x M)) (h : Holds s M)
    (ho : Ordered r s.heap) (hx : x ∉ M) :
    Holds (insertInto better s x) (insert x M) ∧ Ordered r (insertInto better s x).heap ∧
      ∀ y, y ∉ insert x M → (insertInto better s x).offset y = s.offset y := by
  unfold insertInto
  have hslot : ∀ j, j < s.heap.length → (s.heap.push x).slot j = s.heap.slot j := fun j hj => by
    simp only [Slots.push, Function.update_apply]
    exact if_neg (by omega)
  have hup : UpTo r (s.heap.push x) s.heap.length := by
    constructor
    · intro j hj0 hj hjl
      have hj' : j < s.heap.length := by simp only [Slots.push] at hj; omega
      have hp := parent_lt (i := j) (by omega)
      rw [hslot _ (by omega), hslot j hj']
      exact ho j hj0 hj'
    · intro _ j hj0 hj hp
      have := parent_lt (i := j) (by omega)
      simp only [Slots.push] at hj
      omega
  have hs := siftUp_spec hb s.heap.length ⟨s.heap.push x, Function.update s.offset x (s.heap.length + 1)⟩
    s.heap.length le_rfl (by simp [Slots.push]) (h.push hx) hup
  refine ⟨hs.1.holds, hs.2, fun y hy => ?_⟩
  rw [hs.1.frame y hy]
  exact Function.update_of_ne (fun e : y = x => hy (e ▸ Set.mem_insert _ _)) _ _

/-- The heap without the element of slot `i`: another element may be out of place at `i`. -/
theorem dropSlot_spec {s : Indexed α} {i : Nat} (h : Holds s M) (hi : i < s.heap.length) :
    Holds (dropSlot s (s.heap.slot i) i) (M \ {s.heap.slot i}) ∧
      (dropSlot s (s.heap.slot i) i).heap.length = s.heap.length - 1 ∧
      (∀ j, j < s.heap.length - 1 → j ≠ i → (dropSlot s (s.heap.slot i) i).heap.slot j = s.heap.slot j) ∧
      ∀ y, y ∉ M → (dropSlot s (s.heap.slot i) i).offset y = s.offset y := by
  unfold dropSlot
  by_cases hl : i = s.heap.length - 1
  · simp only [if_pos hl]
    refine ⟨hl ▸ h.pop (by omega), rfl, fun j hj _ => rfl, fun y hy => ?_⟩
    exact Function.update_of_ne (fun e : y = _ => hy (e ▸ h.mem i hi)) _ _
  · simp only [if_neg hl]
    have hsw : Moved s (swap s i (s.heap.length - 1)) M := Moved.swap h hi (by omega)
    have hlast : (swap s i (s.heap.length - 1)).heap.slot (s.heap.length - 1) = s.heap.slot i := by
      rw [Holds.swap_slot, if_pos rfl]
    have hpop := hsw.holds.pop (by rw [hsw.length]; omega)
    rw [hsw.length, hlast] at hpop
    refine ⟨hpop, rfl, fun j hj hji => ?_, fun y hy => ?_⟩
    · simp only [Slots.pop]
      rw [Holds.swap_slot, if_neg (by omega), if_neg hji]
    · rw [Function.update_of_ne (fun e : y = _ => hy (e ▸ h.mem i hi))]
      exact hsw.frame y hy

/-- An element out of place at `i` sifts to its place. -/
theorem sift_spec (hb : Agrees better r M) {s : Indexed α} {i : Nat} (h : Holds s M) (hi : i < s.heap.length)
    (hrest : ∀ j, 0 < j → j < s.heap.length → j ≠ i → parent j ≠ i → r (s.heap.slot (parent j)) ≤ r (s.heap.slot j))
    (hgrand : i ≠ 0 → ∀ j, 0 < j → j < s.heap.length → parent j = i → r (s.heap.slot (parent i)) ≤ r (s.heap.slot j)) :
    Moved s (sift better s i) M ∧ Ordered r (sift better s i).heap := by
  unfold sift
  have hagree := fun hne : i ≠ 0 => hb _ (h.mem i hi) _ (h.mem (parent i) (by have := parent_lt hne; omega))
  split
  · rename_i hc
    have hlt := (hagree hc.1).mp hc.2
    refine siftUp_spec hb i s i le_rfl hi h ⟨fun j hj0 hj hji => ?_, hgrand⟩
    by_cases hp : parent j = i
    · rw [hp]; exact hlt.le.trans (hgrand hc.1 j hj0 hj hp)
    · exact hrest j hj0 hj hji hp
  · rename_i hc
    refine siftDown_spec hb s.heap.length s i (by omega) h ⟨fun j hj0 hj hp => ?_, hgrand⟩
    by_cases hji : j = i
    · subst hji
      exact not_lt.mp fun hlt => hc ⟨by omega, (hagree (by omega)).mpr hlt⟩
    · exact hrest j hj0 hj hji hp

/-- Removing an element the heap holds. -/
theorem removeFrom_spec {s : Indexed α} {x : α} (hb : Agrees better r M) (h : Holds s M) (ho : Ordered r s.heap)
    (hx : x ∈ M) :
    ∃ t, removeFrom better s x = some t ∧ Holds t (M \ {x}) ∧ Ordered r t.heap ∧ t.offset x = 0 ∧
      ∀ y, y ∉ M → t.offset y = s.offset y := by
  obtain ⟨h0, hi, hslot⟩ := h.offset_of_mem hx
  unfold removeFrom
  rw [if_neg h0]
  simp only [if_pos hi]
  generalize hidx : s.offset x - 1 = i at hi hslot
  subst hslot
  obtain ⟨hd, hlen, hkeep, hframe⟩ := dropSlot_spec h hi
  have hzero : (dropSlot s (s.heap.slot i) i).offset (s.heap.slot i) = 0 := by simp [dropSlot]
  split
  · rename_i hit
    have hrest : ∀ j, 0 < j → j < s.heap.length - 1 → j ≠ i → parent j ≠ i →
        r ((dropSlot s (s.heap.slot i) i).heap.slot (parent j)) ≤ r ((dropSlot s (s.heap.slot i) i).heap.slot j) := by
      intro j hj0 hj hji hp
      have := parent_lt (i := j) (by omega)
      rw [hkeep _ (by omega) hp, hkeep j hj hji]
      exact ho j hj0 (by omega)
    have hgrand : i ≠ 0 → ∀ j, 0 < j → j < s.heap.length - 1 → parent j = i →
        r ((dropSlot s (s.heap.slot i) i).heap.slot (parent i)) ≤ r ((dropSlot s (s.heap.slot i) i).heap.slot j) := by
      intro hi0 j hj0 hj hp
      have hpj := parent_lt (i := j) (by omega)
      have hpi := parent_lt hi0
      rw [hkeep _ (by omega) (by omega), hkeep j hj (by omega)]
      have h₁ := ho j hj0 (by omega)
      rw [hp] at h₁
      exact (ho i (by omega) (by omega)).trans h₁
    have hbd : Agrees better r (M \ {s.heap.slot i}) := fun y hy z hz => hb y hy.1 z hz.1
    have hs := sift_spec hbd hd hit (by rw [hlen]; exact hrest) (by rw [hlen]; exact hgrand)
    refine ⟨_, rfl, hs.1.holds, hs.2, ?_, fun y hy => ?_⟩
    · rw [hs.1.frame _ (fun hm => hm.2 rfl)]; exact hzero
    · rw [hs.1.frame _ (fun hm => hy hm.1)]; exact hframe y hy
  · rename_i hit
    refine ⟨_, rfl, hd, fun j hj0 hj => ?_, hzero, hframe⟩
    rw [hlen] at hit hj
    have := parent_lt (i := j) (by omega)
    rw [hkeep _ (by omega) (by omega), hkeep j hj (by omega)]
    exact ho j hj0 (by omega)

/-- Removing an element that is in no heap changes nothing. -/
theorem removeFrom_absent {s : Indexed α} {x : α} (h : s.offset x = 0) : removeFrom better s x = some s := by
  unfold removeFrom
  rw [if_pos h]

end Sift

end IndexedHeap
