import Mathlib.Data.List.Sort
import Mathlib.Data.Prod.Lex
import Mathlib.Tactic.Common

/-!
# Paging by key

A query that sorts records by a key that no two of them share, and gives them out in pages: each page is the first
records after a cursor, and the next cursor is the key of its last record (`Pages`). What comes out is independent
of the order in which the records are stored (`sorted_eq`), and the pages together are all the records after the
cursor (`Pages.flatten`).
-/

namespace Keyset

variable {α β κ : Type} [LinearOrder κ]

/-- Sorted by key. -/
def sorted (key : α → κ) (l : List α) : List α := l.insertionSort fun x y => key x ≤ key y

/-- The records after the cursor. -/
def after (key : α → κ) (l : List α) (cursor : κ) : List α := sorted key (l.filter fun x => cursor < key x)

def page (key : α → κ) (size : Nat) (l : List α) (cursor : κ) : List α := (after key l cursor).take size

/-- The cursor of the next page, if there is one. -/
def next (key : α → κ) (size : Nat) (l : List α) (cursor : κ) : Option κ :=
  if size < (after key l cursor).length then (page key size l cursor).getLast?.map key else none

/-- The pages from a cursor on, as `fetch` gives them with the next cursor. -/
inductive Pages (fetch : κ → List β × Option κ) : κ → List (List β) → Prop
  | last {cursor : κ} : (fetch cursor).2 = none → Pages fetch cursor [(fetch cursor).1]
  | more {cursor cursor' : κ} {rest : List (List β)} : (fetch cursor).2 = some cursor' → Pages fetch cursor' rest →
      Pages fetch cursor ((fetch cursor).1 :: rest)

section

variable {key : α → κ} {l s : List α} {size : Nat} {cursor cursor' : κ}

/-- The keys ascend. -/
abbrev Ascending (key : α → κ) (l : List α) : Prop := l.Pairwise fun x y => key x < key y

theorem sorted_perm (key : α → κ) (l : List α) : (sorted key l).Perm l := List.perm_insertionSort _ l

theorem mem_sorted {x : α} : x ∈ sorted key l ↔ x ∈ l := (sorted_perm key l).mem_iff

theorem sorted_pairwise (key : α → κ) (l : List α) : (sorted key l).Pairwise fun x y => key x ≤ key y := by
  have htotal : Std.Total fun x y : α => key x ≤ key y := ⟨fun x y => le_total (key x) (key y)⟩
  have htrans : IsTrans α fun x y : α => key x ≤ key y := ⟨fun _ _ _ => le_trans⟩
  exact List.pairwise_insertionSort _ l

theorem Ascending.nodup (hs : Ascending key s) : (s.map key).Nodup :=
  List.pairwise_map.mpr (hs.imp ne_of_lt)

/-- Sorting gives back a list with ascending keys, however it has been shuffled. -/
theorem sorted_eq (hs : Ascending key s) (hp : l.Perm s) : sorted key l = s := by
  apply List.Perm.eq_of_pairwise _ (sorted_pairwise key l) (hs.imp le_of_lt) ((sorted_perm key l).trans hp)
  intro x y hx hy hxy hyx
  have hx : x ∈ s := hp.subset ((sorted_perm key l).subset hx)
  exact List.inj_on_of_nodup_map hs.nodup hx hy (le_antisymm hxy hyx)

/-- Records with keys of their own, sorted. -/
theorem sorted_ascending (hn : (l.map key).Nodup) : Ascending key (sorted key l) := by
  have hn' : ((sorted key l).map key).Nodup := ((sorted_perm key l).map key).nodup_iff.mpr hn
  have hboth := (sorted_pairwise key l).and (List.pairwise_map.mp hn')
  exact hboth.imp fun h => lt_of_le_of_ne h.1 h.2

theorem after_ascending (hn : (l.map key).Nodup) (cursor : κ) : Ascending key (after key l cursor) :=
  sorted_ascending (hn.sublist (List.filter_sublist.map key))

/-- What a query gets that sorts and compares to the cursor by other means. -/
theorem after_eq {r : α → α → Prop} [DecidableRel r] {p : α → Bool} (hr : ∀ x y, key x ≤ key y ↔ r x y)
    (hp : ∀ x, p x = decide (cursor < key x)) (l : List α) : (l.filter p).insertionSort r = after key l cursor := by
  obtain rfl : r = fun x y => key x ≤ key y := funext fun x => funext fun y => propext (hr x y).symm
  obtain rfl : p = fun x => decide (cursor < key x) := funext hp
  unfold after sorted
  congr

/-- Paging on from a later cursor leaves out the records in between. -/
theorem after_of_lt (hn : (l.map key).Nodup) (h : cursor < cursor') :
    after key l cursor' = (after key l cursor).filter fun x => cursor' < key x := by
  apply sorted_eq ((after_ascending hn cursor).filter _)
  have hp : (l.filter fun x => cursor < key x).Perm (after key l cursor) := (sorted_perm key _).symm
  refine List.Perm.trans ?_ (hp.filter _)
  rw [List.filter_filter]
  apply List.Perm.of_eq
  apply List.filter_congr
  intro x _
  rw [Bool.eq_iff_iff, Bool.and_eq_true]
  simp only [decide_eq_true_eq]
  exact ⟨fun hx => ⟨hx, h.trans hx⟩, fun hx => hx.1⟩

/-- A page that has a next one, and what is after it. -/
theorem after_next (hn : (l.map key).Nodup) (h : next key size l cursor = some cursor') :
    after key l cursor = page key size l cursor ++ after key l cursor' ∧
      (after key l cursor').length < (after key l cursor).length := by
  unfold next at h
  split at h
  · rename_i hlen
    obtain ⟨x, hx, rfl⟩ := Option.map_eq_some_iff.mp h
    obtain ⟨ys, hys⟩ := List.getLast?_eq_some_iff.mp hx
    have hasc := after_ascending hn cursor
    have hsplit : after key l cursor = page key size l cursor ++ (after key l cursor).drop size :=
      (List.take_append_drop size _).symm
    have hmem : x ∈ after key l cursor := by
      rw [hsplit, hys]
      simp
    have hlt : cursor < key x := by simpa using (List.mem_filter.mp (mem_sorted.mp hmem)).2
    have hdrop : after key l (key x) = (after key l cursor).drop size := by
      rw [hsplit, hys] at hasc
      obtain ⟨hpage, -, hcross⟩ := List.pairwise_append.mp hasc
      have hlast := (List.pairwise_append.mp hpage).2.2
      rw [after_of_lt hn hlt]
      conv_lhs => rw [hsplit, hys, List.filter_append]
      have hnone : (ys ++ [x]).filter (fun z => key x < key z) = [] := by
        apply List.filter_eq_nil_iff.mpr
        intro z hz
        rcases List.mem_append.mp hz with hz | hz
        · simpa using le_of_lt (hlast z hz x (List.mem_singleton_self x))
        · simp [List.mem_singleton.mp hz]
      have hall : ((after key l cursor).drop size).filter (fun z => key x < key z) =
        (after key l cursor).drop size := by
        apply List.filter_eq_self.mpr
        intro z hz
        simpa using hcross x (by simp) z hz
      rw [hnone, hall, List.nil_append]
    rw [hdrop]
    refine ⟨hsplit, ?_⟩
    have hlength := congrArg List.length hsplit
    rw [List.length_append, hys, List.length_append, List.length_singleton] at hlength
    omega
  · cases h

/-- A page without a next one is all that is left. -/
theorem page_last (hs : 0 < size) (h : next key size l cursor = none) :
    page key size l cursor = after key l cursor := by
  unfold next at h
  split at h
  · rename_i hlen
    have hnil : page key size l cursor = [] := by simpa using h
    have hlength := congrArg List.length hnil
    rw [page, List.length_take, List.length_nil] at hlength
    omega
  · rename_i hlen
    exact List.take_of_length_le (by omega)

/-! ## All pages -/

variable {f : α → β} {fetch : κ → List β × Option κ} {ps : List (List β)}

/-- The pages together are all the records after the cursor. -/
theorem Pages.flatten (hn : (l.map key).Nodup) (hs : 0 < size)
    (hf : ∀ c, fetch c = ((page key size l c).map f, next key size l c)) (h : Pages fetch cursor ps) :
    ps.flatten = (after key l cursor).map f := by
  induction h with
  | last hnone =>
    rw [hf] at hnone ⊢
    rw [List.flatten_singleton, page_last hs hnone]
  | more hsome _ ih =>
    rw [hf] at hsome ⊢
    rw [List.flatten_cons, ih, (after_next hn hsome).1, List.map_append]

/-- The pages come to an end. -/
theorem pages_end (hn : (l.map key).Nodup) (hf : ∀ c, fetch c = ((page key size l c).map f, next key size l c))
    (cursor : κ) : ∃ ps, Pages fetch cursor ps := by
  induction hk : (after key l cursor).length using Nat.strong_induction_on generalizing cursor with
  | _ k ih =>
    cases hnext : next key size l cursor with
    | none => exact ⟨_, .last (by rw [hf]; exact hnext)⟩
    | some cursor' =>
      obtain ⟨ps, hps⟩ := ih _ (hk ▸ (after_next hn hnext).2) cursor' rfl
      exact ⟨_, .more (by rw [hf]; exact hnext) hps⟩

/-! ## Walks -/

section

variable {C E : Type} {fetch : Option C → Except E (List α × Option C)} {text : κ → Option C}

/-- The pages that a client gets who follows the cursors of a query from one on until there is none. -/
inductive Walk (fetch : Option C → Except E (List α × Option C)) : Option C → List (List α) → Prop
  | last {c : Option C} {items : List α} : fetch c = .ok (items, none) → Walk fetch c [items]
  | more {c : Option C} {c' : C} {items : List α} {rest : List (List α)} : fetch c = .ok (items, some c') →
      Walk fetch (some c') rest → Walk fetch c (items :: rest)

/-- A client gets the same pages each time. -/
theorem Walk.unique {c : Option C} {ps ps' : List (List α)} (h : Walk fetch c ps) (h' : Walk fetch c ps') :
    ps = ps' := by
  induction h generalizing ps' with
  | last hlast =>
    cases h' with
    | last hlast' =>
      rw [hlast] at hlast'
      cases hlast'
      rfl
    | more hmore' _ =>
      rw [hlast] at hmore'
      cases hmore'
  | more hmore _ ih =>
    cases h' with
    | last hlast' =>
      rw [hmore] at hlast'
      cases hlast'
    | more hmore' hrest' =>
      rw [hmore] at hmore'
      cases hmore'
      rw [ih hrest']

theorem Walk.ne_nil {c : Option C} {ps : List (List α)} (h : Walk fetch c ps) : ps ≠ [] := by cases h <;> simp

theorem page_full (h : next key size l cursor = some cursor') : (page key size l cursor).length = size := by
  unfold next at h
  split at h
  · rename_i hlen
    rw [page, List.length_take]
    omega
  · cases h

theorem next_mem (h : next key size l cursor = some cursor') : ∃ x ∈ l, key x = cursor' := by
  unfold next at h
  split at h
  · obtain ⟨x, hx, rfl⟩ := Option.map_eq_some_iff.mp h
    exact ⟨x, (List.mem_filter.mp (mem_sorted.mp (List.mem_of_mem_take (List.mem_of_getLast? hx)))).1, rfl⟩
  · cases h

/-- What a query gives out that cuts off a page and writes the cursor of its last record. -/
theorem page_text (key : α → κ) (text : κ → Option C) {enc : α → C} (ht : ∀ x, text (key x) = some (enc x))
    (size : Nat) (l : List α) (cursor : κ) :
    ((after key l cursor).take size,
      if size < (after key l cursor).length then ((after key l cursor).take size).getLast?.map enc else none) =
      (page key size l cursor, (next key size l cursor).bind text) := by
  unfold page next
  split
  · rw [Option.bind_map]
    congr 1
    rw [page]
    cases ((after key l cursor).take size).getLast? with
    | none => rfl
    | some x => exact (ht x).symm
  · rfl

/-- A query that gives out pages, with cursors that it can read back, is walked to its end: each page but the last
is full, and together they are all the records after the first cursor. -/
theorem walk_all (hn : (l.map key).Nodup) (hs : 0 < size) {start : κ} (ht : ∀ x ∈ l, (text (key x)).isSome)
    (hf : ∀ c, c = start ∨ (∃ x ∈ l, key x = c) →
      fetch (text c) = .ok (page key size l c, (next key size l c).bind text))
    (cursor : κ) (hc : cursor = start ∨ ∃ x ∈ l, key x = cursor) :
    ∃ ps, Walk fetch (text cursor) ps ∧ ps.flatten = after key l cursor ∧ ∀ p ∈ ps.dropLast, p.length = size := by
  induction hk : (after key l cursor).length using Nat.strong_induction_on generalizing cursor with
  | _ k ih =>
    have hfetch := hf cursor hc
    cases hnext : next key size l cursor with
    | none =>
      rw [hnext] at hfetch
      exact ⟨_, .last hfetch, by rw [List.flatten_singleton, page_last hs hnext], by simp⟩
    | some cursor' =>
      obtain ⟨x, hx, rfl⟩ := next_mem hnext
      obtain ⟨d, hd⟩ := Option.isSome_iff_exists.mp (ht x hx)
      obtain ⟨rest, hrest, hflat, hsizes⟩ := ih _ (hk ▸ (after_next hn hnext).2) (key x) (.inr ⟨x, hx, rfl⟩) rfl
      rw [hnext, Option.bind_some, hd] at hfetch
      rw [hd] at hrest
      refine ⟨_, .more hfetch hrest, ?_, ?_⟩
      · rw [List.flatten_cons, hflat, (after_next hn hnext).1]
      · rw [List.dropLast_cons_of_ne_nil hrest.ne_nil]
        intro p hp
        rcases List.mem_cons.mp hp with rfl | hp
        · exact page_full hnext
        · exact hsizes p hp

/-- A client that follows the cursors from none on gets the same pages each time: full ones but for the last, and
together the records, each once and in order. -/
def Lists (fetch : Option C → Except E (List α × Option C)) (size : Nat) (l : List α) (before : α → α → Prop) : Prop :=
  ∃ ps, Walk fetch none ps ∧ (∀ ps', Walk fetch none ps' → ps' = ps) ∧ ps.flatten.Perm l ∧ ps.flatten.Nodup ∧
    ps.flatten.Pairwise before ∧ ∀ p ∈ ps.dropLast, p.length = size

theorem lists (key : α → κ) (text : κ → Option C) (start : κ) {before : α → α → Prop} (hn : (l.map key).Nodup)
    (hs : 0 < size) (hstart : ∀ x ∈ l, start < key x)
    (hnone : text start = none) (ht : ∀ x ∈ l, (text (key x)).isSome)
    (hf : ∀ c, c = start ∨ (∃ x ∈ l, key x = c) →
      fetch (text c) = .ok (page key size l c, (next key size l c).bind text))
    (hb : ∀ x y, key x < key y → before x y) : Lists fetch size l before := by
  obtain ⟨ps, hw, hflat, hsizes⟩ := walk_all hn hs ht hf start (.inl rfl)
  rw [hnone] at hw
  have hall : (l.filter fun x => decide (start < key x)) = l := List.filter_eq_self.mpr fun x hx =>
    decide_eq_true (hstart x hx)
  have hp : ps.flatten.Perm l := by
    rw [hflat, after, hall]
    exact sorted_perm key l
  have hasc : Ascending key ps.flatten := hflat ▸ after_ascending hn start
  exact ⟨ps, hw, fun ps' h' => h'.unique hw, hp, hp.nodup_iff.mpr (List.Nodup.of_map key hn), hasc.imp fun h =>
    hb _ _ h, hsizes⟩

end

end

end Keyset
