import Cpredict.Book.State
import Cpredict.Lib.HeapFamily
import Mathlib.Data.Prod.Lex

/-!
# The automatic books hold the right orders

`Indexed b T`: each family of heaps holds exactly the active automatic orders of its keys, but for the orders in `T`,
which a call in progress has taken out. `_remove` puts an order into `T` and `_insert` takes it out again, whether or
not it was filed before; nothing else touches the heaps.
-/

namespace Cpredict

open Outcome IndexedHeap

/-- What the orderbook keeps of its orders, without the heaps and the default policy. -/
structure Account where
  nextOrderId : Nat
  totalLockedPayment : Nat
  orders : Nat → Order
  pendingShares : Nat → Nat
  orderAllowsPartialFills : Nat → Bool
  expectedReceipt : Option Receipt

namespace Book

def account (b : Book) : Account :=
  ⟨b.nextOrderId, b.totalLockedPayment, b.orders, b.pendingShares, b.orderAllowsPartialFills, b.expectedReceipt⟩

/-! ## The rank of an order -/

/-- What `_better` compares: the price, the better one first, and then the id. -/
def rank (b : Book) (side : Side) (id : Nat) : ℤ ×ₗ ℕ :=
  toLex (match side with
    | .bid => -((b.orders id).unitPrice : ℤ)
    | .ask => ((b.orders id).unitPrice : ℤ), id)

theorem better_iff (b : Book) {side : Side} {x : Nat} (hx : (b.orders x).side = side) (y : Nat) :
    b.better x y = true ↔ b.rank side x < b.rank side y := by
  unfold better rank
  rw [Prod.Lex.toLex_lt_toLex, hx]
  cases side <;> simp only <;> split <;> simp only [decide_eq_true_eq] <;> omega

/-- An order of a side that is not better than another one and not the same comes after it. -/
theorem better_total (b : Book) {side : Side} {x y : Nat} (hx : (b.orders x).side = side)
    (h : b.rank side x ≤ b.rank side y) (hne : y ≠ x) : b.better x y = true := by
  rw [better_iff b hx]
  refine lt_of_le_of_ne h fun he => hne ?_
  exact (congrArg (fun p : ℤ ×ₗ ℕ => (ofLex p).2) he).symm

/-! ## What is filed where -/

/-- The orders that the heaps hold. -/
def Listed (b : Book) (T : Set Nat) (id : Nat) : Prop :=
  (b.orders id).active = true ∧ (b.orders id).autoMatch = true ∧ id ∉ T

def InBook (b : Book) (T : Set Nat) (id : Nat) (k : Address × Nat × Side) : Prop :=
  b.Listed T id ∧ (b.orders id).key = k

def InUnitBook (b : Book) (T : Set Nat) (id : Nat) (k : Address × Nat × Side × Nat) : Prop :=
  b.Listed T id ∧ (b.orders id).unitsKey = k

def InPartialBook (b : Book) (T : Set Nat) (id : Nat) (k : Address × Nat × Side) : Prop :=
  b.Listed T id ∧ b.orderAllowsPartialFills id = true ∧ (b.orders id).key = k

/-- The three families of heaps hold the orders that are not in `T`. -/
structure Indexed (b : Book) (T : Set Nat) : Prop where
  books : Family b.books b.positions (b.InBook T) fun k => b.rank k.2.2
  units : Family b.unitBooks b.unitPositions (b.InUnitBook T) fun k => b.rank k.2.2.1
  partials : Family b.partialBooks b.partialPositions (b.InPartialBook T) fun k => b.rank k.2.2

/-- The heaps are the same. -/
structure SameHeaps (b b' : Book) : Prop where
  books : b'.books = b.books
  positions : b'.positions = b.positions
  unitBooks : b'.unitBooks = b.unitBooks
  unitPositions : b'.unitPositions = b.unitPositions
  partialBooks : b'.partialBooks = b.partialBooks
  partialPositions : b'.partialPositions = b.partialPositions

section

variable {b b' : Book} {T T' : Set Nat} {id : Nat}

/-- Only the orders that the heaps hold matter to them. -/
theorem Indexed.congr (h : Indexed b T) (hs : SameHeaps b b') (hl : ∀ id, b'.Listed T' id ↔ b.Listed T id)
    (ho : ∀ id, b.Listed T id →
      b'.orders id = b.orders id ∧ b'.orderAllowsPartialFills id = b.orderAllowsPartialFills id) : Indexed b' T' := by
  have hrank : ∀ side id, b.Listed T id → b'.rank side id = b.rank side id := fun side id hid => by
    unfold rank
    rw [(ho id hid).1]
  refine ⟨?_, ?_, ?_⟩
  · rw [hs.books, hs.positions]
    refine h.books.congr (fun id k => ?_) fun k id hid => hrank _ _ hid.1
    unfold InBook
    rw [hl]
    exact and_congr_right fun hid => by rw [(ho id hid).1]
  · rw [hs.unitBooks, hs.unitPositions]
    refine h.units.congr (fun id k => ?_) fun k id hid => hrank _ _ hid.1
    unfold InUnitBook
    rw [hl]
    exact and_congr_right fun hid => by rw [(ho id hid).1]
  · rw [hs.partialBooks, hs.partialPositions]
    refine h.partials.congr (fun id k => ?_) fun k id hid => hrank _ _ hid.1
    unfold InPartialBook
    rw [hl]
    exact and_congr_right fun hid => by rw [(ho id hid).1, (ho id hid).2]

/-- Orders in `T` may change. -/
theorem Indexed.change (h : Indexed b T) (hs : SameHeaps b b')
    (ho : ∀ id, id ∉ T →
      b'.orders id = b.orders id ∧ b'.orderAllowsPartialFills id = b.orderAllowsPartialFills id) : Indexed b' T := by
  refine h.congr hs (fun id => ?_) fun id hid => ho id hid.2.2
  constructor
  · rintro ⟨h₁, h₂, h₃⟩; rw [(ho id h₃).1] at h₁ h₂; exact ⟨h₁, h₂, h₃⟩
  · rintro ⟨h₁, h₂, h₃⟩; rw [← (ho id h₃).1] at h₁ h₂; exact ⟨h₁, h₂, h₃⟩

/-- An order that belongs into no heap need not be in `T`. -/
theorem Indexed.drop (h : Indexed b T) (id : Nat)
    (hid : ¬((b.orders id).active = true ∧ (b.orders id).autoMatch = true)) :
    Indexed b (T \ {id}) := by
  refine h.congr ⟨rfl, rfl, rfl, rfl, rfl, rfl⟩ (fun x => ?_) fun _ _ => ⟨rfl, rfl⟩
  constructor
  · rintro ⟨h₁, h₂, h₃⟩
    refine ⟨h₁, h₂, fun hx => h₃ ⟨hx, fun e => hid ?_⟩⟩
    rw [← Set.mem_singleton_iff.mp e]
    exact ⟨h₁, h₂⟩
  · rintro ⟨h₁, h₂, h₃⟩; exact ⟨h₁, h₂, fun hx => h₃ hx.1⟩

theorem InBook.side {k : Address × Nat × Side} (h : b.InBook T id k) : (b.orders id).side = k.2.2 := by rw [← h.2]; rfl

theorem InUnitBook.side {k : Address × Nat × Side × Nat} (h : b.InUnitBook T id k) : (b.orders id).side = k.2.2.1 := by
  rw [← h.2]; rfl

theorem InPartialBook.side {k : Address × Nat × Side} (h : b.InPartialBook T id k) : (b.orders id).side = k.2.2 := by
  rw [← h.2.2]; rfl

/-! ## Taking an order out -/

theorem listed_insert (x : Nat) : b.Listed (Insert.insert id T) x ↔ b.Listed T x ∧ x ≠ id := by
  constructor
  · rintro ⟨h₁, h₂, h₃⟩
    exact ⟨⟨h₁, h₂, fun hx => h₃ (Set.mem_insert_of_mem _ hx)⟩, fun e => h₃ (e ▸ Set.mem_insert _ _)⟩
  · rintro ⟨⟨h₁, h₂, h₃⟩, hne⟩
    exact ⟨h₁, h₂, fun hx => (Set.mem_insert_iff.mp hx).elim hne h₃⟩

theorem removeBooks_spec (h : Family b.books b.positions (b.InBook T) fun k => b.rank k.2.2) (id : Nat) :
    ∃ heaps positions, b.removeBooks id = .ok { b with books := heaps, positions := positions } ∧
      Family heaps positions (b.InBook (Insert.insert id T)) fun k => b.rank k.2.2 := by
  obtain ⟨t, ht, hf⟩ := h.take b.better (x := id) (k := (b.orders id).key) (fun l hl => hl.2.symm)
    fun x hx y _ => better_iff b hx.side y
  refine ⟨_, _, ?_, hf.congr (fun x k => ?_) fun _ _ _ => rfl⟩
  · simp only [removeBooks, takeFrom, ht, ok_bind]
  · unfold InBook
    rw [listed_insert, and_right_comm]

theorem removeUnitBooks_spec (h : Family b.unitBooks b.unitPositions (b.InUnitBook T) fun k => b.rank k.2.2.1)
    (id : Nat) :
    ∃ heaps positions, b.removeUnitBooks id = .ok { b with unitBooks := heaps, unitPositions := positions } ∧
      Family heaps positions (b.InUnitBook (Insert.insert id T)) fun k => b.rank k.2.2.1 := by
  obtain ⟨t, ht, hf⟩ := h.take b.better (x := id) (k := (b.orders id).unitsKey) (fun l hl => hl.2.symm)
    fun x hx y _ => better_iff b hx.side y
  refine ⟨_, _, ?_, hf.congr (fun x k => ?_) fun _ _ _ => rfl⟩
  · simp only [removeUnitBooks, takeFrom, ht, ok_bind]
  · unfold InUnitBook
    rw [listed_insert, and_right_comm]

theorem removePartialBooks_spec
    (h : Family b.partialBooks b.partialPositions (b.InPartialBook T) fun k => b.rank k.2.2) (id : Nat) :
    ∃ heaps positions, b.removePartialBooks id = .ok { b with partialBooks := heaps, partialPositions := positions } ∧
      Family heaps positions (b.InPartialBook (Insert.insert id T)) fun k => b.rank k.2.2 := by
  obtain ⟨t, ht, hf⟩ := h.take b.better (x := id) (k := (b.orders id).key) (fun l hl => hl.2.2.symm)
    fun x hx y _ => better_iff b hx.side y
  refine ⟨_, _, ?_, hf.congr (fun x k => ?_) fun _ _ _ => rfl⟩
  · simp only [removePartialBooks, takeFrom, ht, ok_bind]
  · unfold InPartialBook
    rw [listed_insert, and_right_comm]

/-- The heaps of `b'` are other ones, and nothing else is. -/
structure Reheaped (b b' : Book) : Prop where
  account : b'.account = b.account
  policy : b'.defaultAllowPartialFills = b.defaultAllowPartialFills

/-- `_remove` never fails and takes the order out of the heaps. -/
theorem remove_spec (h : Indexed b T) (id : Nat) :
    ∃ b', b.remove id = .ok b' ∧ Reheaped b b' ∧ Indexed b' (Insert.insert id T) := by
  obtain ⟨h₁, p₁, hr₁, hf₁⟩ := removeBooks_spec h.books id
  obtain ⟨h₂, p₂, hr₂, hf₂⟩ :=
    removeUnitBooks_spec (b := { b with books := h₁, positions := p₁ }) (T := T) h.units id
  unfold remove
  rw [hr₁, ok_bind, hr₂, ok_bind]
  by_cases hp : b.orderAllowsPartialFills id = true
  · obtain ⟨h₃, p₃, hr₃, hf₃⟩ := removePartialBooks_spec
      (b := { b with books := h₁, positions := p₁, unitBooks := h₂, unitPositions := p₂ }) (T := T) h.partials id
    rw [if_pos hp, hr₃]
    exact ⟨_, rfl, ⟨rfl, rfl⟩, hf₁, hf₂, hf₃⟩
  · rw [if_neg hp]
    refine ⟨_, rfl, ⟨rfl, rfl⟩, hf₁, hf₂, h.partials.congr (fun x k => ?_) fun _ _ _ => rfl⟩
    -- an order without partial fills is in no heap of the third family
    constructor
    · rintro ⟨hl, hrest⟩; exact ⟨(listed_insert x).mp hl |>.1, hrest⟩
    · rintro ⟨hl, hx, hk⟩; exact ⟨(listed_insert x).mpr ⟨hl, fun e => hp (e ▸ hx)⟩, hx, hk⟩

/-! ## Putting an order in -/

theorem listed_diff (hid : id ∈ T) (ha : (b.orders id).active = true) (hm : (b.orders id).autoMatch = true) (x : Nat) :
    b.Listed (T \ {id}) x ↔ b.Listed T x ∨ x = id := by
  constructor
  · rintro ⟨h₁, h₂, h₃⟩
    by_cases hx : x = id
    · exact .inr hx
    · exact .inl ⟨h₁, h₂, fun ht => h₃ ⟨ht, hx⟩⟩
  · rintro (⟨h₁, h₂, h₃⟩ | rfl)
    · exact ⟨h₁, h₂, fun ht => h₃ ht.1⟩
    · exact ⟨ha, hm, fun ht => ht.2 rfl⟩

/-- `_insert` files an active automatic order that is in no heap. -/
theorem insert_spec (h : Indexed b T) (hid : id ∈ T) (ha : (b.orders id).active = true)
    (hm : (b.orders id).autoMatch = true) : Reheaped b (b.insert id) ∧ Indexed (b.insert id) (T \ {id}) := by
  have hout : ¬b.Listed T id := fun hl => hl.2.2 hid
  have hf₁ := h.books.insert b.better (x := id) (k := (b.orders id).key) (fun l hl => hout hl.1)
    fun x hx y _ => better_iff b (by rcases hx with rfl | hx; exacts [rfl, hx.side]) y
  have hf₂ := h.units.insert b.better (x := id) (k := (b.orders id).unitsKey) (fun l hl => hout hl.1)
    fun x hx y _ => better_iff b (by rcases hx with rfl | hx; exacts [rfl, hx.side]) y
  have hf₃ := h.partials.insert b.better (x := id) (k := (b.orders id).key) (fun l hl => hout hl.1)
    fun x hx y _ => better_iff b (by rcases hx with rfl | hx; exacts [rfl, hx.side]) y
  have hbooks : ∀ x k, b.InBook (T \ {id}) x k ↔ b.InBook T x k ∨ x = id ∧ k = (b.orders id).key := by
    intro x k
    unfold InBook
    rw [listed_diff hid ha hm, or_and_right]
    refine or_congr_right (and_congr_right fun hx => ?_)
    rw [hx, eq_comm]
  have hunits : ∀ x k, b.InUnitBook (T \ {id}) x k ↔ b.InUnitBook T x k ∨ x = id ∧ k = (b.orders id).unitsKey := by
    intro x k
    unfold InUnitBook
    rw [listed_diff hid ha hm, or_and_right]
    refine or_congr_right (and_congr_right fun hx => ?_)
    rw [hx, eq_comm]
  unfold insert
  by_cases hp : b.orderAllowsPartialFills id = true
  · have hpartials : ∀ x k, b.InPartialBook (T \ {id}) x k ↔
        b.InPartialBook T x k ∨ x = id ∧ k = (b.orders id).key := by
      intro x k
      unfold InPartialBook
      rw [listed_diff hid ha hm, or_and_right]
      refine or_congr_right (and_congr_right fun hx => ?_)
      rw [hx, eq_comm (a := (b.orders id).key)]
      exact and_iff_right hp
    refine ⟨?_, ?_⟩
    · simp only [insertBooks, insertUnitBooks, insertPartialBooks, hp, if_true]
      exact ⟨rfl, rfl⟩
    · simp only [insertBooks, insertUnitBooks, insertPartialBooks, hp, if_true]
      exact ⟨hf₁.congr hbooks fun _ _ _ => rfl, hf₂.congr hunits fun _ _ _ => rfl,
        hf₃.congr hpartials fun _ _ _ => rfl⟩
  · refine ⟨?_, ?_⟩
    · simp only [insertBooks, insertUnitBooks, hp]
      exact ⟨rfl, rfl⟩
    · simp only [insertBooks, insertUnitBooks, hp]
      refine ⟨hf₁.congr hbooks fun _ _ _ => rfl, hf₂.congr hunits fun _ _ _ => rfl,
        h.partials.congr (fun x k => ?_) fun _ _ _ => rfl⟩
      constructor
      · rintro ⟨hl, hx, hk⟩
        rcases (listed_diff hid ha hm x).mp hl with hl | rfl
        · exact ⟨hl, hx, hk⟩
        · exact absurd hx hp
      · rintro ⟨hl, hrest⟩; exact ⟨(listed_diff hid ha hm x).mpr (.inl hl), hrest⟩

/-! ## The best orders -/

/-- The first order of a heap is the one ranked first among those filed there, and zero if there are none. -/
theorem first_spec {ι : Type} [DecidableEq ι] {heaps : ι → Slots Nat} {offset : Nat → Nat} {filed : Nat → ι → Prop}
    {r : ι → Nat → ℤ ×ₗ ℕ} (h : Family heaps offset filed r) (k : ι) :
    (first (heaps k) = 0 ∧ ∀ x, ¬filed x k) ∨
      (filed (first (heaps k)) k ∧ ∀ x, filed x k → r k (first (heaps k)) ≤ r k x) := by
  unfold first
  by_cases hl : (heaps k).length = 0
  · rw [if_pos hl]
    exact .inl ⟨rfl, (h.length_eq_zero_iff k).mp hl⟩
  · rw [if_neg hl]
    exact .inr (h.top hl)

/-- The queue that a step of `_matchOrders` takes its heads from: the orders of equal units, or those that may be
split. -/
def considered (b : Book) (vault : Address) (outcomeId groupUnits : Nat) : Option Nat :=
  if groupUnits ≠ 0 then some groupUnits
  else
    let bidId := b.bestPartialOrder vault outcomeId .bid
    let askId := b.bestPartialOrder vault outcomeId .ask
    if bidId ≠ 0 ∧ askId ≠ 0 ∧ (b.orders bidId).remainingUnits = (b.orders askId).remainingUnits then
      some (b.orders bidId).remainingUnits
    else none

/-- The active automatic orders of a queue. -/
def Queued (b : Book) (vault : Address) (outcomeId : Nat) (queue : Option Nat) (side : Side) (id : Nat) : Prop :=
  match queue with
  | some units => b.InUnitBook ∅ id (vault, outcomeId, side, units)
  | none => b.InPartialBook ∅ id (vault, outcomeId, side)

/-- The head of a queue: its best order, or zero if it is empty. -/
def Heads (b : Book) (vault : Address) (outcomeId : Nat) (queue : Option Nat) (side : Side) (id : Nat) : Prop :=
  (id = 0 ∧ ∀ x, ¬b.Queued vault outcomeId queue side x) ∨
    (b.Queued vault outcomeId queue side id ∧
      ∀ x, b.Queued vault outcomeId queue side x → b.rank side id ≤ b.rank side x)

theorem bestOrderForUnits_heads (h : Indexed b ∅) (vault : Address) (outcomeId : Nat) (side : Side) (units : Nat) :
    b.Heads vault outcomeId (some units) side (b.bestOrderForUnits vault outcomeId side units) :=
  first_spec h.units (vault, outcomeId, side, units)

theorem bestPartialOrder_heads (h : Indexed b ∅) (vault : Address) (outcomeId : Nat) (side : Side) :
    b.Heads vault outcomeId none side (b.bestPartialOrder vault outcomeId side) :=
  first_spec h.partials (vault, outcomeId, side)

/-- A step of `_matchOrders` looks at the heads of the queue that it considers. -/
theorem heads_spec (h : Indexed b ∅) (vault : Address) (outcomeId groupUnits : Nat) :
    b.Heads vault outcomeId (b.considered vault outcomeId groupUnits) .bid (b.heads vault outcomeId groupUnits).1 ∧
      b.Heads vault outcomeId (b.considered vault outcomeId groupUnits) .ask
        (b.heads vault outcomeId groupUnits).2 := by
  unfold heads considered
  by_cases hg : groupUnits = 0
  · simp only [hg, ne_eq, not_true_eq_false, if_true, if_false, true_and]
    split
    · exact ⟨bestOrderForUnits_heads h _ _ _ _, bestOrderForUnits_heads h _ _ _ _⟩
    · exact ⟨bestPartialOrder_heads h _ _ _, bestPartialOrder_heads h _ _ _⟩
  · simp only [hg, ne_eq, not_false_eq_true, if_true, if_false, false_and]
    exact ⟨bestOrderForUnits_heads h _ _ _ _, bestOrderForUnits_heads h _ _ _ _⟩

theorem Queued.listed {vault : Address} {outcomeId : Nat} {queue : Option Nat} {side : Side}
    (h : b.Queued vault outcomeId queue side id) :
    (b.orders id).active = true ∧ (b.orders id).autoMatch = true ∧ (b.orders id).key = (vault, outcomeId, side) := by
  cases queue with
  | some units =>
    refine ⟨h.1.1, h.1.2.1, ?_⟩
    have hk := h.2
    simp only [Order.unitsKey, Prod.mk.injEq] at hk
    simp only [Order.key, Prod.mk.injEq]
    exact ⟨hk.1, hk.2.1, hk.2.2.1⟩
  | none => exact ⟨h.1.1, h.1.2.1, h.2.2⟩

/-- Two orders of one queue have equal units, or both may be split. -/
theorem Queued.whole {vault : Address} {outcomeId x y : Nat} {queue : Option Nat} {side side' : Side}
    (hx : b.Queued vault outcomeId queue side x) (hy : b.Queued vault outcomeId queue side' y)
    (hp : b.orderAllowsPartialFills x = false ∨ b.orderAllowsPartialFills y = false) :
    (b.orders x).remainingUnits = (b.orders y).remainingUnits := by
  cases queue with
  | some units =>
    have hx := hx.2
    have hy := hy.2
    simp only [Order.unitsKey, Prod.mk.injEq] at hx hy
    exact hx.2.2.2.trans hy.2.2.2.symm
  | none =>
    rcases hp with hp | hp
    · rw [hx.2.1] at hp; cases hp
    · rw [hy.2.1] at hp; cases hp

end

end Book

end Cpredict
