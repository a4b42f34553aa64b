import Cpredict.Book.Escrow

/-!
# The queues of the orderbook

What the three families of heaps hold in every reachable state, and which orders `_matchOrders` therefore takes: the
best of the queue that it considers, by price and then by age.
-/

namespace Cpredict

open Outcome IndexedHeap

namespace Book

/-- The active automatic orders of a key. -/
def members (b : Book) (vault : Address) (outcomeId : Nat) (side : Side) : Set Nat :=
  {id | (b.orders id).active = true ∧ (b.orders id).autoMatch = true ∧ (b.orders id).vault = vault ∧
    (b.orders id).outcomeId = outcomeId ∧ (b.orders id).side = side}

/-- Those of them that have `units` left. -/
def unitMembers (b : Book) (vault : Address) (outcomeId : Nat) (side : Side) (units : Nat) : Set Nat :=
  {id | id ∈ b.members vault outcomeId side ∧ (b.orders id).remainingUnits = units}

/-- Those of them that may be split. -/
def partialMembers (b : Book) (vault : Address) (outcomeId : Nat) (side : Side) : Set Nat :=
  {id | id ∈ b.members vault outcomeId side ∧ b.orderAllowsPartialFills id = true}

/-- A heap holds the given orders, each once, in heap order for `_better`, and the offsets are its inverse. -/
structure HeapOf (b : Book) (heap : Slots Nat) (offset : Nat → Nat) (orders : Set Nat) : Prop where
  mem : ∀ i < heap.length, heap.slot i ∈ orders
  once : ∀ id ∈ orders, ∃! i, i < heap.length ∧ heap.slot i = id
  ordered : ∀ i < heap.length, i ≠ 0 → b.better (heap.slot i) (heap.slot ((i - 1) / 2)) = false
  inverse : ∀ i < heap.length, offset (heap.slot i) = i + 1

/-- The best order of a set: its one member better than all others, or zero if there is none. -/
def BestOf (b : Book) (orders : Set Nat) (best : Nat) : Prop :=
  (best = 0 ↔ orders = ∅) ∧ (best ≠ 0 → best ∈ orders ∧ ∀ id ∈ orders, id ≠ best → b.better best id = true)

/-- The three families of heaps, and that an order in none of a family has the offset zero there. -/
structure Queues (b : Book) : Prop where
  books : ∀ vault outcomeId side,
    b.HeapOf (b.books (vault, outcomeId, side)) b.positions (b.members vault outcomeId side)
  unitBooks : ∀ vault outcomeId side units, b.HeapOf (b.unitBooks (vault, outcomeId, side, units)) b.unitPositions
    (b.unitMembers vault outcomeId side units)
  partialBooks : ∀ vault outcomeId side,
    b.HeapOf (b.partialBooks (vault, outcomeId, side)) b.partialPositions (b.partialMembers vault outcomeId side)
  positions : ∀ id, b.positions id = 0 ↔ ∀ k, ∀ i < (b.books k).length, (b.books k).slot i ≠ id
  unitPositions : ∀ id, b.unitPositions id = 0 ↔ ∀ k, ∀ i < (b.unitBooks k).length, (b.unitBooks k).slot i ≠ id
  partialPositions : ∀ id, b.partialPositions id = 0 ↔
    ∀ k, ∀ i < (b.partialBooks k).length, (b.partialBooks k).slot i ≠ id

section

variable {b : Book} {vault : Address} {outcomeId : Nat} {side : Side}

theorem inBook_iff (id : Nat) : b.InBook ∅ id (vault, outcomeId, side) ↔ id ∈ b.members vault outcomeId side := by
  unfold InBook Listed members Order.key
  simp only [Set.mem_empty_iff_false, not_false_eq_true, and_true, Prod.mk.injEq, Set.mem_ofPred_eq]
  tauto

theorem inUnitBook_iff (id units : Nat) :
    b.InUnitBook ∅ id (vault, outcomeId, side, units) ↔ id ∈ b.unitMembers vault outcomeId side units := by
  unfold InUnitBook Listed unitMembers members Order.unitsKey
  simp only [Set.mem_empty_iff_false, not_false_eq_true, and_true, Prod.mk.injEq, Set.mem_ofPred_eq]
  tauto

theorem inPartialBook_iff (id : Nat) :
    b.InPartialBook ∅ id (vault, outcomeId, side) ↔ id ∈ b.partialMembers vault outcomeId side := by
  unfold InPartialBook Listed partialMembers members Order.key
  simp only [Set.mem_empty_iff_false, not_false_eq_true, and_true, Prod.mk.injEq, Set.mem_ofPred_eq]
  tauto

variable {ι : Type} {heaps : ι → Slots Nat} {offset : Nat → Nat} {filed : Nat → ι → Prop}
  {sides : ι → Side} {k : ι} {orders : Set Nat}

/-- A heap of a family, in the words of the source. -/
theorem heapOf_family (h : Family heaps offset filed fun k => b.rank (sides k)) (hs : ∀ x, filed x k →
    (b.orders x).side = sides k) (ho : ∀ x, filed x k ↔ x ∈ orders) : b.HeapOf (heaps k) offset orders where
  mem := fun i hi => (ho _).mp ((h.holds k).mem i hi)
  once := fun id hid => by
    obtain ⟨i, hi, hx⟩ := (h.holds k).slot id ((ho id).mpr hid)
    exact ⟨i, ⟨hi, hx⟩, fun j hj => (h.holds k).inj hj.1 hi (hj.2.trans hx.symm)⟩
  ordered := fun i hi h0 => by
    have hle := h.ordered k i (Nat.pos_of_ne_zero h0) hi
    have hside := hs _ ((h.holds k).mem i hi)
    rw [Bool.eq_false_iff]
    intro hb
    rw [better_iff b hside] at hb
    exact absurd hle (not_le.mpr hb)
  inverse := fun i hi => (h.holds k).offset i hi

variable [DecidableEq ι]

/-- An offset is zero iff its order is in no heap of the family. -/
theorem offset_family {r : ι → Nat → ℤ ×ₗ ℕ} (h : Family heaps offset filed r) (id : Nat) :
    offset id = 0 ↔ ∀ k, ∀ i < (heaps k).length, (heaps k).slot i ≠ id := by
  constructor
  · rintro h0 k i hi rfl
    exact (h.offset_ne_zero_iff _).mpr ⟨k, (h.holds k).mem i hi⟩ h0
  · intro hno
    by_contra h0
    obtain ⟨k, hk⟩ := (h.offset_ne_zero_iff id).mp h0
    obtain ⟨i, hi, hx⟩ := (h.holds k).slot id hk
    exact hno k i hi hx

/-- The first order of a heap of a family is its best. -/
theorem bestOf_family (h : Family heaps offset filed fun k => b.rank (sides k)) (hs : ∀ x, filed x k →
    (b.orders x).side = sides k) (ho : ∀ x, filed x k ↔ x ∈ orders) (h0 : 0 ∉ orders) :
    b.BestOf orders (first (heaps k)) := by
  rcases first_spec h k with ⟨hz, hnone⟩ | ⟨hin, hmin⟩
  · refine ⟨⟨fun _ => Set.eq_empty_of_forall_notMem fun x hx => hnone x ((ho x).mpr hx), fun _ => hz⟩, fun hne => ?_⟩
    exact absurd hz hne
  · have hmem := (ho _).mp hin
    have hne : first (heaps k) ≠ 0 := fun e => h0 (e ▸ hmem)
    refine ⟨⟨fun e => absurd e hne, fun e => ?_⟩, fun _ => ⟨hmem, fun x hx hxne => ?_⟩⟩
    · rw [e] at hmem
      exact absurd hmem (Set.notMem_empty _)
    · exact better_total b (hs _ hin) (hmin x ((ho x).mpr hx)) hxne

end

/-- What the heaps hold, if they hold the orders that they should. -/
theorem Indexed.queues {b : Book} (h : b.Indexed ∅) : Queues b where
  books := fun vault outcomeId side =>
    heapOf_family (k := (vault, outcomeId, side)) h.books (fun _ hx => hx.side) inBook_iff
  unitBooks := fun vault outcomeId side units =>
    heapOf_family (k := (vault, outcomeId, side, units)) h.units (fun _ hx => hx.side) fun id => inUnitBook_iff id units
  partialBooks := fun vault outcomeId side =>
    heapOf_family (k := (vault, outcomeId, side)) h.partials (fun _ hx => hx.side) inPartialBook_iff
  positions := offset_family h.books
  unitPositions := offset_family h.units
  partialPositions := offset_family h.partials

end Book

namespace World

variable {D : Deployment} {q : Prop} {W : World}

/-- No order has the id zero. -/
theorem Inv.zero_notMem {T : Set Nat} (h : Inv D q W T) (vault : Address) (outcomeId : Nat) (side : Side) :
    0 ∉ W.book.members vault outcomeId side := fun hx => (h.custody.created hx.1).1 rfl

/-- In every reachable state the heaps hold exactly the orders that they are for, in heap order, and the best orders
are what the getters return. -/
theorem order_queues (h : Reachable D q W) :
    W.book.Queues ∧
      (∀ vault outcomeId side,
        W.book.BestOf (W.book.members vault outcomeId side) (W.book.bestOrder vault outcomeId side)) ∧
      (∀ vault outcomeId side units, W.book.BestOf (W.book.unitMembers vault outcomeId side units)
        (W.book.bestOrderForUnits vault outcomeId side units)) ∧
      ∀ vault outcomeId side, W.book.BestOf (W.book.partialMembers vault outcomeId side)
        (W.book.bestPartialOrder vault outcomeId side) := by
  have hinv := h.inv
  have h0 := hinv.zero_notMem
  refine ⟨hinv.indexed.queues, fun vault outcomeId side => ?_, fun vault outcomeId side units => ?_,
    fun vault outcomeId side => ?_⟩
  · exact Book.bestOf_family (k := (vault, outcomeId, side)) hinv.indexed.books (fun _ hx => hx.side) Book.inBook_iff
      (h0 vault outcomeId side)
  · exact Book.bestOf_family (k := (vault, outcomeId, side, units)) hinv.indexed.units (fun _ hx => hx.side)
      (fun id => Book.inUnitBook_iff id units) fun hx => h0 vault outcomeId side hx.1
  · exact Book.bestOf_family (k := (vault, outcomeId, side)) hinv.indexed.partials (fun _ hx => hx.side)
      Book.inPartialBook_iff fun hx => h0 vault outcomeId side hx.1

/-! ## Priority -/

/-- The orders of the queue that a step of `_matchOrders` considers. -/
def queueMembers (b : Book) (market : Address) (outcomeId : Nat) (queue : Option Nat) (side : Side) : Set Nat :=
  match queue with
  | some units => b.unitMembers market outcomeId side units
  | none => b.partialMembers market outcomeId side

/-- An order that can still trade. -/
def Live (W : World) (id : Nat) : Prop :=
  (W.book.orders id).active = true ∧ W.core.now < (W.book.orders id).expiresAt ∧
    (W.core.vaults (W.book.orders id).vault).isTerminal = false

/-- A fill by price and age: both orders are live and the best of the queue, the older one makes the price. -/
structure Fair (W : World) (market : Address) (outcomeId groupUnits bidId askId units price : Nat) : Prop where
  live : W.Live bidId ∧ W.Live askId
  owners : (W.book.orders bidId).owner ≠ (W.book.orders askId).owner
  bid : bidId ∈ queueMembers W.book market outcomeId (W.book.considered market outcomeId groupUnits) .bid ∧
    ∀ id ∈ queueMembers W.book market outcomeId (W.book.considered market outcomeId groupUnits) .bid,
      W.book.better id bidId = false
  ask : askId ∈ queueMembers W.book market outcomeId (W.book.considered market outcomeId groupUnits) .ask ∧
    ∀ id ∈ queueMembers W.book market outcomeId (W.book.considered market outcomeId groupUnits) .ask,
      W.book.better id askId = false
  maker : price = (W.book.orders (min bidId askId)).unitPrice
  bounds : (W.book.orders askId).unitPrice ≤ price ∧ price ≤ (W.book.orders bidId).unitPrice
  size : units = min (W.book.orders bidId).remainingUnits (W.book.orders askId).remainingUnits

/-- The heads of a step cross and are both live, and have one owner. -/
structure SelfCrossing (W : World) (market : Address) (outcomeId groupUnits bidId askId : Nat) : Prop where
  heads : W.book.heads market outcomeId groupUnits = (bidId, askId)
  present : bidId ≠ 0 ∧ askId ≠ 0
  live : W.Live bidId ∧ W.Live askId
  crossed : (W.book.orders askId).unitPrice ≤ (W.book.orders bidId).unitPrice
  owner : (W.book.orders bidId).owner = (W.book.orders askId).owner

/-- The order `id` is released, all its units and payment with it, and nothing happens to any other order. -/
structure OnlyReleased (W : World) (id : Nat) (W' : World) : Prop where
  released : (W'.book.orders id).active = false ∧ (W'.book.orders id).remainingUnits = 0
  others : ∀ x, x ≠ id → W'.book.orders x = W.book.orders x ∧ W'.book.pendingShares x = W.book.pendingShares x
  log : ∃ returned deferred, returned + deferred = (W.book.orders id).askUnits ∧ orderLog W'.core.log =
    orderLog W.core.log ++ releaseEvents id (W.book.orders id) .selfCross returned deferred

/-- One iteration of `_matchOrders`. -/
structure Iteration where
  before : World
  turn : Turn
  after : World

/-- What an iteration may do: a fair fill, and of a self-cross only the release of the younger order. -/
structure Iteration.Fair (x : Iteration) (market : Address) (outcomeId groupUnits : Nat) : Prop where
  filled : ∀ bidId askId units price, x.turn = .filled bidId askId units price →
    World.Fair x.before market outcomeId groupUnits bidId askId units price
  selfCross : ∀ bidId askId, SelfCrossing x.before market outcomeId groupUnits bidId askId →
    x.turn = .released (max bidId askId) ∧ OnlyReleased x.before (max bidId askId) x.after

/-- The iterations of the loop of `_matchOrders`. -/
inductive Loop (D : Deployment) {q : Prop} (R : Receivers D q) (market : Address) (outcomeId groupUnits : Nat) :
    Nat → World → List Iteration → World → Prop
  | finished (W : World) : Loop D R market outcomeId groupUnits 0 W [] W
  | stopped (steps : Nat) (W W' : World) : matchStep D R W market outcomeId groupUnits = .ok (.stopped, W') →
    Loop D R market outcomeId groupUnits (steps + 1) W [⟨W, .stopped, W'⟩] W'
  | turned (steps : Nat) (W W₁ W' : World) (turn : Turn) (xs : List Iteration) : turn ≠ .stopped →
    matchStep D R W market outcomeId groupUnits = .ok (turn, W₁) →
    Loop D R market outcomeId groupUnits steps W₁ xs W' →
    Loop D R market outcomeId groupUnits (steps + 1) W (⟨W, turn, W₁⟩ :: xs) W'

/-- Whether an iteration fills. -/
def Iteration.fills (x : Iteration) : Bool :=
  match x.turn with
  | .filled .. => true
  | _ => false

section

variable {R : Receivers D q} {W' : World} {market : Address} {outcomeId groupUnits bidId askId : Nat}

theorem queued_iff {b : Book} (queue : Option Nat) (side : Side) (id : Nat) :
    b.Queued market outcomeId queue side id ↔ id ∈ queueMembers b market outcomeId queue side := by
  cases queue with
  | some units => exact Book.inUnitBook_iff id units
  | none => exact Book.inPartialBook_iff id

theorem live_of_fresh {id : Nat} (ha : (W.book.orders id).active = true) (hs : W.stale id = false) : W.Live id := by
  simp only [stale, ha, Bool.true_and, Bool.or_eq_false_iff, decide_eq_false_iff_not, not_le] at hs
  exact ⟨ha, hs.1, hs.2⟩

theorem Live.fresh {id : Nat} (h : W.Live id) : W.stale id = false := by
  simp only [stale, h.1, Bool.true_and, Bool.or_eq_false_iff, decide_eq_false_iff_not, not_le]
  exact h.2

/-- No order of a queue is better than its head. -/
theorem head_best {b : Book} {queue : Option Nat} {side : Side} {id : Nat}
    (hq : b.Queued market outcomeId queue side id)
    (hh : b.Heads market outcomeId queue side id) (h0 : ¬b.Queued market outcomeId queue side 0) :
    id ∈ queueMembers b market outcomeId queue side ∧
      ∀ x ∈ queueMembers b market outcomeId queue side, b.better x id = false := by
  refine ⟨(queued_iff _ _ _).mp hq, fun x hx => ?_⟩
  have hx := (queued_iff _ _ _).mpr hx
  rcases hh with ⟨rfl, _⟩ | ⟨_, hmin⟩
  · exact absurd hq h0
  · have hside : (b.orders x).side = side := congrArg (fun k => k.2.2) hx.listed.2.2
    rw [Bool.eq_false_iff]
    intro hb
    rw [Book.better_iff b hside] at hb
    exact absurd (hmin x hx) (not_le.mpr hb)

/-- A fill of a step is fair. -/
theorem Turned.fair {units price : Nat} (h : Inv D q W ∅)
    (ht : Turned D q W market outcomeId groupUnits (.filled bidId askId units price) W') :
    Fair W market outcomeId groupUnits bidId askId units price := by
  obtain ⟨hb, ha⟩ := Book.heads_spec h.indexed market outcomeId groupUnits
  cases ht with
  | filled _ _ _ hh hq hl ho hp =>
    rw [hh] at hb ha
    have h0 : ∀ side, ¬W.book.Queued market outcomeId (W.book.considered market outcomeId groupUnits) side 0 :=
      fun side hx => (h.custody.created hx.listed.1).1 rfl
    have hmin : (if bidId < askId then bidId else askId) = min bidId askId := by split <;> omega
    exact
      { live := ⟨live_of_fresh hp.crossing.bid.1 hl.1, live_of_fresh hp.crossing.ask.1 hl.2⟩
        owners := ho
        bid := head_best hq.1 hb (h0 _)
        ask := head_best hq.2 ha (h0 _)
        maker := by unfold makerPrice; rw [hmin]
        bounds := hp.crossing.price
        size := rfl }

/-- The step at heads with one owner. -/
theorem matchStep_selfCross (h : SelfCrossing W market outcomeId groupUnits bidId askId) :
    matchStep D R W market outcomeId groupUnits =
      (release D R W (max bidId askId) .selfCross >>= fun W' => .ok (.released (max bidId askId), W')) := by
  have hmax : (if askId < bidId then bidId else askId) = max bidId askId := by split <;> omega
  unfold matchStep
  rw [h.heads]
  simp only
  have hbid : ¬(bidId ≠ 0 ∧ W.stale bidId = true) := fun hx => by
    rw [h.live.1.fresh] at hx
    cases hx.2
  have hask : ¬(askId ≠ 0 ∧ W.stale askId = true) := fun hx => by
    rw [h.live.2.fresh] at hx
    cases hx.2
  rw [if_neg hbid, if_neg hask, if_neg (not_or.mpr h.present), if_neg (not_lt.mpr h.crossed), if_pos h.owner, hmax]

theorem Released.only {id returned deferred : Nat} (hr : Released D q W ∅ id .selfCross W' returned deferred) :
    OnlyReleased W id W' := by
  have horder : ∀ x, W'.book.orders x = (W'.book.account).orders x := fun _ => rfl
  have hpending : ∀ x, W'.book.pendingShares x = (W'.book.account).pendingShares x := fun _ => rfl
  refine ⟨?_, fun x hx => ?_, returned, deferred, hr.units, hr.stretch.flow.orders⟩
  · rw [horder, hr.stretch.account, Account.alter_orders_self]
    exact ⟨rfl, rfl⟩
  · rw [horder, hpending, hr.stretch.account, Account.alter_orders_of_ne hx, Account.alter_pending_of_ne hx]
    exact ⟨rfl, rfl⟩

/-- Every iteration is fair. -/
theorem matchStep_fair {turn : Turn} (h : Inv D q W ∅)
    (hs : matchStep D R W market outcomeId groupUnits = .ok (turn, W')) :
    Iteration.Fair ⟨W, turn, W'⟩ market outcomeId groupUnits := by
  have ht : Turned D q W market outcomeId groupUnits turn W' := (matchStep_ends h market outcomeId groupUnits).of_ok hs
  refine ⟨?_, fun bidId askId hc => ?_⟩
  · rintro bidId askId units price rfl
    exact ht.fair h
  · rw [matchStep_selfCross hc] at hs
    obtain ⟨W₁, hr, he⟩ := bind_eq_ok.mp hs
    cases he
    have hactive : (W.book.orders (max bidId askId)).active = true := by
      rcases max_choice bidId askId with hm | hm
      · rw [hm]; exact hc.live.1.1
      · rw [hm]; exact hc.live.2.1
    obtain ⟨returned, deferred, hrel⟩ := (release_ends h hactive).of_ok hr
    exact ⟨rfl, hrel.only⟩

/-- The loop of `_matchOrders`: its fills are counted, and every iteration is fair. -/
theorem matchLoop_fair {steps fills total : Nat} (h : Inv D q W ∅)
    (hl : matchLoop D R market outcomeId groupUnits steps W fills = .ok (W', total)) :
    ∃ xs, Loop D R market outcomeId groupUnits steps W xs W' ∧ total = fills + xs.countP Iteration.fills ∧
      ∀ x ∈ xs, x.Fair market outcomeId groupUnits := by
  induction steps generalizing W fills with
  | zero =>
    simp only [matchLoop, Except.ok.injEq, Prod.mk.injEq] at hl
    obtain ⟨rfl, rfl⟩ := hl
    exact ⟨[], .finished W, rfl, List.forall_mem_nil _⟩
  | succ steps ih =>
    unfold matchLoop at hl
    obtain ⟨⟨turn, W₁⟩, hs, hl⟩ := bind_eq_ok.mp hl
    have hfair := matchStep_fair h hs
    have hinv : Inv D q W₁ ∅ := Turned.inv h ((matchStep_ends h market outcomeId groupUnits).of_ok hs)
    cases turn with
    | stopped =>
      simp only [Except.ok.injEq, Prod.mk.injEq] at hl
      obtain ⟨rfl, rfl⟩ := hl
      exact ⟨_, .stopped steps W W₁ hs, rfl, fun x hx => by rw [List.mem_singleton.mp hx]; exact hfair⟩
    | released id =>
      obtain ⟨xs, hx, ht, hall⟩ := ih hinv hl
      exact ⟨_, .turned steps W W₁ W' (.released id) xs nofun hs hx, ht, List.forall_mem_cons.mpr ⟨hfair, hall⟩⟩
    | filled bidId askId units price =>
      obtain ⟨xs, hx, ht, hall⟩ := ih hinv hl
      refine ⟨_, .turned steps W W₁ W' (.filled bidId askId units price) xs nofun hs hx, ?_,
        List.forall_mem_cons.mpr ⟨hfair, hall⟩⟩
      rw [ht, List.countP_cons_of_pos rfl]
      omega

/-- The iterations of every call of `_matchOrders` from a reachable state: what they fill is the best of the queue on
both sides, at the price of the older order, and a self-cross only releases the younger one. -/
theorem match_priority (h : Reachable D q W) {maxSteps fills : Nat}
    (hm : matchGroup D R W market outcomeId groupUnits maxSteps = .ok (W', fills)) :
    ∃ xs, Loop D R market outcomeId groupUnits maxSteps W xs W' ∧ fills = xs.countP Iteration.fills ∧
      ∀ x ∈ xs, x.Fair market outcomeId groupUnits := by
  simp only [matchGroup, bind_eq_ok] at hm
  obtain ⟨_, _, _, _, hl⟩ := hm
  obtain ⟨xs, hx, ht, hall⟩ := matchLoop_fair h.inv hl
  exact ⟨xs, hx, by rw [ht, Nat.zero_add], hall⟩

end

end World

namespace Sample

/-- Four bids, of which the best is cancelled. -/
def queued : List Act := offer ++
  [.book true bob (.createOrder market 0 .bid 1000000 300000 100000 true),
   .book true bob (.createOrder market 0 .bid 1000000 450000 100000 true),
   .book true creator (.createOrder market 0 .bid 1000000 450000 100000 true),
   .book true bob (.createOrder market 0 .bid 2000000 400000 100000 true), .book true bob (.cancelOrder 3)]

/-- The orders of a heap, by their slots. -/
def listed (h : Slots Nat) : List Nat := (List.range h.length).map h.slot

end Sample

/-- The sample orderbook with three bids: of the two that bid most the younger one is left, and it is the best. -/
theorem order_queues_sample :
    (Sample.acted Sample.queued).book.Queues ∧
      Sample.listed ((Sample.acted Sample.queued).book.books (Sample.market, 0, .bid)) = [4, 5, 2] ∧
      Sample.listed ((Sample.acted Sample.queued).book.unitBooks (Sample.market, 0, .bid, 1000000)) = [4, 2] ∧
      (Sample.acted Sample.queued).book.BestOf ((Sample.acted Sample.queued).book.members Sample.market 0 .bid) 4 ∧
      (Sample.acted Sample.queued).book.bestPartialOrder Sample.market 0 .ask = 1 := by
  obtain ⟨hqueues, hbest, -, -⟩ := World.order_queues (Sample.acted_reachable Sample.queued)
  have hfour : (Sample.acted Sample.queued).book.bestOrder Sample.market 0 .bid = 4 := by decide +kernel
  exact ⟨hqueues, by decide +kernel, by decide +kernel, hfour ▸ hbest Sample.market 0 .bid, by decide +kernel⟩

/-- The sample orderbook: `matchOrders` fills once, the bid with the ask. -/
theorem match_priority_sample :
    ∃ W' xs, World.matchGroup Sample.deployment (Sample.receivers true) (Sample.acted Sample.bid) Sample.market 0 0 5 =
        .ok (W', 1) ∧
      World.Loop Sample.deployment (Sample.receivers true) Sample.market 0 0 5 (Sample.acted Sample.bid) xs W' ∧
      1 = xs.countP World.Iteration.fills ∧ ∀ x ∈ xs, World.Iteration.Fair x Sample.market 0 0 := by
  have hfills : (World.matchGroup Sample.deployment (Sample.receivers true) (Sample.acted Sample.bid) Sample.market 0 0
      5).toOption.map Prod.snd = some 1 := by decide +kernel
  rcases hm : World.matchGroup Sample.deployment (Sample.receivers true) (Sample.acted Sample.bid) Sample.market 0 0 5
    with e | ⟨W', fills⟩
  · rw [hm] at hfills
    cases hfills
  · rw [hm] at hfills
    cases hfills
    obtain ⟨xs, hx, hc, hall⟩ := World.match_priority (Sample.acted_reachable Sample.bid) hm
    exact ⟨W', xs, rfl, hx, hc, hall⟩

end Cpredict
