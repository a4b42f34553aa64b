import Cpredict.Indexer.Accepted

/-!
# The stores

`MemoryEventStore` and `PostgresEventStore` keep the canonical data of every chain and the projections of their
events. They differ in the projections, and in what becomes of a stored block whose anchor comes again; a
`Projector` says what a store does there. A batch is checked and stored, and every event that is new is projected; a
rollback projects the events that are left once more, in the order of the chain.
-/

namespace Cpredict.Indexer

open Outcome

/-- How a store projects events. The projections of some of the chains are projections by themselves (`restrict`):
the events of a chain read and write those of the chain. -/
structure Projector (Q : Type) where
  empty : Q
  /-- The changes of an event. -/
  project : IndexedEvent → Q → Except ProjectionErr Q
  /-- `registeredMarkets`, which sorts them. -/
  registeredMarkets : Nat → Q → List Address
  /-- Whether an anchor is written over the stored block with its hash. -/
  overwrites : Bool
  restrict : (Nat → Bool) → Q → Q
  /-- Everything lies under the key of its chain. -/
  Keyed : Q → Prop
  keyed_empty : Keyed empty
  keyed_restrict : ∀ {p P}, Keyed P → Keyed (restrict p P)
  keyed_project : ∀ {event P P'}, Keyed P → project event P = .ok P' → Keyed P'
  project_restrict : ∀ {p event P}, Keyed P → p event.chainId = true →
    project event (restrict p P) = (project event P).map (restrict p)
  project_other : ∀ {p event P P'}, p event.chainId = false → project event P = .ok P' → restrict p P' = restrict p P
  restrict_restrict : ∀ p q P, restrict p (restrict q P) = restrict (fun c => p c && q c) P
  restrict_none : ∀ {p}, (∀ c, p c = false) → ∀ P, restrict p P = empty

namespace Projector

variable {Q : Type} (X : Projector Q)

/-- The changes of events, one after the other. -/
def projectAll (events : List IndexedEvent) (P : Q) : Except ProjectionErr Q :=
  events.foldlM (fun P event => X.project event P) P

/-- The projections of a chain. -/
def ofChain (chainId : Nat) (P : Q) : Q := X.restrict (fun c => decide (c = chainId)) P

def clearProjections (chainId : Nat) (P : Q) : Q := X.restrict (fun c => decide (c ≠ chainId)) P

section

variable {X} {p : Nat → Bool} {events : List IndexedEvent} {P P' : Q} {c : Nat}

theorem projectAll_keyed (hk : X.Keyed P) (hp : X.projectAll events P = .ok P') : X.Keyed P' :=
  foldlM_inv (fun _ _ _ _ hk hm => X.keyed_project hk hm) hk hp

/-- Events of some chains, to the part of the projections that has these chains. -/
theorem projectAll_restrict (hk : X.Keyed P) (h : ∀ e ∈ events, p e.chainId = true) :
    X.projectAll events (X.restrict p P) = (X.projectAll events P).map (X.restrict p) :=
  foldlM_map (fun _ _ _ _ hk hm => X.keyed_project hk hm) (fun e he _ hk => X.project_restrict hk (h e he)) hk

/-- Events leave the projections of other chains as they are. -/
theorem projectAll_other (h : ∀ e ∈ events, p e.chainId = false) (hp : X.projectAll events P = .ok P') :
    X.restrict p P' = X.restrict p P :=
  foldlM_inv (I := fun P' => X.restrict p P' = X.restrict p P)
    (fun e he _ _ hk hm => (X.project_other (h e he) hm).trans hk) rfl hp

@[simp] theorem ofChain_empty (X : Projector Q) (c : Nat) : X.ofChain c X.empty = X.empty := by
  have h := X.restrict_restrict (fun x => decide (x = c)) (fun _ => false) X.empty
  rw [X.restrict_none (fun _ => rfl)] at h
  exact h.trans (X.restrict_none (fun x => Bool.and_false _) _)

/-- What a rollback leaves of the projections of other chains. -/
theorem ofChain_clear {d : Nat} (hd : d ≠ c) (P : Q) : X.ofChain d (X.clearProjections c P) = X.ofChain d P := by
  unfold ofChain clearProjections
  rw [X.restrict_restrict]
  congr 1
  funext x
  by_cases hx : x = d
  · simp [hx, hd]
  · simp [hx]

theorem ofChain_clear_self (P : Q) : X.ofChain c (X.clearProjections c P) = X.empty := by
  unfold ofChain clearProjections
  rw [X.restrict_restrict]
  exact X.restrict_none (fun x => by by_cases hx : x = c <;> simp [hx]) P

theorem keyed_clear (hk : X.Keyed P) : X.Keyed (X.clearProjections c P) := X.keyed_restrict hk

/-- Events of a chain, to the projections of the chain. -/
theorem projectAll_ofChain (hk : X.Keyed P) (he : ∀ e ∈ events, e.chainId = c) (h : X.projectAll events P = .ok P') :
    X.projectAll events (X.ofChain c P) = .ok (X.ofChain c P') := by
  have hr : X.projectAll events (X.ofChain c P) = (X.projectAll events P).map (X.ofChain c) :=
    projectAll_restrict hk fun e hm => decide_eq_true (he e hm)
  rw [hr, h]
  rfl

theorem projectAll_ofChain_other {d : Nat} (hd : d ≠ c) (he : ∀ e ∈ events, e.chainId = c)
    (h : X.projectAll events P = .ok P') : X.ofChain d P' = X.ofChain d P :=
  projectAll_other (fun e hm => decide_eq_false fun hc => hd (hc.symm.trans (he e hm))) h

end

end Projector

/-- The checks of the projections. -/
def ofProjection {α : Type} (x : Except ProjectionErr α) : Except IndexerErr α := x.mapError .projection

@[simp] theorem ofProjection_eq_ok {α : Type} {x : Except ProjectionErr α} {a : α} : ofProjection x = .ok a ↔
    x = .ok a := by
  cases x <;> simp [ofProjection, Except.mapError]

structure EventStore (Q : Type) where
  /-- The checkpoint, the ranges, the blocks and the events of every chain. -/
  chains : Nat → ChainData
  projections : Q

namespace EventStore

section

variable {Q : Type} (X : Projector Q)

def fresh : EventStore Q := ⟨fun _ => .empty, X.empty⟩

/-- Every event that has not been stored is stored and projected. -/
def putEvents : List IndexedEvent → ChainData → Q → Except IndexerErr (ChainData × Q)
  | [], C, P => .ok (C, P)
  | event :: rest, C, P => do
    revertIf (C.hasBlock event.blockNumber event.blockHash = false) (.eventOffCanonical event.blockNumber)
    if C.events.any (ChainData.sameKey event) = true then putEvents rest C P
    else do
      let P ← ofProjection (X.project event P)
      putEvents rest { C with events := C.events ++ [event] } P

/-- A batch that the store already has as its last one. -/
def Committed (S : EventStore Q) (batch : CanonicalBatch) : Prop :=
  batch.range ∈ (S.chains batch.range.chainId).ranges ∧
    (S.chains batch.range.chainId).checkpoint = some batch.checkpoint

instance (S : EventStore Q) (batch : CanonicalBatch) : Decidable (S.Committed batch) :=
  inferInstanceAs (Decidable (_ ∧ _))

def applyBatch (S : EventStore Q) (batch : CanonicalBatch) : Except IndexerErr (EventStore Q) := do
  validateCanonicalBatch batch
  if S.Committed batch then .ok S
  else do
    let range := batch.range
    let C := S.chains range.chainId
    ChainData.checkContinues C.checkpoint range
    revertIf (∃ item ∈ C.ranges, item.fromBlock ≤ range.toBlock ∧ range.fromBlock ≤ item.toBlock) .overlappingRange
    let C ← ChainData.putBlocks X.overwrites batch.anchors C
    let x ← putEvents X batch.events C S.projections
    let C := x.1
    revertIf (C.hasBlock batch.checkpoint.blockNumber batch.checkpoint.blockHash = false) .checkpointNotPersisted
    let C := { C with ranges := C.ranges ++ [range], checkpoint := some batch.checkpoint }
    .ok { chains := Function.update S.chains range.chainId C, projections := x.2 }

/-- The events that a rollback leaves, in the order of the chain. -/
def retained (C : ChainData) (ancestor : Option Nat) : List IndexedEvent :=
  (C.removeAfter ancestor).events.insertionSort (eventLe · ·)

def rollbackAfter (chainId : Nat) (S : EventStore Q) (ancestor : Option Nat) : Except IndexerErr (EventStore Q) := do
  let C := (S.chains chainId).removeAfter ancestor
  let P ← ofProjection (X.projectAll (retained (S.chains chainId) ancestor) (X.clearProjections chainId S.projections))
  let checkpoint ← C.ancestorCheckpoint chainId ancestor
  .ok { chains := Function.update S.chains chainId { C with checkpoint }, projections := P }

/-- Batches, one after the other. -/
def applyAll (batches : List CanonicalBatch) (S : EventStore Q) : Except IndexerErr (EventStore Q) :=
  batches.foldlM (fun S batch => applyBatch X S batch) S

end

/-! ## What the operations do -/

section

variable {Q : Type} {X : Projector Q} {S S' : EventStore Q} {C C' : ChainData} {P P' : Q} {batch : CanonicalBatch}
  {events : List IndexedEvent} {anchors : List CanonicalBlock} {a : CanonicalBlock}

/-- The events that are new, one after the other. -/
def firsts (known : List IndexedEvent) : List IndexedEvent → List IndexedEvent
  | [] => []
  | event :: rest =>
    if known.any (ChainData.sameKey event) = true then firsts known rest else event :: firsts (known ++ [event]) rest

theorem firsts_subset {known : List IndexedEvent} {e : IndexedEvent} (h : e ∈ firsts known events) : e ∈ events := by
  induction events generalizing known with
  | nil => cases h
  | cons x rest ih =>
    unfold firsts at h
    split at h
    · exact List.mem_cons_of_mem _ (ih h)
    · rcases List.mem_cons.mp h with rfl | h
      · exact List.mem_cons_self
      · exact List.mem_cons_of_mem _ (ih h)

theorem firsts_sublist (known events : List IndexedEvent) : (firsts known events).Sublist events := by
  induction events generalizing known with
  | nil => exact .slnil
  | cons x rest ih =>
    unfold firsts
    split
    · exact (ih known).cons x
    · exact (ih _).cons_cons x

theorem firsts_append (known xs ys : List IndexedEvent) :
    firsts known (xs ++ ys) = firsts known xs ++ firsts (known ++ firsts known xs) ys := by
  induction xs generalizing known with
  | nil => simp [firsts]
  | cons x xs ih =>
    rw [List.cons_append, firsts, firsts]
    split
    · exact ih known
    · rw [ih]
      simp

/-- The new events of a batch: their blocks are stored, they are stored themselves, and they are projected. -/
theorem putEvents_iff {x : ChainData × Q} :
    putEvents X events C P = .ok x ↔
      (∀ e ∈ events, C.hasBlock e.blockNumber e.blockHash = true) ∧
      x.1 = { C with events := C.events ++ firsts C.events events } ∧
      X.projectAll (firsts C.events events) P = .ok x.2 := by
  induction events generalizing C P with
  | nil =>
    simp only [putEvents, firsts, Projector.projectAll, List.foldlM_nil, List.append_nil]
    constructor
    · intro h
      obtain rfl := Except.ok.inj h
      exact ⟨fun e he => absurd he List.not_mem_nil, rfl, rfl⟩
    · rintro ⟨-, h₁, h₂⟩
      exact congrArg Except.ok (Prod.ext h₁.symm (Except.ok.inj h₂))
  | cons e rest ih =>
    simp only [putEvents, firsts, bind_eq_ok, revertIf_eq_ok, Bool.not_eq_false, List.forall_mem_cons]
    by_cases hk : C.events.any (ChainData.sameKey e) = true
    · simp only [if_pos hk]
      constructor
      · rintro ⟨-, hb, h⟩
        obtain ⟨hrest, hx⟩ := ih.mp h
        exact ⟨⟨hb, hrest⟩, hx⟩
      · rintro ⟨⟨hb, hrest⟩, hx⟩
        exact ⟨(), hb, ih.mpr ⟨hrest, hx⟩⟩
    · simp only [if_neg hk, bind_eq_ok, ofProjection_eq_ok, Projector.projectAll, List.foldlM_cons]
      constructor
      · rintro ⟨-, hb, P₁, hP, h⟩
        obtain ⟨hrest, hx, hP'⟩ := ih.mp h
        exact ⟨⟨hb, hrest⟩, by rw [hx, List.append_assoc]; rfl, P₁, hP, hP'⟩
      · rintro ⟨⟨hb, hrest⟩, hx, P₁, hP, hP'⟩
        exact ⟨(), hb, P₁, hP, ih.mpr ⟨hrest, by rw [hx, List.append_assoc]; rfl, hP'⟩⟩

/-- The data of the chain after a batch. -/
def taken (overwrites : Bool) (batch : CanonicalBatch) (C : ChainData) : ChainData where
  checkpoint := some batch.checkpoint
  ranges := C.ranges ++ [batch.range]
  blocks := putAll overwrites C.blocks batch.anchors
  events := C.events ++ firsts C.events batch.events

/-- What the store does with a batch that it has not committed yet. -/
structure Taken (X : Projector Q) (S : EventStore Q) (batch : CanonicalBatch) (S' : EventStore Q) : Prop where
  valid : Valid batch
  continues : Continues (S.chains batch.range.chainId).checkpoint batch.range
  apart : ∀ item ∈ (S.chains batch.range.chainId).ranges,
    ¬(item.fromBlock ≤ batch.range.toBlock ∧ batch.range.fromBlock ≤ item.toBlock)
  blocks : Matching (S.chains batch.range.chainId).blocks batch.anchors
  chains : S'.chains =
    Function.update S.chains batch.range.chainId (taken X.overwrites batch (S.chains batch.range.chainId))
  projections : X.projectAll (firsts (S.chains batch.range.chainId).events batch.events) S.projections =
    .ok S'.projections

theorem hasBlock_putAll {overwrites : Bool} (hc : Consistent anchors) (hm : Matching C.blocks anchors)
    (ha : a ∈ anchors) :
    ChainData.hasBlock { C with blocks := putAll overwrites C.blocks anchors } a.blockNumber a.blockHash = true :=
  decide_eq_true (putAll_hash hc hm ha)

theorem applyBatch_iff (hn : ¬S.Committed batch) : S.applyBatch X batch = .ok S' ↔ Taken X S batch S' := by
  simp only [applyBatch, if_neg hn, bind_eq_ok, revertIf_eq_ok, not_exists, not_and]
  constructor
  · rintro ⟨⟨⟩, hv, ⟨⟩, hcont, -, hapart, C, hb, x, he, -, -, hS⟩
    have hv := validateCanonicalBatch_iff.mp hv
    obtain ⟨hsame, rfl⟩ := (putBlocks_iff hv.consistent).mp hb
    obtain ⟨-, hx, hP⟩ := putEvents_iff.mp he
    obtain rfl := Except.ok.inj hS
    refine ⟨hv, checkContinues_iff.mp hcont, fun item hi hi' => hapart item hi hi'.1 hi'.2, hsame, ?_, hP⟩
    rw [hx]
    rfl
  · intro h
    have hP : X.projectAll (firsts
        { S.chains batch.range.chainId with
          blocks := putAll X.overwrites (S.chains batch.range.chainId).blocks batch.anchors }.events batch.events)
          S.projections = .ok S'.projections := h.projections
    refine ⟨(), validateCanonicalBatch_iff.mpr h.valid, (), checkContinues_iff.mpr h.continues, (),
      fun item hi h₁ h₂ => h.apart item hi ⟨h₁, h₂⟩, _, (putBlocks_iff h.valid.consistent).mpr ⟨h.blocks, rfl⟩, _,
      (putEvents_iff (x := (_, S'.projections))).mpr ⟨fun e he => ?_, rfl, hP⟩, (), ?_, ?_⟩
    · obtain ⟨a, ha, hn, hh⟩ := (h.valid.events e he).anchored
      rw [← hn, ← hh]
      exact hasBlock_putAll h.valid.consistent h.blocks ha
    · obtain ⟨a, ha, hn, hh⟩ := h.valid.endpoint
      rw [h.valid.checkpoint, ← hn, ← hh, Bool.not_eq_false]
      exact hasBlock_putAll h.valid.consistent h.blocks ha
    · have hS : S' = ⟨S'.chains, S'.projections⟩ := rfl
      rw [hS, h.chains]
      rfl

theorem applyBatch_committed (hc : S.Committed batch) (h : S.applyBatch X batch = .ok S') : S' = S := by
  simp only [applyBatch, if_pos hc, bind_eq_ok] at h
  obtain ⟨-, -, h⟩ := h
  exact (Except.ok.inj h).symm

theorem Taken.chain_self (h : Taken X S batch S') :
    S'.chains batch.range.chainId = taken X.overwrites batch (S.chains batch.range.chainId) := by
  rw [h.chains, Function.update_self]

theorem Taken.chain_other {c : Nat} (h : Taken X S batch S') (hc : c ≠ batch.range.chainId) :
    S'.chains c = S.chains c := by
  rw [h.chains, Function.update_of_ne hc]

end

/-! ## A rollback -/

section

variable {Q : Type} {X : Projector Q} {S S' : EventStore Q} {C : ChainData} {c : Nat} {ancestor : Option Nat}

/-- What a rollback does. -/
structure RolledBack (X : Projector Q) (c : Nat) (S : EventStore Q) (ancestor : Option Nat) (S' : EventStore Q) :
    Prop where
  checkpoint : ((S.chains c).removeAfter ancestor).ancestorCheckpoint c ancestor = .ok (S'.chains c).checkpoint
  chains : S'.chains = Function.update S.chains c
    { (S.chains c).removeAfter ancestor with checkpoint := (S'.chains c).checkpoint }
  projections : X.projectAll (retained (S.chains c) ancestor) (X.clearProjections c S.projections) = .ok S'.projections

theorem rollbackAfter_iff : S.rollbackAfter X c ancestor = .ok S' ↔ RolledBack X c S ancestor S' := by
  simp only [rollbackAfter, bind_eq_ok, ofProjection_eq_ok]
  constructor
  · rintro ⟨P, hP, checkpoint, hc, hS⟩
    obtain rfl := Except.ok.inj hS
    refine ⟨?_, ?_, hP⟩
    · simpa using hc
    · simp
  · intro h
    refine ⟨_, h.projections, _, h.checkpoint, ?_⟩
    have hS : S' = ⟨S'.chains, S'.projections⟩ := rfl
    conv_rhs => rw [hS, h.chains]

theorem RolledBack.chain_self (h : RolledBack X c S ancestor S') :
    S'.chains c = { (S.chains c).removeAfter ancestor with checkpoint := (S'.chains c).checkpoint } := by
  have hself := congrFun h.chains c
  rwa [Function.update_self] at hself

theorem RolledBack.chain_other {d : Nat} (h : RolledBack X c S ancestor S') (hd : d ≠ c) :
    S'.chains d = S.chains d := by
  rw [h.chains, Function.update_of_ne hd]

theorem RolledBack.events (h : RolledBack X c S ancestor S') :
    (S'.chains c).events = (S.chains c).events.filter fun e => ChainData.keeps ancestor e.blockNumber := by
  rw [h.chain_self]
  rfl

theorem RolledBack.ranges (h : RolledBack X c S ancestor S') :
    (S'.chains c).ranges = (S.chains c).ranges.filter fun r => ChainData.keeps ancestor r.toBlock := by
  rw [h.chain_self]
  rfl

theorem RolledBack.blocks (h : RolledBack X c S ancestor S') :
    (S'.chains c).blocks = fun n => if ChainData.keeps ancestor n = true then (S.chains c).blocks n else none := by
  rw [h.chain_self]
  rfl

@[simp] theorem keeps_some (n m : Nat) : ChainData.keeps (some n) m = true ↔ m ≤ n := decide_eq_true_iff

/-- A rollback to a block needs the block, and makes it the checkpoint. -/
theorem RolledBack.block {n : Nat} (h : RolledBack X c S (some n) S') :
    ∃ b, (S.chains c).blocks n = some b ∧ (S'.chains c).checkpoint = some ⟨c, n, b.blockHash⟩ := by
  have hc := h.checkpoint
  simp only [ChainData.ancestorCheckpoint, ChainData.removeAfter, (keeps_some n n).mpr (Nat.le_refl n), if_true] at hc
  cases hb : (S.chains c).blocks n with
  | none =>
    rw [hb] at hc
    cases hc
  | some b =>
    rw [hb] at hc
    exact ⟨b, rfl, (Except.ok.inj hc).symm⟩

/-- A rollback that leaves nothing. -/
theorem RolledBack.chain_empty (h : RolledBack X c S none S') : S'.chains c = .empty := by
  have hc : (S'.chains c).checkpoint = none := (Except.ok.inj h.checkpoint).symm
  rw [h.chain_self, hc]
  simp [ChainData.removeAfter, ChainData.empty, ChainData.keeps]

theorem mem_retained {e : IndexedEvent} (h : e ∈ retained C ancestor) : e ∈ C.events :=
  (List.mem_filter.mp ((List.mem_insertionSort _).mp h)).1

end

end EventStore

end Cpredict.Indexer
