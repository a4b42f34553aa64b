import Cpredict.Indexer.Rollback
import Cpredict.Indexer.MemoryStore
import Cpredict.Protocol.Shares

/-!
# The positions of the indexer and the shares on the chain

The events that a store has of a chain tell transfers of shares. Projected one after the other they leave the
balances that the transfers give when they are replayed (`projectAll_tells`), so if they are those that the
contracts have logged, the positions are the balances on the chain, after any batches and rollbacks, and no transfer
is ever refused (`positions_of_chain`).
-/

namespace Cpredict.Indexer.Memory

open Outcome Transfers Tally OrderedMap

/-- The transfers that a decoded log of a market tells. -/
def DecodedLog.shareMoves (market : Address) : DecodedLog → List ShareMove
  | .TransferSingle source target id value => [⟨(market, id), source, target, value⟩]
  | .TransferBatch source target ids values => (ids.zip values).map fun p => ⟨(market, p.1), source, target, p.2⟩
  | _ => []

/-- The transfers that an event tells. -/
def shareMovesOf (decodeEventLog : IndexedEvent → Except ProjectionErr DecodedLog) (event : IndexedEvent) :
    List ShareMove :=
  match decodeEventLog event with
  | .ok d => d.shareMoves event.address
  | .error _ => []

/-- Whether a change is one of a position. -/
def DerivedMutation.isPosition : DerivedMutation → Bool
  | .positionDelta .. => true
  | _ => false

namespace Projections

/-- What the positions of a chain give an owner of an outcome of a market. -/
def balance (P : Projections) (chainId : Nat) (k : Address × Nat) (a : Address) : Int :=
  ((P.positions.get (positionKey chainId k.1 a k.2)).map PositionView.balance).getD 0

/-- The positions of a chain are the holdings `b`. -/
def Tells (chainId : Nat) (P : Projections) (b : Address × Nat → Address → Nat) : Prop :=
  ∀ k a, a ≠ 0 → P.balance chainId k a = b k a

section

variable {decodeEventLog : IndexedEvent → Except ProjectionErr DecodedLog} {event : IndexedEvent} {P P' : Projections}
  {b : Address × Nat → Address → Nat} {c : Nat}

theorem empty_tells (c : Nat) : Tells c .empty fun _ _ => 0 := fun _ _ _ => rfl

/-- A change of one position, to what it is in other holdings. -/
theorem positionDelta_tells {owner : Address} {k : Address × Nat} {d : Int} {f : Address × Nat → Address → Nat}
    (hc : event.chainId = c) (ht : P.Tells c b) (ho : owner ≠ 0) (hself : (f k owner : Int) = b k owner + d)
    (hother : ∀ k' a, (k', a) ≠ (k, owner) → f k' a = b k' a) :
    ∃ P', applyMutation event P (.positionDelta k.1 owner k.2 d) = .ok P' ∧ P'.Tells c f := by
  subst hc
  have hbal : P.balance event.chainId k owner + d = f k owner := by rw [ht k owner ho, hself]
  refine ⟨_, if_neg (not_lt.mpr (hbal ▸ Int.natCast_nonneg _)), fun k' a ha => ?_⟩
  by_cases hk : (k', a) = (k, owner)
  · obtain ⟨rfl, rfl⟩ := Prod.mk.inj hk
    rw [← hbal]
    unfold balance
    rw [get_set_self]
    rfl
  · have hkey : positionKey event.chainId k'.1 a k'.2 ≠ positionKey event.chainId k.1 owner k.2 := fun he => by
      simp only [Prod.mk.injEq, true_and] at he
      exact hk (Prod.ext (Prod.ext he.1 he.2.2) he.2.1)
    have hsame := ht k' a ha
    unfold balance at hsame ⊢
    rw [get_set_of_ne _ _ hkey, hsame, hother k' a hk]

/-- The position of the source of a transfer, which has what it gives. -/
theorem take_ends {x : ShareMove} (hc : event.chainId = c) (ht : P.Tells c b) (hx : Payable 0 b x) :
    ∃ P', (if x.source ≠ 0 then [DerivedMutation.positionDelta x.asset.1 x.source x.asset.2 (-(x.units : Int))]
      else []).foldlM (applyMutation event) P = .ok P' ∧ P'.Tells c fun k a => b k a - sent k a x := by
  have hother : ∀ k a, ¬(x.asset = k ∧ x.source = a) → b k a - sent k a x = b k a :=
    fun k a h => by rw [sent, if_neg h, Nat.sub_zero]
  by_cases hs : x.source = 0
  · refine ⟨P, by rw [if_neg (not_not.mpr hs)]; rfl, fun k a ha => ?_⟩
    rw [ht k a ha]
    exact congrArg _ (hother k a fun h => ha (h.2.symm.trans hs)).symm
  · have hself : b x.asset x.source - sent x.asset x.source x = b x.asset x.source - x.units := by
      rw [sent, if_pos ⟨rfl, rfl⟩]
    have hle := hx hs
    obtain ⟨P', hP, ht'⟩ := positionDelta_tells (f := fun k a => b k a - sent k a x) hc ht hs
      (d := -(x.units : Int)) (k := x.asset) (by simp only [hself]; omega)
      fun k a hk => hother k a fun h => hk (Prod.ext h.1.symm h.2.symm)
    exact ⟨P', by rw [if_pos hs]; exact Outcome.bind_eq_ok.mpr ⟨P', hP, rfl⟩, ht'⟩

/-- The position of the target of a transfer. -/
theorem give_ends {x : ShareMove} (hc : event.chainId = c) (ht : P.Tells c b) :
    ∃ P', (if x.target ≠ 0 then [DerivedMutation.positionDelta x.asset.1 x.target x.asset.2 x.units]
      else []).foldlM (applyMutation event) P = .ok P' ∧ P'.Tells c fun k a => b k a + received k a x := by
  have hother : ∀ k a, ¬(x.asset = k ∧ x.target = a) → b k a + received k a x = b k a :=
    fun k a h => by rw [received, if_neg h, Nat.add_zero]
  by_cases hs : x.target = 0
  · refine ⟨P, by rw [if_neg (not_not.mpr hs)]; rfl, fun k a ha => ?_⟩
    rw [ht k a ha]
    exact congrArg _ (hother k a fun h => ha (h.2.symm.trans hs)).symm
  · have hself : b x.asset x.target + received x.asset x.target x = b x.asset x.target + x.units := by
      rw [received, if_pos ⟨rfl, rfl⟩]
    obtain ⟨P', hP, ht'⟩ := positionDelta_tells (f := fun k a => b k a + received k a x) hc ht hs
      (d := x.units) (k := x.asset) (by simp only [hself]; omega)
      fun k a hk => hother k a fun h => hk (Prod.ext h.1.symm h.2.symm)
    exact ⟨P', by rw [if_pos hs]; exact Outcome.bind_eq_ok.mpr ⟨P', hP, rfl⟩, ht'⟩

/-- A transfer. -/
theorem move_ends {x : ShareMove} (hc : event.chainId = c) (ht : P.Tells c b) (hx : Payable 0 b x) :
    ∃ P', (positionMutation x.asset.1 x.source x.target x.asset.2 x.units).foldlM (applyMutation event) P = .ok P' ∧
      P'.Tells c (apply b x) := by
  obtain ⟨P₁, h₁, ht₁⟩ := take_ends hc ht hx
  obtain ⟨P₂, h₂, ht₂⟩ := give_ends (x := x) hc ht₁
  refine ⟨P₂, ?_, ht₂⟩
  unfold positionMutation
  rw [List.foldlM_append]
  exact Outcome.bind_eq_ok.mpr ⟨P₁, h₁, h₂⟩

/-- The transfers of an event. -/
theorem moves_end {xs : List ShareMove} (hc : event.chainId = c) (ht : P.Tells c b) (hx : Covered 0 b xs) :
    ∃ P', (xs.flatMap fun x => positionMutation x.asset.1 x.source x.target x.asset.2 x.units).foldlM
      (applyMutation event) P = .ok P' ∧ P'.Tells c (replay b xs) := by
  induction xs generalizing P b with
  | nil => exact ⟨P, rfl, ht⟩
  | cons x xs ih =>
    obtain ⟨P₁, h₁, ht₁⟩ := move_ends hc ht hx.1
    obtain ⟨P₂, h₂, ht₂⟩ := ih ht₁ hx.2
    refine ⟨P₂, ?_, ht₂⟩
    rw [List.flatMap_cons, List.foldlM_append]
    exact Outcome.bind_eq_ok.mpr ⟨P₁, h₁, h₂⟩

/-- Changes of anything but positions. -/
theorem applyMutation_still {m : DerivedMutation} (hm : m.isPosition = false) (h : applyMutation event P m = .ok P') :
    P'.positions = P.positions := by
  cases m with
  | positionDelta => cases hm
  | marketCreated market creator =>
    obtain rfl := Except.ok.inj h
    simp only [recordActivity]
    split <;> rfl
  | marketInitialized | listingCreated | claim =>
    obtain rfl := Except.ok.inj h
    rfl
  | marketMetadata | primaryPurchased | marketTerminal | listingFilled | listingClosed =>
    simp only [applyMutation] at h
    split at h
    · cases h
    · obtain rfl := Except.ok.inj h
      rfl

theorem applyMutation_error {m : DerivedMutation} {e : ProjectionErr} (hm : m.isPosition = false)
    (h : applyMutation event P m = .error e) : e ≠ .negativePosition := by
  cases m with
  | positionDelta => cases hm
  | marketCreated | marketInitialized | listingCreated | claim => cases h
  | marketMetadata | primaryPurchased | marketTerminal | listingFilled | listingClosed =>
    simp only [applyMutation] at h
    split at h <;> cases h
    simp

theorem applyMutations_still {ms : List DerivedMutation} (hm : ∀ m ∈ ms, m.isPosition = false) :
    Ends (ms.foldlM (applyMutation event) P) (fun P' => P'.positions = P.positions) (· ≠ .negativePosition) := by
  induction ms generalizing P with
  | nil => exact Ends.ok rfl
  | cons m ms ih =>
    rw [List.foldlM_cons]
    refine Ends.step (fun e he => applyMutation_error (hm m List.mem_cons_self) he) fun P₁ h₁ => ?_
    have hrest := ih (P := P₁) fun x hx => hm x (List.mem_cons_of_mem _ hx)
    exact hrest.mono (fun P₂ h₂ => h₂.trans (applyMutation_still (hm m List.mem_cons_self) h₁)) fun _ he => he

/-- The changes of a decoded log are those of its transfers, or change no position. -/
theorem mutationsOf_moves {d : DecodedLog} {ms : List DerivedMutation} (h : mutationsOf event d = .ok ms) :
    ms = ((d.shareMoves event.address).flatMap fun x => positionMutation x.asset.1 x.source x.target
      x.asset.2 x.units) ∨
      (∀ m ∈ ms, m.isPosition = false) ∧ d.shareMoves event.address = [] := by
  have htransfer : ∀ {source target : Address} {ids values : List Nat},
      positionMutations event.address source target ids values = .ok ms →
      ms = ((ids.zip values).map fun p => (⟨(event.address, p.1), source, target, p.2⟩ : ShareMove)).flatMap
        fun x => positionMutation x.asset.1 x.source x.target x.asset.2 x.units := by
    intro source target ids values h
    unfold positionMutations at h
    split at h
    · cases h
    · rw [← Except.ok.inj h, List.flatMap_map]
  cases d with
  | TransferSingle => exact .inl (htransfer h)
  | TransferBatch => exact .inl (htransfer h)
  | MarketVoided =>
    simp only [mutationsOf, bind_eq_ok, Except.ok.injEq] at h
    obtain ⟨kind, _, rfl⟩ := h
    exact .inr ⟨by simp [DerivedMutation.isPosition], rfl⟩
  | _ =>
    obtain rfl := Except.ok.inj h
    exact .inr ⟨by simp [DerivedMutation.isPosition], rfl⟩

theorem mutationsOf_error {d : DecodedLog} {e : ProjectionErr} (h : mutationsOf event d = .error e) :
    e ≠ .negativePosition := by
  have htransfer : ∀ {source target : Address} {ids values : List Nat},
      positionMutations event.address source target ids values = .error e → e ≠ .negativePosition := by
    intro source target ids values h
    unfold positionMutations at h
    split at h
    · cases h; simp
    · cases h
  cases d with
  | TransferSingle => exact htransfer h
  | TransferBatch => exact htransfer h
  | MarketVoided reason =>
    simp only [mutationsOf, terminalKind] at h
    split_ifs at h <;> cases h
    simp
  | _ => cases h

theorem Tells.of_positions (ht : P.Tells c b) (h : P'.positions = P.positions) : P'.Tells c b := fun k a ha => by
  rw [← ht k a ha]
  unfold balance
  rw [h]

/-- An event of a chain whose positions are the holdings `b`. -/
theorem project_ends (hd : ∀ e, decodeEventLog event = .error e → e ≠ .negativePosition) (hc : event.chainId = c)
    (ht : P.Tells c b) (hx : Covered 0 b (shareMovesOf decodeEventLog event)) :
    Ends (project decodeEventLog event P) (fun P' => P'.Tells c (replay b (shareMovesOf decodeEventLog event)))
      (· ≠ .negativePosition) := by
  unfold project deriveMutations
  unfold shareMovesOf at hx ⊢
  cases hdec : decodeEventLog event with
  | error e => exact hd e hdec
  | ok d =>
    simp only [hdec, ok_bind] at hx ⊢
    refine Ends.step (fun e he => mutationsOf_error he) fun ms hms => ?_
    rcases mutationsOf_moves hms with rfl | ⟨hstill, hnone⟩
    · obtain ⟨P', hP, ht'⟩ := moves_end hc ht hx
      rw [hP]
      exact Ends.ok ht'
    · rw [hnone]
      exact (applyMutations_still hstill).mono (fun P' h => ht.of_positions h) fun _ he => he

end

variable {decodeEventLog : IndexedEvent → Except ProjectionErr DecodedLog} {events : List IndexedEvent}
  {P : Projections} {b : Address × Nat → Address → Nat} {c : Nat}

/-- Events of a chain, one after the other. -/
theorem projectAll_ends (hd : ∀ event e, decodeEventLog event = .error e → e ≠ .negativePosition)
    (hc : ∀ event ∈ events, event.chainId = c) (ht : P.Tells c b)
    (hx : Covered 0 b (events.flatMap (shareMovesOf decodeEventLog))) :
    Ends ((projector decodeEventLog).projectAll events P)
      (fun P' => P'.Tells c (replay b (events.flatMap (shareMovesOf decodeEventLog)))) (· ≠ .negativePosition) := by
  induction events generalizing P b with
  | nil => exact Ends.ok ht
  | cons event events ih =>
    rw [List.flatMap_cons] at hx ⊢
    obtain ⟨hx₁, hx₂⟩ := covered_append.mp hx
    unfold Projector.projectAll
    rw [List.foldlM_cons, replay_append]
    refine Ends.bind (project_ends (hd event) (hc event List.mem_cons_self) ht hx₁) fun P₁ _ ht₁ => ?_
    exact ih (fun e he => hc e (List.mem_cons_of_mem _ he)) ht₁ hx₂

end Projections

end Cpredict.Indexer.Memory

namespace Cpredict.Indexer

open Outcome

/-! ## What the projections refuse -/

section

variable {Q : Type} {X : Projector Q} {S : EventStore Q} {C : ChainData} {P : Q} {batch : CanonicalBatch}
  {events : List IndexedEvent} {e : ProjectionErr}

theorem ofProjection_eq_error {α : Type} {x : Except ProjectionErr α} : ofProjection x = .error (.projection e) ↔
    x = .error e := by
  cases x <;> simp [ofProjection, Except.mapError]

/-- The checks of a batch have errors of their own. -/
theorem checkAnchors_ne {range : CanonicalScanRange} {anchors : List CanonicalBlock} {seen : Nat → Option Bytes32} :
    checkAnchors range anchors seen ≠ .error (.projection e) := by
  induction anchors generalizing seen with
  | nil => exact fun h => by cases h
  | cons a rest ih => simp [checkAnchors, bind_eq_error, revertIf_eq_error, ih]

theorem validateCanonicalBatch_ne : validateCanonicalBatch batch ≠ .error (.projection e) := by
  simp [validateCanonicalBatch, bind_eq_error, revertIf_eq_error, checkAnchors_ne]

theorem checkContinues_ne {current : Option ChainCheckpoint} {range : CanonicalScanRange} :
    ChainData.checkContinues current range ≠ .error (.projection e) := by
  cases current <;> simp [ChainData.checkContinues, revertIf_eq_error]

theorem putBlocks_ne {overwrites : Bool} {anchors : List CanonicalBlock} :
    ChainData.putBlocks overwrites anchors C ≠ .error (.projection e) := by
  induction anchors generalizing C with
  | nil => exact fun h => by cases h
  | cons a rest ih => simp [ChainData.putBlocks, bind_eq_error, revertIf_eq_error, ih]

theorem ancestorCheckpoint_ne {chainId : Nat} {ancestor : Option Nat} :
    C.ancestorCheckpoint chainId ancestor ≠ .error (.projection e) := by
  unfold ChainData.ancestorCheckpoint
  split
  · exact fun h => by cases h
  · split <;> exact fun h => by cases h

namespace EventStore

theorem putEvents_error (h : putEvents X events C P = .error (.projection e)) :
    X.projectAll (firsts C.events events) P = .error e := by
  induction events generalizing C P with
  | nil => cases h
  | cons x rest ih =>
    simp only [putEvents, bind_eq_error, revertIf_eq_error, reduceCtorEq, and_false, false_or] at h
    obtain ⟨_, _, h⟩ := h
    unfold firsts
    by_cases hk : C.events.any (ChainData.sameKey x) = true
    · rw [if_pos hk] at h ⊢
      exact ih h
    · rw [if_neg hk] at h ⊢
      unfold Projector.projectAll
      rw [List.foldlM_cons]
      simp only [bind_eq_error, ofProjection_eq_error, ofProjection_eq_ok] at h ⊢
      rcases h with h | ⟨P₁, h₁, h⟩
      · exact .inl h
      · exact .inr ⟨P₁, h₁, ih h⟩

/-- A batch that the projections refuse. -/
theorem applyBatch_error (h : S.applyBatch X batch = .error (.projection e)) :
    Valid batch ∧ X.projectAll (firsts (S.chains batch.range.chainId).events batch.events)
      S.projections = .error e := by
  simp only [applyBatch, bind_eq_error, validateCanonicalBatch_ne, false_or] at h
  obtain ⟨_, hv, h⟩ := h
  have hv := validateCanonicalBatch_iff.mp hv
  refine ⟨hv, ?_⟩
  by_cases hc : S.Committed batch
  · rw [if_pos hc] at h
    cases h
  · simp only [if_neg hc, bind_eq_error, checkContinues_ne, revertIf_eq_error, putBlocks_ne, reduceCtorEq, and_false,
      false_or] at h
    obtain ⟨_, _, _, _, C, hC, h⟩ := h
    obtain ⟨_, rfl⟩ := (putBlocks_iff hv.consistent).mp hC
    rcases h with h | ⟨_, _, _, _, h⟩
    · exact putEvents_error (C := { S.chains batch.range.chainId with
        blocks := putAll X.overwrites (S.chains batch.range.chainId).blocks batch.anchors }) h

theorem rollbackAfter_error {c : Nat} {ancestor : Option Nat}
    (h : S.rollbackAfter X c ancestor = .error (.projection e)) :
    X.projectAll (retained (S.chains c) ancestor) (X.clearProjections c S.projections) = .error e := by
  simp only [rollbackAfter, bind_eq_error, ancestorCheckpoint_ne, ofProjection_eq_error, false_or] at h
  rcases h with h | ⟨_, _, _, _, h⟩
  · exact h
  · cases h

/-- What is left of the events after a rollback is the beginning of them. -/
theorem retained_early (hs : C.events.Pairwise fun a b => eventLe a b = true) (ancestor : Option Nat) :
    retained C ancestor <+: C.events := by
  cases ancestor with
  | none =>
    rw [retained_none]
    exact List.nil_prefix
  | some n =>
    unfold retained
    obtain ⟨early, later, hsplit, hearly, hlater⟩ := sorted_split hs n
    have hkept : (C.removeAfter (some n)).events = early := by
      rw [ChainData.removeAfter, hsplit]
      exact filter_split hearly hlater
    rw [hkept, List.Pairwise.insertionSort_eq]
    · exact ⟨later, hsplit.symm⟩
    · exact (List.pairwise_append.mp (hsplit ▸ hs)).1

end EventStore

end

end Cpredict.Indexer

namespace Cpredict.Indexer.Memory

open Outcome Transfers Tally OrderedMap EventStore

namespace MemoryStore

/-! ## The positions of a store -/

section

variable {decodeEventLog : IndexedEvent → Except ProjectionErr DecodedLog} {kind : CanonicalBatch → Prop} {c : Nat}
  {bs : Nat → List CanonicalBatch} {S : MemoryStore} {P : Projections} {b : Address × Nat → Address → Nat}

theorem ofChain_tells : ((projector decodeEventLog).ofChain c P).Tells c b ↔ P.Tells c b := by
  have hget : ∀ k a, ((projector decodeEventLog).ofChain c P).balance c k a = P.balance c k a := fun k a => by
    have hkey : ((projector decodeEventLog).ofChain c P).positions.get (positionKey c k.1 a k.2) =
        P.positions.get (positionKey c k.1 a k.2) := get_restrict (decide_eq_true rfl)
    unfold Projections.balance
    rw [hkey]
  simp only [Projections.Tells, hget]

variable {D : Deployment} {w : Core}

/-- The events of a chain that tell the beginning of the log. -/
theorem tells_of_history (hh : EventStore.History (projector decodeEventLog) kind bs S)
    (hk : ∀ batch, kind batch → batch.range.chainId = c → Ordered batch)
    (hd : ∀ event e, decodeEventLog event = .error e → e ≠ .negativePosition)
    (hx : Covered 0 (fun _ _ => 0) ((S.chains c).events.flatMap (shareMovesOf decodeEventLog))) :
    S.projections.Tells c (replay (fun _ _ => 0) ((S.chains c).events.flatMap (shareMovesOf decodeEventLog))) := by
  obtain ⟨T, hT, hf⟩ := hh.follows hk
  have hreplay : (projector decodeEventLog).projectAll (S.chains c).events .empty =
      .ok ((projector decodeEventLog).ofChain c S.projections) := by
    rw [hf.projections, hf.events]
    exact hT.line.replay
  exact ofChain_tells.mp ((Projections.projectAll_ends hd (hh.once.chain c) (Projections.empty_tells c) hx).of_ok
    hreplay)

/-- **The positions are the shares on the chain.** Whatever batches and rollbacks a store has seen, if the transfers
that it has of a chain are the first that the contracts have logged, its positions are what these transfers leave to
each owner; if they are all, they are the balances of the shares. No batch that goes on with the log, and no
rollback, is refused for a position that would become negative. -/
theorem positions_of_chain (hh : EventStore.History (projector decodeEventLog) kind bs S)
    (hk : ∀ batch, kind batch → batch.range.chainId = c → Ordered batch)
    (hd : ∀ event e, decodeEventLog event = .error e → e ≠ .negativePosition) (hw : Core.Arises D w)
    (hi : (S.chains c).events.flatMap (shareMovesOf decodeEventLog) <+: shareMoves w.log) :
    (∀ k a, a ≠ 0 → S.projections.balance c k a +
        tally (sent k a) ((S.chains c).events.flatMap (shareMovesOf decodeEventLog)) =
      tally (received k a) ((S.chains c).events.flatMap (shareMovesOf decodeEventLog))) ∧
      ((S.chains c).events.flatMap (shareMovesOf decodeEventLog) = shareMoves w.log → ∀ market o a, a ≠ 0 →
        S.projections.balance c (market, o) a = (w.vaults market).shares.balanceOf o a) ∧
      (∀ batch, batch.range.chainId = c →
        ((S.chains c).events ++ firsts (S.chains c).events batch.events).flatMap (shareMovesOf decodeEventLog) <+:
          shareMoves w.log → S.applyBatch (projector decodeEventLog) batch ≠ .error (.projection .negativePosition)) ∧
      ∀ ancestor, S.rollbackAfter (projector decodeEventLog) c ancestor ≠ .error (.projection .negativePosition) := by
  have hl := hw.inOrder.ledgered
  have hcov : ∀ {xs : List ShareMove}, xs <+: shareMoves w.log → Covered 0 (fun _ _ => 0) xs := by
    rintro xs ⟨ys, he⟩
    exact (covered_append.mp (he ▸ hl.covered)).1
  have ht := tells_of_history hh hk hd (hcov hi)
  refine ⟨fun k a ha => ?_, fun hall market o a ha => ?_, fun batch hc hnext hr => ?_, fun ancestor hr => ?_⟩
  · have hadd := replay_add (k := k) (hcov hi) ha
    rw [ht k a ha]
    omega
  · rw [ht (market, o) a ha, hall]
    exact congrArg _ (hl.replayed (market, o) a ha)
  · subst hc
    obtain ⟨hv, hP⟩ := applyBatch_error hr
    rw [List.flatMap_append] at hnext
    have hchain : ∀ e ∈ firsts (S.chains batch.range.chainId).events batch.events, e.chainId = batch.range.chainId :=
      fun e he => (hv.events e (firsts_subset he)).chain
    exact (Projections.projectAll_ends hd hchain ht (covered_append.mp (hcov hnext)).2).of_error hP rfl
  · obtain ⟨T, hT, hf⟩ := hh.follows hk
    have hearly := retained_early (hf.events ▸ hT.line.sorted) ancestor
    have hmoves : (retained (S.chains c) ancestor).flatMap (shareMovesOf decodeEventLog) <+:
        (S.chains c).events.flatMap (shareMovesOf decodeEventLog) := by
      obtain ⟨later, he⟩ := hearly
      exact ⟨later.flatMap (shareMovesOf decodeEventLog), by rw [← List.flatMap_append, he]⟩
    have hempty :
      ((projector decodeEventLog).ofChain c ((projector decodeEventLog).clearProjections c S.projections)).Tells c
        fun _ _ => 0 := by
      rw [Projector.ofChain_clear_self]
      exact Projections.empty_tells c
    exact (Projections.projectAll_ends hd (fun e he => hh.once.chain c e (mem_retained he)) (ofChain_tells.mp hempty)
      (hcov (hmoves.trans hi))).of_error (rollbackAfter_error hr) rfl

end

/-! ## The sample market -/

namespace Sample

/-- The transfers of the two purchases of the sample market, by the index of the log. -/
def decodePurchase (event : IndexedEvent) : Except ProjectionErr DecodedLog :=
  if event.logIndex = 0 then .ok (.TransferSingle 0 Sample.alice 0 3000000)
  else .ok (.TransferSingle 0 Sample.bob 1 1000000)

theorem decodePurchase_error {event : IndexedEvent} {e : ProjectionErr} (h : decodePurchase event = .error e) :
    e ≠ .negativePosition := by
  unfold decodePurchase at h
  split at h <;> cases h

/-- One purchase in a block. -/
def bought (predecessor : Option ChainCheckpoint) (number : Nat) (hash parent : Bytes32) : CanonicalBatch where
  range := ⟨1, number, number, predecessor, hash, .confirmed, .dense⟩
  anchors := [⟨1, number, hash, parent, 12, .confirmed⟩]
  events := [⟨1, number, hash, 900 + number, 0, number - 1, Sample.market, [], [], .confirmed⟩]
  checkpoint := ⟨1, number, hash⟩

theorem bought_ordered (predecessor : Option ChainCheckpoint) (number : Nat) (hash parent : Bytes32) :
    Ordered (bought predecessor number hash parent) := List.pairwise_singleton _ _

def purchaseProjector : Projector Projections := projector decodePurchase

end Sample

/-- The second purchase of the sample market is rolled back and comes again on another fork: the positions are the
shares of the buyers. -/
theorem positions_of_chain_sample :
    ∃ S₁ S₂ S₃ S, (fresh Sample.purchaseProjector).applyBatch Sample.purchaseProjector
      (Sample.bought none 1 101 100) = .ok S₁ ∧
      S₁.applyBatch Sample.purchaseProjector (Sample.bought (some ⟨1, 1, 101⟩) 2 102 101) = .ok S₂ ∧
      S₂.rollbackAfter Sample.purchaseProjector 1 (some 1) = .ok S₃ ∧
      S₃.applyBatch Sample.purchaseProjector (Sample.bought (some ⟨1, 1, 101⟩) 2 202 101) = .ok S ∧
      S.projections.balance 1 (Sample.market, 1) Sample.bob = 1000000 ∧
      S.projections.balance 1 (Sample.market, 1) Sample.bob =
        ((Sample.played Sample.purchases).vaults Sample.market).shares.balanceOf 1 Sample.bob := by
  obtain ⟨S₁, S₂, S₃, S, h₁, h₂, h₃, h₄, hevents⟩ : ∃ S₁ S₂ S₃ S,
      (fresh Sample.purchaseProjector).applyBatch Sample.purchaseProjector (Sample.bought none 1 101 100) = .ok S₁ ∧
      S₁.applyBatch Sample.purchaseProjector (Sample.bought (some ⟨1, 1, 101⟩) 2 102 101) = .ok S₂ ∧
      S₂.rollbackAfter Sample.purchaseProjector 1 (some 1) = .ok S₃ ∧
      S₃.applyBatch Sample.purchaseProjector (Sample.bought (some ⟨1, 1, 101⟩) 2 202 101) = .ok S ∧
      (S.chains 1).events = (Sample.bought none 1 101 100).events ++
      (Sample.bought (some ⟨1, 1, 101⟩) 2 202 101).events :=
    ⟨_, _, _, _, rfl, rfl, rfl, rfl, rfl⟩
  have hist := (((EventStore.History.fresh.apply (Sample.bought_ordered _ _ _ _) h₁).apply
    (Sample.bought_ordered _ _ _ _) h₂).rollback h₃).apply (Sample.bought_ordered _ _ _ _) h₄
  have hall : (S.chains 1).events.flatMap (shareMovesOf Sample.decodePurchase) =
      shareMoves (Sample.played Sample.purchases).log := by
    rw [hevents]
    decide +kernel
  have hfirst : (S.chains 1).events.flatMap (shareMovesOf Sample.decodePurchase) <+:
      shareMoves (Sample.played Sample.purchases).log := by rw [hall]
  obtain ⟨_, hbalance, _⟩ := positions_of_chain hist (fun _ hb _ => hb)
    (fun _ _ => Sample.decodePurchase_error) (.core (Sample.played_reachable Sample.purchases)) hfirst
  have hshares : ((Sample.played Sample.purchases).vaults Sample.market).shares.balanceOf 1 Sample.bob = 1000000 := by
    decide +kernel
  have hposition := hbalance hall Sample.market 1 Sample.bob (by decide)
  exact ⟨S₁, S₂, S₃, S, h₁, h₂, h₃, h₄, by rw [hposition, hshares]; rfl, hposition⟩

end MemoryStore

end Cpredict.Indexer.Memory
