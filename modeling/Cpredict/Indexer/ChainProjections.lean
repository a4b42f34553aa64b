import Cpredict.Indexer.Projections

/-!
# The projections of one chain

The events of a chain read and write the projections of that chain only: to the part of the projections that has the
chain they do what they do to the whole (`project_restrict`), and other parts stay as they are (`project_other`).
-/

namespace Cpredict.Indexer.Memory

open Outcome OrderedMap

namespace Projections

/-- The positions lie under the keys of their chains. -/
def Keyed (P : Projections) : Prop := ∀ x ∈ P.positions.entries, x.2.chainId = x.1.1

section

variable {p : Nat → Bool} {event : IndexedEvent} {P P' : Projections} {m : DerivedMutation}

theorem recordActivity_restrict (h : p event.chainId = true) (input : ActivityInput) (extra : List Address)
    (P : Projections) :
    (P.restrict p).recordActivity event input extra = (P.recordActivity event input extra).restrict p := by
  unfold recordActivity restrict
  simp only [restrict_set (m := P.activities) (k := eventKey event) (p := fun k => p k.1) h,
    restrict_set (m := P.activityParticipants) (k := eventKey event) (p := fun k => p k.1) h]

theorem recordActivity_other (h : p event.chainId = false) (input : ActivityInput) (extra : List Address)
    (P : Projections) : (P.recordActivity event input extra).restrict p = P.restrict p := by
  unfold recordActivity restrict
  simp only [restrict_set_other (m := P.activities) (k := eventKey event) (p := fun k => p k.1) h,
    restrict_set_other (m := P.activityParticipants) (k := eventKey event) (p := fun k => p k.1) h]

theorem holders_restrict (hk : P.Keyed) {chainId : Nat} (h : p chainId = true) (market : Address) :
    holders (P.positions.restrict fun k => p k.1) chainId market = holders P.positions chainId market := by
  unfold holders values OrderedMap.restrict
  rw [List.filter_map, List.filter_map, List.filter_filter]
  congr 2
  apply List.filter_congr
  intro x hx
  by_cases hc : x.2.chainId = chainId
  · rw [hk x hx] at hc
    simp [hc, h]
  · simp [hc]

/-- A change of an event, to the part of the projections that has its chain. -/
theorem applyMutation_restrict (hk : P.Keyed) (h : p event.chainId = true) (m : DerivedMutation) :
    applyMutation event (P.restrict p) m = (applyMutation event P m).map (restrict p) := by
  have hget : ∀ {κ β : Type} [DecidableEq κ] (m : OrderedMap (ChainKey κ) β) (k : κ),
      (m.restrict fun k => p k.1).get (event.chainId, k) = m.get (event.chainId, k) := fun _ _ => get_restrict h
  have hhas : ∀ {κ β : Type} [DecidableEq κ] (m : OrderedMap (ChainKey κ) β) (k : κ),
      (m.restrict fun k => p k.1).has (event.chainId, k) = m.has (event.chainId, k) := fun _ _ => has_restrict h
  have hset : ∀ {κ β : Type} [DecidableEq κ] (m : OrderedMap (ChainKey κ) β) (k : κ) (v : β),
      (m.restrict fun k => p k.1).set (event.chainId, k) v = (m.set (event.chainId, k) v).restrict fun k => p k.1 :=
    fun m k v => (restrict_set (m := m) (k := (event.chainId, k)) (v := v) (p := fun k => p k.1) h).symm
  cases m with
  | marketCreated market creator deploymentMode creatorBond =>
    simp only [applyMutation, Except.map, ← recordActivity_restrict h]
    refine congrArg (fun P : Projections => Except.ok (P.recordActivity event _ _)) ?_
    simp only [restrict, hset, hhas]
    split <;> rfl
  | marketInitialized =>
    simp only [applyMutation, Except.map, restrict, hget, hset]
  | marketMetadata market =>
    simp only [applyMutation, restrict, hget, hset]
    cases P.markets.get (event.chainId, market) <;> rfl
  | primaryPurchased market =>
    simp only [applyMutation, restrict, hget, hset]
    cases P.markets.get (event.chainId, market) with
    | none => rfl
    | some current =>
      refine congrArg Except.ok (Eq.trans ?_ (recordActivity_restrict h _ _ _))
      rfl
  | marketTerminal market =>
    simp only [applyMutation, restrict, hget, hset, holders_restrict hk h]
    cases P.markets.get (event.chainId, market) with
    | none => rfl
    | some current =>
      refine congrArg Except.ok (Eq.trans ?_ (recordActivity_restrict h _ _ _))
      rfl
  | listingCreated listingId =>
    simp only [applyMutation, restrict, hset]
    refine congrArg Except.ok (Eq.trans ?_ (recordActivity_restrict h _ _ _))
    rfl
  | listingFilled listingId =>
    simp only [applyMutation, restrict, hget, hset]
    cases P.listings.get (event.chainId, listingId) with
    | none => rfl
    | some listing =>
      refine congrArg Except.ok (Eq.trans ?_ (recordActivity_restrict h _ _ _))
      rfl
  | listingClosed listingId =>
    simp only [applyMutation, restrict, hget, hset]
    cases P.listings.get (event.chainId, listingId) with
    | none => rfl
    | some listing =>
      refine congrArg Except.ok (Eq.trans ?_ (recordActivity_restrict h _ _ _))
      rfl
  | positionDelta vault owner outcomeId delta =>
    simp only [applyMutation, restrict, hget, hset]
    split <;> rfl
  | claim =>
    simp only [applyMutation, restrict, hset]
    refine congrArg Except.ok (Eq.trans ?_ (recordActivity_restrict h _ _ _))
    rfl

/-- A change of an event leaves the projections of other chains as they are. -/
theorem applyMutation_other (h : p event.chainId = false) (hm : applyMutation event P m = .ok P') :
    P'.restrict p = P.restrict p := by
  have hset : ∀ {κ β : Type} [DecidableEq κ] (m : OrderedMap (ChainKey κ) β) (k : κ) (v : β),
      ((m.set (event.chainId, k) v).restrict fun k => p k.1) = m.restrict fun k => p k.1 :=
    fun m k v => restrict_set_other (m := m) (k := (event.chainId, k)) (v := v) (p := fun k => p k.1) h
  cases m with
  | marketCreated market creator deploymentMode creatorBond =>
    obtain rfl := Except.ok.inj hm
    rw [recordActivity_other h]
    simp only [restrict]
    split <;> simp only [hset]
  | marketInitialized =>
    obtain rfl := Except.ok.inj hm
    simp only [restrict, hset]
  | marketMetadata market =>
    simp only [applyMutation] at hm
    split at hm
    · cases hm
    · obtain rfl := Except.ok.inj hm
      simp only [restrict, hset]
  | primaryPurchased market =>
    simp only [applyMutation] at hm
    split at hm
    · cases hm
    · obtain rfl := Except.ok.inj hm
      rw [recordActivity_other h]
      simp only [restrict, hset]
  | marketTerminal market =>
    simp only [applyMutation] at hm
    split at hm
    · cases hm
    · obtain rfl := Except.ok.inj hm
      rw [recordActivity_other h]
      simp only [restrict, hset]
  | listingCreated listingId =>
    obtain rfl := Except.ok.inj hm
    rw [recordActivity_other h]
    simp only [restrict, hset]
  | listingFilled listingId =>
    simp only [applyMutation] at hm
    split at hm
    · cases hm
    · obtain rfl := Except.ok.inj hm
      rw [recordActivity_other h]
      simp only [restrict, hset]
  | listingClosed listingId =>
    simp only [applyMutation] at hm
    split at hm
    · cases hm
    · obtain rfl := Except.ok.inj hm
      rw [recordActivity_other h]
      simp only [restrict, hset]
  | positionDelta vault owner outcomeId delta =>
    simp only [applyMutation] at hm
    split at hm
    · cases hm
    · obtain rfl := Except.ok.inj hm
      simp only [restrict, hset]
  | claim =>
    obtain rfl := Except.ok.inj hm
    rw [recordActivity_other h]
    simp only [restrict, hset]

/-- Only `position-delta` writes positions, under the chain of the event. -/
theorem applyMutation_keyed (hk : P.Keyed) (hm : applyMutation event P m = .ok P') : P'.Keyed := by
  cases m with
  | marketCreated market creator deploymentMode creatorBond =>
    obtain rfl := Except.ok.inj hm
    simp only [Keyed, recordActivity]
    split <;> exact hk
  | positionDelta vault owner outcomeId delta =>
    simp only [applyMutation] at hm
    split at hm
    · cases hm
    · obtain rfl := Except.ok.inj hm
      intro x hx
      rcases mem_set hx with hx | rfl
      · exact hk x hx
      · rfl
  | marketInitialized => obtain rfl := Except.ok.inj hm; exact hk
  | listingCreated => obtain rfl := Except.ok.inj hm; exact hk
  | claim => obtain rfl := Except.ok.inj hm; exact hk
  | _ =>
    simp only [applyMutation] at hm
    split at hm
    · cases hm
    · obtain rfl := Except.ok.inj hm
      exact hk

/-! ## Events -/

variable {decodeEventLog : IndexedEvent → Except ProjectionErr DecodedLog}

theorem project_keyed (hk : P.Keyed) (hp : project decodeEventLog event P = .ok P') : P'.Keyed := by
  obtain ⟨ms, -, hp⟩ := Outcome.bind_eq_ok.mp hp
  exact foldlM_inv (fun _ _ _ _ hk hm => applyMutation_keyed hk hm) hk hp

theorem project_restrict (hk : P.Keyed) (h : p event.chainId = true) :
    project decodeEventLog event (P.restrict p) = (project decodeEventLog event P).map (restrict p) := by
  unfold project
  cases deriveMutations decodeEventLog event with
  | error e => rfl
  | ok ms =>
    exact foldlM_map (fun _ _ _ _ hk hm => applyMutation_keyed hk hm) (fun m _ P hk => applyMutation_restrict hk h m) hk

theorem project_other (h : p event.chainId = false) (hp : project decodeEventLog event P = .ok P') :
    P'.restrict p = P.restrict p := by
  obtain ⟨ms, -, hp⟩ := Outcome.bind_eq_ok.mp hp
  exact foldlM_inv (I := fun P' => P'.restrict p = P.restrict p)
    (fun _ _ _ _ hk hm => (applyMutation_other h hm).trans hk) rfl hp

theorem restrict_eq_empty (h : ∀ c, p c = false) (P : Projections) : P.restrict p = .empty := by
  unfold restrict OrderedMap.restrict
  simp only [h, List.filter_false]
  rfl

theorem restrict_restrict (p q : Nat → Bool) (P : Projections) :
    (P.restrict q).restrict p = P.restrict fun c => p c && q c := by
  unfold restrict OrderedMap.restrict
  simp only [List.filter_filter]

end

end Projections

end Cpredict.Indexer.Memory
