import Cpredict.Indexer.MemoryStore

/-!
# The Postgres store

`PostgresEventStore`, without the financial ledger: its projections are tables, and an anchor that comes again
leaves the stored block as it is. Rows are inserted where there are none (`ON CONFLICT DO NOTHING`), and updated
where there are: a purchase in a market that has no row changes nothing, and a listing that comes twice is the first
one. The bounds of the columns, the unique index of the hashes and the column that tells the protocol are left out.
-/

namespace Cpredict.Indexer.Postgres

open Memory Outcome OrderedMap

structure RegisteredRow where
  registeredBlock : Nat
  transactionHash : Bytes32
  logIndex : Nat
deriving DecidableEq

structure StoredMarket where
  creator : Address
  deploymentMode : Nat
  outcomeCount : Option Nat
  createdAt : Option Nat
  closeAt : Option Nat
  eventStartsAt : Option Nat
  outcomeDeadlineAt : Option Nat
  resolutionWindow : Option Nat
  rulesHash : Option Bytes32
  metadataUri : Option String
  resolutionSourceHash : Option Bytes32
  resolutionSourceUri : Option String
  creatorTreasury : Option Address
  featureFlags : Option Nat
  marketPrimaryCap : Option Nat
  primaryFilledUnits : Nat
  primaryPayment : Nat
  creatorBond : Nat
  state : Nat
  voidReason : Nat
  winningOutcome : Option Nat
  evidenceHash : Option Bytes32
  createdBlock : Nat
  updatedBlock : Nat
  confirmationStatus : ConfirmationStatus
deriving DecidableEq

structure PositionRow where
  balance : Int
  updatedBlock : Nat
  confirmationStatus : ConfirmationStatus
deriving DecidableEq

/-- The tables by their primary keys. Rows of listings, fills, claims and activities are as the views have them. -/
structure ProjectionTables where
  registeredMarkets : OrderedMap (ChainKey Address) RegisteredRow
  markets : OrderedMap (ChainKey Address) StoredMarket
  listings : OrderedMap (ChainKey Bytes32) ListingView
  fills : OrderedMap (ChainKey (Bytes32 × Nat)) FillView
  positions : OrderedMap (ChainKey (Address × Address × Nat)) PositionRow
  claims : OrderedMap (ChainKey (Bytes32 × Nat)) ClaimView
  activities : OrderedMap (ChainKey (Bytes32 × Nat)) ActivityView
  activityParticipants : OrderedMap (ChainKey ((Bytes32 × Nat) × Address)) Unit
deriving DecidableEq

namespace ProjectionTables

def empty : ProjectionTables := ⟨.empty, .empty, .empty, .empty, .empty, .empty, .empty, .empty⟩

/-- The rows of some of the chains. -/
def restrict (p : Nat → Bool) (T : ProjectionTables) : ProjectionTables where
  registeredMarkets := T.registeredMarkets.restrict fun k => p k.1
  markets := T.markets.restrict fun k => p k.1
  listings := T.listings.restrict fun k => p k.1
  fills := T.fills.restrict fun k => p k.1
  positions := T.positions.restrict fun k => p k.1
  claims := T.claims.restrict fun k => p k.1
  activities := T.activities.restrict fun k => p k.1
  activityParticipants := T.activityParticipants.restrict fun k => p k.1

/-- The rows of the participants of an activity. -/
def addParticipants (event : IndexedEvent) (participants : List Address)
    (rows : OrderedMap (ChainKey ((Bytes32 × Nat) × Address)) Unit) :
    OrderedMap (ChainKey ((Bytes32 × Nat) × Address)) Unit :=
  participants.foldl (fun rows participant => rows.add (event.chainId, (eventKey event).2, participant) ()) rows

def recordActivity (event : IndexedEvent) (input : ActivityInput) (extraParticipants : List Address)
    (T : ProjectionTables) :
    ProjectionTables :=
  { T with
    activities := T.activities.add (eventKey event) (Projections.activityView event input)
    activityParticipants :=
      addParticipants event (Projections.participants input extraParticipants) T.activityParticipants }

/-! ## applyMutation -/

/-- The row of `market-created`. -/
def createdMarket (event : IndexedEvent) (creator : Address) (deploymentMode creatorBond : Nat) : StoredMarket where
  creator
  deploymentMode
  outcomeCount := none
  createdAt := none
  closeAt := none
  eventStartsAt := none
  outcomeDeadlineAt := none
  resolutionWindow := none
  rulesHash := none
  metadataUri := none
  resolutionSourceHash := none
  resolutionSourceUri := none
  creatorTreasury := none
  featureFlags := none
  marketPrimaryCap := none
  primaryFilledUnits := 0
  primaryPayment := 0
  creatorBond
  state := 0
  voidReason := 0
  winningOutcome := none
  evidenceHash := none
  createdBlock := event.blockNumber
  updatedBlock := event.blockNumber
  confirmationStatus := event.confirmationStatus

/-- The row of `market-initialized`: a row that is there keeps its creator and its mode. -/
def initializedMarket (event : IndexedEvent) (current : Option StoredMarket) (creator : Address)
    (deploymentMode outcomeCount : Nat) (createdAt : Option Nat) (closeAt : Nat)
    (eventStartsAt outcomeDeadlineAt : Option Nat) (resolutionWindow marketPrimaryCap creatorBond : Nat) :
    StoredMarket :=
  { current.getD (createdMarket event creator deploymentMode creatorBond) with
    outcomeCount := some outcomeCount
    createdAt
    closeAt := some closeAt
    eventStartsAt
    outcomeDeadlineAt
    resolutionWindow := some resolutionWindow
    marketPrimaryCap := some marketPrimaryCap
    creatorBond
    updatedBlock := event.blockNumber
    confirmationStatus := event.confirmationStatus }

/-- The participants of `market-terminal`: the creator of the market, and the owners of positions in it. -/
def terminalParticipants (T : ProjectionTables) (chainId : Nat) (market : Address) : List Address :=
  ((T.markets.get (addressKey chainId market)).map StoredMarket.creator).toList ++
    (T.positions.entries.filter fun row =>
      decide (row.1.1 = chainId ∧ row.1.2.1 = market ∧ 0 < row.2.balance)).map fun row => row.1.2.2.1

def applyMutation (event : IndexedEvent) (T : ProjectionTables) :
    DerivedMutation → Except ProjectionErr ProjectionTables
  | .marketCreated market creator deploymentMode creatorBond =>
    let key := addressKey event.chainId market
    let T := { T with
      registeredMarkets :=
        T.registeredMarkets.add key ⟨event.blockNumber, event.transactionHash, event.logIndex⟩
      markets := T.markets.add key (createdMarket event creator deploymentMode creatorBond) }
    .ok (T.recordActivity event
      { kind := .marketCreated, vault := market, actor := some creator, amount := some creatorBond } [])
  | .marketInitialized market creator deploymentMode outcomeCount createdAt closeAt eventStartsAt outcomeDeadlineAt
      resolutionWindow marketPrimaryCap creatorBond =>
    let key := addressKey event.chainId market
    .ok { T with markets := T.markets.set key (initializedMarket event (T.markets.get key) creator deploymentMode
      outcomeCount createdAt closeAt eventStartsAt outcomeDeadlineAt resolutionWindow marketPrimaryCap creatorBond) }
  | .marketMetadata market rulesHash metadataUri resolutionSourceHash resolutionSourceUri closeAt eventStartsAt
      outcomeDeadlineAt creatorTreasury featureFlags =>
    .ok { T with markets := T.markets.modify (addressKey event.chainId market) fun row => { row with
      rulesHash := some rulesHash, metadataUri := some metadataUri, resolutionSourceHash := some resolutionSourceHash
      resolutionSourceUri := some resolutionSourceUri, closeAt := some closeAt, eventStartsAt, outcomeDeadlineAt
      creatorTreasury := some creatorTreasury, featureFlags := some featureFlags
      updatedBlock := event.blockNumber, confirmationStatus := event.confirmationStatus } }
  | .primaryPurchased market buyer outcomeId filledUnits payment _ totalPrincipal =>
    let T := { T with markets := T.markets.modify (addressKey event.chainId market) fun row => { row with
      primaryFilledUnits := row.primaryFilledUnits + filledUnits, primaryPayment := totalPrincipal
      updatedBlock := event.blockNumber, confirmationStatus := event.confirmationStatus } }
    .ok (T.recordActivity event
      { kind := .primaryPurchased, vault := market, actor := some buyer, outcomeId := some outcomeId
        units := some filledUnits, amount := some payment } [])
  | .marketTerminal market kind caller state voidReason winningOutcome evidenceHash =>
    let participants := T.terminalParticipants event.chainId market
    let T := { T with markets := T.markets.modify (addressKey event.chainId market) fun row => { row with
      state, voidReason, winningOutcome, evidenceHash
      updatedBlock := event.blockNumber, confirmationStatus := event.confirmationStatus } }
    .ok (T.recordActivity event
      { kind := Projections.terminalActivityKind kind, vault := market, actor := caller } participants)
  | .listingCreated listingId vault seller outcomeId amount unitPrice expiresAt =>
    let listing : ListingView :=
      { chainId := event.chainId, listingId, vault, seller, outcomeId, remainingUnits := amount, unitPrice, expiresAt
        active := true, createdBlock := event.blockNumber, updatedBlock := event.blockNumber
        confirmationStatus := event.confirmationStatus }
    let T := { T with listings := T.listings.add (hexKey event.chainId listingId) listing }
    .ok (T.recordActivity event
      { kind := .listingCreated, vault, actor := some seller, outcomeId := some outcomeId, listingId := some listingId
        units := some amount, amount := some unitPrice } [])
  | .listingFilled listingId buyer seller filledUnits gross sellerProceeds platformFee creatorFee remainingUnits =>
    let key := hexKey event.chainId listingId
    match T.listings.get key with
    | none => .error (.fillOfUnknownListing listingId)
    | some listing =>
      let fill : FillView :=
        { chainId := event.chainId, transactionHash := event.transactionHash, logIndex := event.logIndex, listingId
          vault := listing.vault, buyer, seller, filledUnits, gross, sellerProceeds, platformFee, creatorFee
          blockNumber := event.blockNumber, confirmationStatus := event.confirmationStatus }
      let T := { T with
        listings := T.listings.modify key fun row => { row with
          remainingUnits, active := decide (remainingUnits ≠ 0)
          updatedBlock := event.blockNumber, confirmationStatus := event.confirmationStatus }
        fills := T.fills.add (eventKey event) fill }
      .ok (T.recordActivity event
        { kind := .listingFilled, vault := listing.vault, actor := some buyer, counterparty := some seller
          outcomeId := some listing.outcomeId, listingId := some listingId, units := some filledUnits
          amount := some gross } [])
  | .listingClosed listingId closeKind seller caller =>
    let key := hexKey event.chainId listingId
    match T.listings.get key with
    | none => .error (.closeOfUnknownListing listingId)
    | some listing =>
      let T := { T with listings := T.listings.modify key fun row => { row with
        remainingUnits := 0, active := false, updatedBlock := event.blockNumber
        confirmationStatus := event.confirmationStatus } }
      .ok (T.recordActivity event
        { kind := Projections.closeActivityKind closeKind, vault := listing.vault, actor := some caller
          counterparty := if caller = seller then none else some seller, outcomeId := some listing.outcomeId
          listingId := some listingId } [])
  | .positionDelta vault owner outcomeId delta =>
    let key := positionKey event.chainId vault owner outcomeId
    let balance := (T.positions.get key).map PositionRow.balance
    let credited : PositionRow := ⟨balance.getD 0 + delta, event.blockNumber, event.confirmationStatus⟩
    -- a credit opens the position, a debit needs one that covers it
    if 0 ≤ delta then .ok { T with positions := T.positions.set key credited }
    else if ∃ held ∈ balance, -delta ≤ held then
      .ok { T with positions := T.positions.modify key fun row => { row with
        balance := row.balance + delta, updatedBlock := event.blockNumber
        confirmationStatus := event.confirmationStatus } }
    else .error .positionDebit
  | .claim vault owner caller claimKind units amount =>
    let claim : ClaimView :=
      { chainId := event.chainId, transactionHash := event.transactionHash, logIndex := event.logIndex, vault, owner
        caller, claimKind, units, amount, blockNumber := event.blockNumber
        confirmationStatus := event.confirmationStatus }
    let T := { T with claims := T.claims.add (eventKey event) claim }
    .ok (T.recordActivity event
      { kind := Projections.claimActivityKind claimKind, vault, actor := some caller
        counterparty := if caller = owner then none else some owner, units := some units, amount := some amount } [])

/-- `applyProjection` -/
def applyProjection (decodeEventLog : IndexedEvent → Except ProjectionErr DecodedLog) (event : IndexedEvent)
    (T : ProjectionTables) :
    Except ProjectionErr ProjectionTables := do
  (← deriveMutations decodeEventLog event).foldlM (applyMutation event) T

/-! ## The rows of a chain -/

section

variable {p : Nat → Bool} {event : IndexedEvent} {T T' : ProjectionTables} {m : DerivedMutation}

theorem addParticipants_restrict (h : p event.chainId = true) (participants : List Address)
    (rows : OrderedMap (ChainKey ((Bytes32 × Nat) × Address)) Unit) :
    (addParticipants event participants rows).restrict (fun k => p k.1) =
      addParticipants event participants (rows.restrict fun k => p k.1) := by
  induction participants generalizing rows with
  | nil => rfl
  | cons a rest ih =>
    have hadd := restrict_add (m := rows) (k := (event.chainId, (eventKey event).2, a)) (v := ())
      (p := fun k => p k.1) h
    exact (ih _).trans (congrArg (addParticipants event rest) hadd)

theorem addParticipants_other (h : p event.chainId = false) (participants : List Address)
    (rows : OrderedMap (ChainKey ((Bytes32 × Nat) × Address)) Unit) :
    (addParticipants event participants rows).restrict (fun k => p k.1) = rows.restrict fun k => p k.1 := by
  induction participants generalizing rows with
  | nil => rfl
  | cons a rest ih =>
    have hadd :=
      restrict_add_other (m := rows) (k := (event.chainId, (eventKey event).2, a)) (v := ()) (p := fun k => p k.1) h
    exact (ih _).trans hadd

theorem recordActivity_restrict (h : p event.chainId = true) (input : ActivityInput) (extra : List Address)
    (T : ProjectionTables) :
    (T.restrict p).recordActivity event input extra = (T.recordActivity event input extra).restrict p := by
  unfold recordActivity restrict
  simp only [restrict_add (m := T.activities) (k := eventKey event) (p := fun k => p k.1) h, addParticipants_restrict h]

theorem recordActivity_other (h : p event.chainId = false) (input : ActivityInput) (extra : List Address)
    (T : ProjectionTables) :
    (T.recordActivity event input extra).restrict p = T.restrict p := by
  unfold recordActivity restrict
  simp only [restrict_add_other (m := T.activities) (k := eventKey event) (p := fun k => p k.1) h,
    addParticipants_other h]

theorem terminalParticipants_restrict {chainId : Nat} (h : p chainId = true) (market : Address) (T : ProjectionTables) :
    (T.restrict p).terminalParticipants chainId market = T.terminalParticipants chainId market := by
  have hget : (T.markets.restrict fun k => p k.1).get (addressKey chainId market) =
      T.markets.get (addressKey chainId market) := get_restrict h
  unfold terminalParticipants restrict
  simp only [hget]
  unfold OrderedMap.restrict
  rw [List.filter_filter]
  congr 2
  apply List.filter_congr
  intro x _
  by_cases hc : x.1.1 = chainId
  · simp [hc, h]
  · simp [hc]

/-- A change of an event, to the rows that have its chain. -/
theorem applyMutation_restrict (h : p event.chainId = true) (m : DerivedMutation) :
    applyMutation event (T.restrict p) m = (applyMutation event T m).map (restrict p) := by
  have hget : ∀ {κ β : Type} [DecidableEq κ] (m : OrderedMap (ChainKey κ) β) (k : κ),
      (m.restrict fun k => p k.1).get (event.chainId, k) = m.get (event.chainId, k) := fun _ _ => get_restrict h
  have hset : ∀ {κ β : Type} [DecidableEq κ] (m : OrderedMap (ChainKey κ) β) (k : κ) (v : β),
      (m.restrict fun k => p k.1).set (event.chainId, k) v = (m.set (event.chainId, k) v).restrict fun k => p k.1 :=
    fun m k v => (restrict_set (m := m) (k := (event.chainId, k)) (v := v) (p := fun k => p k.1) h).symm
  have hadd : ∀ {κ β : Type} [DecidableEq κ] (m : OrderedMap (ChainKey κ) β) (k : κ) (v : β),
      (m.restrict fun k => p k.1).add (event.chainId, k) v = (m.add (event.chainId, k) v).restrict fun k => p k.1 :=
    fun m k v => (restrict_add (m := m) (k := (event.chainId, k)) (v := v) (p := fun k => p k.1) h).symm
  have hmodify : ∀ {κ β : Type} [DecidableEq κ] (m : OrderedMap (ChainKey κ) β) (k : κ) (f : β → β),
      (m.restrict fun k => p k.1).modify (event.chainId, k) f =
        (m.modify (event.chainId, k) f).restrict fun k => p k.1 := fun m k f => (restrict_modify f).symm
  cases m with
  | marketCreated market creator deploymentMode creatorBond =>
    simp only [applyMutation, restrict, hadd]
    refine congrArg Except.ok (Eq.trans ?_ (recordActivity_restrict h _ _ _))
    rfl
  | marketInitialized => simp only [applyMutation, Except.map, restrict, hget, hset]
  | marketMetadata market => simp only [applyMutation, Except.map, restrict, hmodify]
  | primaryPurchased market =>
    simp only [applyMutation, restrict, hmodify]
    refine congrArg Except.ok (Eq.trans ?_ (recordActivity_restrict h _ _ _))
    rfl
  | marketTerminal market =>
    simp only [applyMutation, terminalParticipants_restrict h]
    simp only [restrict, hmodify]
    refine congrArg Except.ok (Eq.trans ?_ (recordActivity_restrict h _ _ _))
    rfl
  | listingCreated listingId =>
    simp only [applyMutation, restrict, hadd]
    refine congrArg Except.ok (Eq.trans ?_ (recordActivity_restrict h _ _ _))
    rfl
  | listingFilled listingId =>
    simp only [applyMutation, restrict, hget, hmodify, hadd]
    cases T.listings.get (event.chainId, listingId) with
    | none => rfl
    | some listing =>
      refine congrArg Except.ok (Eq.trans ?_ (recordActivity_restrict h _ _ _))
      rfl
  | listingClosed listingId =>
    simp only [applyMutation, restrict, hget, hmodify]
    cases T.listings.get (event.chainId, listingId) with
    | none => rfl
    | some listing =>
      refine congrArg Except.ok (Eq.trans ?_ (recordActivity_restrict h _ _ _))
      rfl
  | positionDelta vault owner outcomeId delta =>
    simp only [applyMutation, restrict, hget, hset, hmodify]
    split
    · rfl
    · split <;> rfl
  | claim =>
    simp only [applyMutation, restrict, hadd]
    refine congrArg Except.ok (Eq.trans ?_ (recordActivity_restrict h _ _ _))
    rfl

/-- A change of an event leaves the rows of other chains as they are. -/
theorem applyMutation_other (h : p event.chainId = false) (hm : applyMutation event T m = .ok T') :
    T'.restrict p = T.restrict p := by
  have hset : ∀ {κ β : Type} [DecidableEq κ] (m : OrderedMap (ChainKey κ) β) (k : κ) (v : β),
      ((m.set (event.chainId, k) v).restrict fun k => p k.1) = m.restrict fun k => p k.1 :=
    fun m k v => restrict_set_other (m := m) (k := (event.chainId, k)) (v := v) (p := fun k => p k.1) h
  have hadd : ∀ {κ β : Type} [DecidableEq κ] (m : OrderedMap (ChainKey κ) β) (k : κ) (v : β),
      ((m.add (event.chainId, k) v).restrict fun k => p k.1) = m.restrict fun k => p k.1 :=
    fun m k v => restrict_add_other (m := m) (k := (event.chainId, k)) (v := v) (p := fun k => p k.1) h
  have hmodify : ∀ {κ β : Type} [DecidableEq κ] (m : OrderedMap (ChainKey κ) β) (k : κ) (f : β → β),
      ((m.modify (event.chainId, k) f).restrict fun k => p k.1) = m.restrict fun k => p k.1 :=
    fun m k f => restrict_modify_other (m := m) (k := (event.chainId, k)) (p := fun k => p k.1) h f
  cases m with
  | marketCreated =>
    obtain rfl := Except.ok.inj hm
    rw [recordActivity_other h]
    simp only [restrict, hadd]
  | marketInitialized =>
    obtain rfl := Except.ok.inj hm
    simp only [restrict, hset]
  | marketMetadata =>
    obtain rfl := Except.ok.inj hm
    simp only [restrict, hmodify]
  | primaryPurchased =>
    obtain rfl := Except.ok.inj hm
    rw [recordActivity_other h]
    simp only [restrict, hmodify]
  | marketTerminal =>
    obtain rfl := Except.ok.inj hm
    rw [recordActivity_other h]
    simp only [restrict, hmodify]
  | listingCreated =>
    obtain rfl := Except.ok.inj hm
    rw [recordActivity_other h]
    simp only [restrict, hadd]
  | listingFilled listingId =>
    simp only [applyMutation] at hm
    split at hm
    · cases hm
    · obtain rfl := Except.ok.inj hm
      rw [recordActivity_other h]
      simp only [restrict, hmodify, hadd]
  | listingClosed listingId =>
    simp only [applyMutation] at hm
    split at hm
    · cases hm
    · obtain rfl := Except.ok.inj hm
      rw [recordActivity_other h]
      simp only [restrict, hmodify]
  | positionDelta vault owner outcomeId delta =>
    simp only [applyMutation] at hm
    split at hm
    · obtain rfl := Except.ok.inj hm
      simp only [restrict, hset]
    · split at hm
      · obtain rfl := Except.ok.inj hm
        simp only [restrict, hmodify]
      · cases hm
  | claim =>
    obtain rfl := Except.ok.inj hm
    rw [recordActivity_other h]
    simp only [restrict, hadd]

variable {decodeEventLog : IndexedEvent → Except ProjectionErr DecodedLog}

theorem applyProjection_restrict (h : p event.chainId = true) :
    applyProjection decodeEventLog event (T.restrict p) =
      (applyProjection decodeEventLog event T).map (restrict p) := by
  unfold applyProjection
  cases deriveMutations decodeEventLog event with
  | error e => rfl
  | ok ms =>
    exact foldlM_map (I := fun _ => True) (fun _ _ _ _ _ _ => trivial) (fun m _ _ _ => applyMutation_restrict h m)
      trivial

theorem applyProjection_other (h : p event.chainId = false) (hp : applyProjection decodeEventLog event T = .ok T') :
    T'.restrict p = T.restrict p := by
  obtain ⟨ms, -, hp⟩ := Outcome.bind_eq_ok.mp hp
  exact foldlM_inv (I := fun T' => T'.restrict p = T.restrict p)
    (fun _ _ _ _ hk hm => (applyMutation_other h hm).trans hk) rfl hp

end

end ProjectionTables

/-- The projections of `PostgresEventStore`, with what the decoder of logs makes of an event. -/
def projector (decodeEventLog : IndexedEvent → Except ProjectionErr DecodedLog) : Projector ProjectionTables where
  empty := .empty
  project := ProjectionTables.applyProjection decodeEventLog
  registeredMarkets chainId T :=
    (T.registeredMarkets.restrict fun k => decide (k.1 = chainId)).entries.map fun row => row.1.2
  overwrites := false
  restrict := ProjectionTables.restrict
  Keyed _ := True
  keyed_empty := trivial
  keyed_restrict _ := trivial
  keyed_project _ _ := trivial
  project_restrict _ := ProjectionTables.applyProjection_restrict
  project_other := ProjectionTables.applyProjection_other
  restrict_restrict p q T := by
    unfold ProjectionTables.restrict OrderedMap.restrict
    simp only [List.filter_filter]
  restrict_none h T := by
    unfold ProjectionTables.restrict OrderedMap.restrict
    simp only [h, List.filter_false]
    rfl

abbrev PostgresStore := EventStore ProjectionTables

end Cpredict.Indexer.Postgres
