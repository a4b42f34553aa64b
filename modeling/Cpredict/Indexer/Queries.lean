import Cpredict.Indexer.MemoryStore
import Cpredict.Indexer.Rollback
import Cpredict.Lib.Collation
import Cpredict.Lib.Keyset
import Mathlib.Order.WithBot

/-!
# Cursor pagination

The queries of the stores that go by a cursor: the activities of an account and the catalog of the markets, newest
first. A cursor is the key of the last item of a page, written as text. What compares the items for the order and
what compares an item to a cursor are written twice; both are the order of one key (`activityKey`, `marketKey`),
which no two items share. The text of a cursor is read back if it is not longer than 256 characters.

The memory store sorts by `localeCompare`, which follows the locale of the host (`Collation`), and takes the markets
after a cursor by `<`, which does not; the two agree where the locale orders texts by their characters
(`Collation.ByCharacter`).
-/

namespace Cpredict.Indexer

open Outcome HexText

inductive QueryErr
  | limitOutOfRange
  | invalidCursor
deriving DecidableEq

/-! ## Cursors -/

/-- The base64url text of the JSON of a value: what it decodes to, and its length. -/
structure OpaqueCursor (α : Type) where
  value : α
  length : Nat
deriving DecidableEq

/-- The length of unpadded base64url. -/
def base64urlLength (bytes : Nat) : Nat := (4 * bytes + 2) / 3

/-- The length of a number in decimal. -/
def decimals (n : Nat) : Nat := max 1 (Nat.digits 10 n).length

def encodeOpaqueCursor {α : Type} (jsonLength : α → Nat) (value : α) : OpaqueCursor α :=
  ⟨value, base64urlLength (jsonLength value)⟩

def decodeOpaqueCursor {α : Type} (c : OpaqueCursor α) : Except QueryErr α := do
  revertIf (c.length < 1 ∨ 256 < c.length) .invalidCursor
  .ok c.value

/-- A cursor of activities, with hashes as the store compares them. -/
structure ActivityCursor (H : Type) where
  block : Nat
  transactionHash : H
  logIndex : Nat
deriving DecidableEq

/-- `{"block":"..","transactionHash":"0x..","logIndex":..}` -/
def ActivityCursor.jsonLength {H : Type} (c : ActivityCursor H) : Nat := 111 + decimals c.block + decimals c.logIndex

def activityCursor {H : Type} (value : OpaqueCursor (ActivityCursor H)) : Except QueryErr (ActivityCursor H) := do
  let decoded ← decodeOpaqueCursor value
  -- `Number.isSafeInteger`
  revertIf (2 ^ 53 - 1 < decoded.logIndex) .invalidCursor
  .ok decoded

structure MarketCursor where
  block : Nat
  market : Address
deriving DecidableEq

/-- `{"block":"..","market":"0x.."}` -/
def MarketCursor.jsonLength (c : MarketCursor) : Nat := 66 + decimals c.block

def marketCursor (value : OpaqueCursor MarketCursor) : Except QueryErr MarketCursor := decodeOpaqueCursor value

def validateLimit (limit : Nat) : Except QueryErr Unit := revertIf (limit < 1 ∨ 100 < limit) .limitOutOfRange

/-! ## Reading cursors -/

theorem validateLimit_ok {limit : Nat} (hl : 1 ≤ limit ∧ limit ≤ 100) : validateLimit limit = .ok () :=
  revertIf_neg _ (by omega)

/-- A cursor whose text is short enough is read back. -/
theorem decode_encode {α : Type} {jsonLength : α → Nat} {v : α} (h : 0 < jsonLength v ∧ jsonLength v ≤ 192) :
    decodeOpaqueCursor (encodeOpaqueCursor jsonLength v) = .ok v := by
  have hlength : ¬ ((encodeOpaqueCursor jsonLength v).length < 1 ∨ 256 < (encodeOpaqueCursor jsonLength v).length) := by
    simp only [encodeOpaqueCursor, base64urlLength]
    omega
  rw [decodeOpaqueCursor, revertIf_neg _ hlength]
  rfl

/-- The numbers of an activity fit into the text of a cursor, and its log index is a safe integer. -/
def CursorFits (block logIndex : Nat) : Prop := decimals block + decimals logIndex ≤ 81 ∧ logIndex ≤ 2 ^ 53 - 1

theorem activityCursor_encode {H : Type} {c : ActivityCursor H} (h : CursorFits c.block c.logIndex) :
    activityCursor (encodeOpaqueCursor ActivityCursor.jsonLength c) = .ok c := by
  obtain ⟨hdigits, hlog⟩ := h
  unfold activityCursor
  rw [decode_encode ⟨by simp only [ActivityCursor.jsonLength]; omega, by simp only [ActivityCursor.jsonLength]; omega⟩]
  exact congrArg (· >>= fun _ => _) (revertIf_neg _ (by omega))

theorem marketCursor_encode {c : MarketCursor} (h : decimals c.block ≤ 126) :
    marketCursor (encodeOpaqueCursor MarketCursor.jsonLength c) = .ok c :=
  decode_encode ⟨by simp only [MarketCursor.jsonLength]; omega, by simp only [MarketCursor.jsonLength]; omega⟩

section

variable {H K : Type} {text : H → K}

/-- The newest first: block, text of the transaction and log from the last to the first. -/
def newestFirst (text : H → K) (c : ActivityCursor H) : WithBot (Nat ×ₗ K ×ₗ Nat)ᵒᵈ :=
  ((OrderDual.toDual (toLex (c.block, toLex (text c.transactionHash, c.logIndex))) : (Nat ×ₗ K ×ₗ Nat)ᵒᵈ) : WithBot _)

/-- The text of the cursor of a key. -/
noncomputable def activityText (text : H → K) : WithBot (Nat ×ₗ K ×ₗ Nat)ᵒᵈ → Option (OpaqueCursor (ActivityCursor H))
  | none => none
  | some k =>
    let t := ofLex (OrderDual.ofDual k)
    (Function.partialInv text (ofLex t.2).1).map fun hash =>
      encodeOpaqueCursor ActivityCursor.jsonLength ⟨t.1, hash, (ofLex t.2).2⟩

theorem activityText_key (h : Function.Injective text) (c : ActivityCursor H) :
    activityText text (newestFirst text c) = some (encodeOpaqueCursor ActivityCursor.jsonLength c) := by
  unfold newestFirst activityText
  exact congrArg (Option.map _) (Function.partialInv_left h c.transactionHash)

end

section

variable {K : Type} {text : Address → K}

/-- The newest first: block and text of the address from the last to the first. -/
def newestMarketFirst (text : Address → K) (c : MarketCursor) : WithBot (Nat ×ₗ K)ᵒᵈ :=
  ((OrderDual.toDual (toLex (c.block, text c.market)) : (Nat ×ₗ K)ᵒᵈ) : WithBot _)

noncomputable def marketText (text : Address → K) : WithBot (Nat ×ₗ K)ᵒᵈ → Option (OpaqueCursor MarketCursor)
  | none => none
  | some k =>
    let t := ofLex (OrderDual.ofDual k)
    (Function.partialInv text t.2).map fun market => encodeOpaqueCursor MarketCursor.jsonLength ⟨t.1, market⟩

theorem marketText_key (h : Function.Injective text) (c : MarketCursor) :
    marketText text (newestMarketFirst text c) = some (encodeOpaqueCursor MarketCursor.jsonLength c) := by
  unfold newestMarketFirst marketText
  exact congrArg (Option.map _) (Function.partialInv_left h c.market)

end

/-! ## Comparisons -/

def compareBigintDesc (a b : Nat) : Int := if a = b then 0 else if b < a then -1 else 1

def hashText (hash : Bytes32) : List (Fin 16) := hexText 64 hash

/-- `toLowerCase` of the text of an address. -/
def addressText (a : Address) : List (Fin 16) := hexText 40 a.word

theorem addressText_length (a : Address) : (addressText a).length = 40 :=
  hexText_length (a.word.isLt.trans_eq (by norm_num))

theorem hashText_injective : Function.Injective hashText := hexText_injective 64

theorem addressText_injective : Function.Injective addressText := fun a b h => by
  cases a
  cases b
  exact congrArg Address.mk (Fin.ext (hexText_injective 40 h))

namespace Memory

section

variable {K : Type} [LinearOrder K] (locale : Collation K)

def compareActivitiesDesc (a b : ActivityView) : Int :=
  if a.blockNumber ≠ b.blockNumber then compareBigintDesc a.blockNumber b.blockNumber
  else
    let tx := locale.localeCompare (hashText b.transactionHash) (hashText a.transactionHash)
    if tx = 0 then (b.logIndex : Int) - a.logIndex else tx

def compareActivityToCursor (activity : ActivityView) (cursor : ActivityCursor Bytes32) : Int :=
  if activity.blockNumber ≠ cursor.block then if activity.blockNumber < cursor.block then 1 else -1
  else
    let tx := locale.localeCompare (hashText activity.transactionHash) (hashText cursor.transactionHash)
    if tx ≠ 0 then if tx < 0 then 1 else -1
    else if activity.logIndex = cursor.logIndex then 0
    else if activity.logIndex < cursor.logIndex then 1 else -1

def compareMarketsDesc (a b : MarketView) : Int :=
  if a.createdBlock ≠ b.createdBlock then compareBigintDesc a.createdBlock b.createdBlock
  else locale.localeCompare (addressText b.market) (addressText a.market)

end

inductive MarketStatus
  | opened
  | resolved
  | voided
  | voidedCreator
  | voidedTimeout
deriving DecidableEq

def marketState : MarketStatus → Nat
  | .opened => 0
  | .resolved => 1
  | .voided | .voidedCreator => 2
  | .voidedTimeout => 3

/-- The markets of this store are not of the legacy protocol. -/
def matchesMarketStatus (market : MarketView) : MarketStatus → Bool
  | .voided => decide (market.state = 2)
  | .voidedCreator | .voidedTimeout => false
  | status => decide (market.state = marketState status)

namespace Projections

section

variable {K : Type} [LinearOrder K] (locale : Collation K) (P : Projections) (chainId : Nat)

/-! ## The queries -/

/-- The activities of an account, in the order in which they were stored. -/
def activitiesOf (owner : Address) : List ActivityView :=
  (P.activities.entries.filter fun x => decide (x.2.chainId = chainId) &&
    (P.activityParticipants.get x.1).any fun participants => decide (owner ∈ participants)).map Prod.snd

def listActivity (owner : Address) (limit : Nat) (cursor : Option (OpaqueCursor (ActivityCursor Bytes32))) :
    Except QueryErr (List ActivityView × Option (OpaqueCursor (ActivityCursor Bytes32))) := do
  validateLimit limit
  let cursor ← cursor.mapM activityCursor
  let items := ((activitiesOf P chainId owner).filter fun activity =>
    cursor.all fun c => decide (0 < compareActivityToCursor locale activity c)).insertionSort fun a b =>
      compareActivitiesDesc locale a b ≤ 0
  let pageItems := items.take limit
  .ok (pageItems, if limit < items.length then pageItems.getLast?.map fun last =>
    encodeOpaqueCursor ActivityCursor.jsonLength ⟨last.blockNumber, last.transactionHash, last.logIndex⟩ else none)

/-- The account created the market or takes part in an activity of it. -/
def concerns (owner : Address) (market : MarketView) : Bool :=
  decide (market.creator = owner) || P.activities.entries.any fun x => decide (x.2.chainId = chainId) &&
    decide (x.2.vault = market.market) && (P.activityParticipants.get x.1).any fun participants =>
      decide (owner ∈ participants)

/-- The markets that the filters let through. -/
def marketsOf (status : Option MarketStatus) (owner : Option Address) : List MarketView :=
  P.markets.values.filter fun market => decide (market.chainId = chainId) && status.all (matchesMarketStatus market) &&
    owner.all fun o => concerns P chainId o market

def listMarketCatalog (status : Option MarketStatus) (owner : Option Address) (limit : Nat)
    (cursor : Option (OpaqueCursor MarketCursor)) :
    Except QueryErr (List MarketView × Option (OpaqueCursor MarketCursor)) := do
  validateLimit limit
  let cursor ← cursor.mapM marketCursor
  let items := ((marketsOf P chainId status owner).filter fun market => cursor.all fun c =>
    decide (market.createdBlock < c.block ∨ market.createdBlock = c.block ∧
      addressText market.market < addressText c.market)).insertionSort fun a b => compareMarketsDesc locale a b ≤ 0
  let pageItems := items.take limit
  .ok (pageItems, if limit < items.length then pageItems.getLast?.map fun last =>
    encodeOpaqueCursor MarketCursor.jsonLength ⟨last.createdBlock, last.market⟩ else none)

end

/-! ## States of the store -/

/-- The projections that a store can have: mutations of events, and the removal of the rows of some chains. A batch
that fails leaves the mutations that it has made. -/
inductive Made : Projections → Prop
  | empty : Made .empty
  | mutate {P P' : Projections} (event : IndexedEvent) (m : DerivedMutation) : Made P →
      applyMutation event P m = .ok P' → Made P'
  | restrict {P : Projections} (p : Nat → Bool) : Made P → Made (P.restrict p)

/-- Activities and markets stand under their own keys. -/
structure Tagged (P : Projections) : Prop where
  activities : ∀ x ∈ P.activities.entries, x.1 = (x.2.chainId, x.2.transactionHash, x.2.logIndex)
  activityKeys : (P.activities.entries.map Prod.fst).Nodup
  markets : ∀ x ∈ P.markets.entries, x.1 = (x.2.chainId, x.2.market)
  marketKeys : (P.markets.entries.map Prod.fst).Nodup

section

variable {P P' : Projections} {event : IndexedEvent}

theorem Tagged.record (h : Tagged P) (event : IndexedEvent) (input : ActivityInput) (extra : List Address) :
    Tagged (P.recordActivity event input extra) := by
  refine ⟨fun x hx => ?_, OrderedMap.nodup_set h.activityKeys _ _, h.markets, h.marketKeys⟩
  rcases OrderedMap.mem_set hx with hx | rfl
  · exact h.activities x hx
  · rfl

/-- A market that is stored under its key. -/
theorem Tagged.market (h : Tagged P) {key : ChainKey Address} {m : MarketView} (hk : key = (m.chainId, m.market)) :
    Tagged { P with markets := P.markets.set key m } := by
  refine ⟨h.activities, h.activityKeys, fun x hx => ?_, OrderedMap.nodup_set h.marketKeys _ _⟩
  rcases OrderedMap.mem_set hx with hx | rfl
  · exact h.markets x hx
  · exact hk

theorem Tagged.get (h : Tagged P) {key : ChainKey Address} {m : MarketView} (hg : P.markets.get key = some m) :
    key = (m.chainId, m.market) := h.markets _ (OrderedMap.get_mem hg)

theorem Tagged.mutate (h : Tagged P) {m : DerivedMutation} (hm : applyMutation event P m = .ok P') : Tagged P' := by
  cases m with
  | marketCreated market creator deploymentMode creatorBond =>
    obtain rfl := Except.ok.inj hm
    refine Tagged.record ?_ event _ _
    dsimp only
    split
    · exact ⟨h.activities, h.activityKeys, h.markets, h.marketKeys⟩
    · exact Tagged.market (P := { P with registered := P.registered.set (addressKey event.chainId market) market })
        ⟨h.activities, h.activityKeys, h.markets, h.marketKeys⟩ (by rfl)
  | marketInitialized =>
    obtain rfl := Except.ok.inj hm
    exact h.market (by rfl)
  | marketMetadata =>
    simp only [applyMutation] at hm
    split at hm
    · cases hm
    · rename_i current hcurrent
      obtain rfl := Except.ok.inj hm
      have hkey := h.get hcurrent
      exact h.market hkey
  | primaryPurchased =>
    simp only [applyMutation] at hm
    split at hm
    · cases hm
    · rename_i current hcurrent
      obtain rfl := Except.ok.inj hm
      have hkey := h.get hcurrent
      refine Tagged.record ?_ event _ _
      exact h.market hkey
  | marketTerminal =>
    simp only [applyMutation] at hm
    split at hm
    · cases hm
    · rename_i current hcurrent
      obtain rfl := Except.ok.inj hm
      have hkey := h.get hcurrent
      refine Tagged.record ?_ event _ _
      exact h.market hkey
  | listingCreated =>
    obtain rfl := Except.ok.inj hm
    refine Tagged.record ?_ event _ _
    exact ⟨h.activities, h.activityKeys, h.markets, h.marketKeys⟩
  | listingFilled =>
    simp only [applyMutation] at hm
    split at hm
    · cases hm
    · obtain rfl := Except.ok.inj hm
      refine Tagged.record ?_ event _ _
      exact ⟨h.activities, h.activityKeys, h.markets, h.marketKeys⟩
  | listingClosed =>
    simp only [applyMutation] at hm
    split at hm
    · cases hm
    · obtain rfl := Except.ok.inj hm
      refine Tagged.record ?_ event _ _
      exact ⟨h.activities, h.activityKeys, h.markets, h.marketKeys⟩
  | positionDelta =>
    simp only [applyMutation] at hm
    split at hm
    · cases hm
    · obtain rfl := Except.ok.inj hm
      exact ⟨h.activities, h.activityKeys, h.markets, h.marketKeys⟩
  | claim =>
    obtain rfl := Except.ok.inj hm
    refine Tagged.record ?_ event _ _
    exact ⟨h.activities, h.activityKeys, h.markets, h.marketKeys⟩

theorem Made.tagged (h : Made P) : Tagged P := by
  induction h with
  | empty => exact ⟨by simp [Projections.empty, OrderedMap.empty], by simp [Projections.empty, OrderedMap.empty],
      by simp [Projections.empty, OrderedMap.empty], by simp [Projections.empty, OrderedMap.empty]⟩
  | mutate event m _ hm ih => exact ih.mutate hm
  | restrict p _ ih =>
    exact ⟨fun x hx => ih.activities x (List.mem_filter.mp hx).1, OrderedMap.nodup_restrict ih.activityKeys _,
      fun x hx => ih.markets x (List.mem_filter.mp hx).1, OrderedMap.nodup_restrict ih.marketKeys _⟩

theorem made_project {decodeEventLog : IndexedEvent → Except ProjectionErr DecodedLog} (h : Made P)
    (hp : project decodeEventLog event P = .ok P') : Made P' := by
  obtain ⟨ms, -, hp⟩ := bind_eq_ok.mp hp
  exact foldlM_inv (fun m _ _ _ hP hm => hP.mutate event m hm) h hp

theorem made_projectAll {decodeEventLog : IndexedEvent → Except ProjectionErr DecodedLog} {events : List IndexedEvent}
    (h : Made P)
    (hp : (projector decodeEventLog).projectAll events P = .ok P') : Made P' :=
  foldlM_inv (fun _ _ _ _ hP hm => made_project hP hm) h hp

/-- What the store of a history has is made by mutations. -/
theorem made_history {decodeEventLog : IndexedEvent → Except ProjectionErr DecodedLog} {kind : CanonicalBatch → Prop}
    {bs : Nat → List CanonicalBatch} {S : MemoryStore} (h : EventStore.History (projector decodeEventLog) kind bs S) :
    Made S.projections := by
  induction h with
  | fresh => exact .empty
  | @apply bs S S' batch _ _ ha ih =>
    by_cases hcom : S.Committed batch
    · rwa [EventStore.applyBatch_committed hcom ha]
    · exact made_projectAll ih ((EventStore.applyBatch_iff hcom).mp ha).projections
  | @rollback bs S S' c ancestor _ hr ih =>
    have hcleared : Made ((projector decodeEventLog).clearProjections c S.projections) :=
      ih.restrict fun d => decide (d ≠ c)
    exact made_projectAll hcleared (EventStore.rollbackAfter_iff.mp hr).projections

/-! ## Keys -/

variable {K : Type} [LinearOrder K] {locale : Collation K}

def activityKey (locale : Collation K) (a : ActivityView) : WithBot (Nat ×ₗ K ×ₗ Nat)ᵒᵈ :=
  newestFirst (locale.sortKey ∘ hashText) ⟨a.blockNumber, a.transactionHash, a.logIndex⟩

def marketKey (locale : Collation K) (m : MarketView) : WithBot (Nat ×ₗ K)ᵒᵈ :=
  newestMarketFirst (locale.sortKey ∘ addressText) ⟨m.createdBlock, m.market⟩

/-- The order of the list is that of the keys. -/
theorem activityKey_le (a b : ActivityView) : activityKey locale a ≤ activityKey locale b ↔
    compareActivitiesDesc locale a b ≤ 0 := by
  simp only [activityKey, newestFirst, WithBot.coe_le_coe, OrderDual.toDual_le_toDual, Prod.Lex.toLex_le_toLex,
    compareActivitiesDesc,
    compareBigintDesc, Function.comp_apply]
  rcases locale.localeCompare_cases (hashText b.transactionHash) (hashText a.transactionHash) with ⟨h,
    he⟩ | ⟨h, he⟩ | ⟨h, he⟩
  · simp only [he, h, h.ne, true_or, and_true]
    split_ifs <;> first | contradiction | omega
  · simp only [he, h, lt_irrefl, false_or, true_and]
    split_ifs <;> first | contradiction | omega
  · simp only [he, h.ne', h.not_gt, false_and, or_self, and_false, or_false]
    split_ifs <;> first | contradiction | omega

theorem activityKey_lt (a b : ActivityView) : activityKey locale a < activityKey locale b ↔
    compareActivitiesDesc locale a b < 0 := by
  simp only [activityKey, newestFirst, WithBot.coe_lt_coe, OrderDual.toDual_lt_toDual, Prod.Lex.toLex_lt_toLex,
    compareActivitiesDesc,
    compareBigintDesc, Function.comp_apply]
  rcases locale.localeCompare_cases (hashText b.transactionHash) (hashText a.transactionHash) with ⟨h,
    he⟩ | ⟨h, he⟩ | ⟨h, he⟩
  · simp only [he, h, h.ne, true_or, and_true]
    split_ifs <;> first | contradiction | omega
  · simp only [he, h, lt_irrefl, false_or, true_and]
    split_ifs <;> first | contradiction | omega
  · simp only [he, h.ne', h.not_gt, false_and, or_self, and_false, or_false]
    split_ifs <;> first | contradiction | omega

/-- What comes after a cursor is what comes after its key. -/
theorem lt_activityKey (c : ActivityCursor Bytes32) (a : ActivityView) :
    newestFirst (locale.sortKey ∘ hashText) c < activityKey locale a ↔ 0 < compareActivityToCursor locale a c := by
  simp only [activityKey, newestFirst, WithBot.coe_lt_coe, OrderDual.toDual_lt_toDual, Prod.Lex.toLex_lt_toLex,
    compareActivityToCursor,
    Function.comp_apply]
  rcases locale.localeCompare_cases (hashText a.transactionHash) (hashText c.transactionHash) with ⟨h,
    he⟩ | ⟨h, he⟩ | ⟨h, he⟩
  · simp only [he, h, h.ne, true_or, and_true]
    split_ifs <;> first | contradiction | omega
  · simp only [he, h, lt_irrefl, false_or, true_and]
    split_ifs <;> first | contradiction | omega
  · simp only [he, h.ne', h.not_gt, false_and, or_self, and_false, or_false]
    split_ifs <;> first | contradiction | omega

theorem marketKey_le (a b : MarketView) : marketKey locale a ≤ marketKey locale b ↔
    compareMarketsDesc locale a b ≤ 0 := by
  simp only [marketKey, newestMarketFirst, WithBot.coe_le_coe, OrderDual.toDual_le_toDual, Prod.Lex.toLex_le_toLex,
    compareMarketsDesc, compareBigintDesc, Function.comp_apply]
  rcases locale.localeCompare_cases (addressText b.market) (addressText a.market) with ⟨h, he⟩ | ⟨h, he⟩ | ⟨h, he⟩
  · simp only [he, h.le, and_true]
    split_ifs <;> first | contradiction | omega
  · simp only [he, h, le_refl, and_true]
    split_ifs <;> first | contradiction | omega
  · simp only [he, h.not_ge, and_false, or_false]
    split_ifs <;> first | contradiction | omega

theorem marketKey_lt (a b : MarketView) : marketKey locale a < marketKey locale b ↔
    compareMarketsDesc locale a b < 0 := by
  simp only [marketKey, newestMarketFirst, WithBot.coe_lt_coe, OrderDual.toDual_lt_toDual, Prod.Lex.toLex_lt_toLex,
    compareMarketsDesc, compareBigintDesc, Function.comp_apply]
  rcases locale.localeCompare_cases (addressText b.market) (addressText a.market) with ⟨h, he⟩ | ⟨h, he⟩ | ⟨h, he⟩
  · simp only [he, h, and_true]
    split_ifs <;> first | contradiction | omega
  · simp only [he, h, lt_irrefl, and_false, or_false]
    split_ifs <;> first | contradiction | omega
  · simp only [he, h.not_gt, and_false, or_false]
    split_ifs <;> first | contradiction | omega

/-- In a locale that orders by characters the markets after a cursor are those after its key. -/
theorem lt_marketKey (hlocale : locale.ByCharacter) (c : MarketCursor) (a : MarketView) :
    newestMarketFirst (locale.sortKey ∘ addressText) c < marketKey locale a ↔
      a.createdBlock < c.block ∨ a.createdBlock = c.block ∧ addressText a.market < addressText c.market := by
  have hlength : (addressText a.market).length = (addressText c.market).length := by
    rw [addressText_length, addressText_length]
  simp only [marketKey, newestMarketFirst, WithBot.coe_lt_coe, OrderDual.toDual_lt_toDual, Prod.Lex.toLex_lt_toLex,
    Function.comp_apply, hlocale _ _ hlength]

omit [LinearOrder K] in
theorem Tagged.activity_nodup (h : Tagged P) (chainId : Nat) (owner : Address) :
    ((P.activitiesOf chainId owner).map (activityKey locale)).Nodup := by
  unfold activitiesOf
  rw [List.map_map]
  refine List.Nodup.map_on ?_ ((List.Nodup.of_map _ h.activityKeys).filter _)
  intro x hx y hy hxy
  obtain ⟨hx, hxc⟩ := List.mem_filter.mp hx
  obtain ⟨hy, hyc⟩ := List.mem_filter.mp hy
  rw [Bool.and_eq_true, decide_eq_true_eq] at hxc hyc
  have hkey := h.activities x hx
  have hkey' := h.activities y hy
  simp only [Function.comp_apply, activityKey, newestFirst, WithBot.coe_inj, OrderDual.toDual_inj, toLex_inj,
    Prod.mk.injEq] at hxy
  obtain ⟨-, hhash, hlog⟩ := hxy
  refine List.inj_on_of_nodup_map h.activityKeys hx hy ?_
  rw [hkey, hkey', hxc.1, hyc.1, hashText_injective (locale.injective hhash), hlog]

omit [LinearOrder K] in
theorem Tagged.market_nodup (h : Tagged P) (chainId : Nat) (status : Option MarketStatus) (owner : Option Address) :
    ((P.marketsOf chainId status owner).map (marketKey locale)).Nodup := by
  unfold marketsOf OrderedMap.values
  rw [List.filter_map, List.map_map]
  refine List.Nodup.map_on ?_ ((List.Nodup.of_map _ h.marketKeys).filter _)
  intro x hx y hy hxy
  obtain ⟨hx, hxc⟩ := List.mem_filter.mp hx
  obtain ⟨hy, hyc⟩ := List.mem_filter.mp hy
  simp only [Function.comp_apply, Bool.and_eq_true, decide_eq_true_eq] at hxc hyc
  have hkey := h.markets x hx
  have hkey' := h.markets y hy
  simp only [Function.comp_apply, marketKey, newestMarketFirst, WithBot.coe_inj, OrderDual.toDual_inj, toLex_inj,
    Prod.mk.injEq] at hxy
  obtain ⟨-, hmarket⟩ := hxy
  refine List.inj_on_of_nodup_map h.marketKeys hx hy ?_
  rw [hkey, hkey', hxc.1.1, hyc.1.1, addressText_injective (locale.injective hmarket)]

/-! ## Pages -/

variable {chainId limit : Nat} {owner : Address} {status : Option MarketStatus} {who : Option Address}

omit [LinearOrder K] in
theorem hashKey_injective (locale : Collation K) : Function.Injective (locale.sortKey ∘ hashText) :=
  locale.injective.comp hashText_injective

omit [LinearOrder K] in
theorem addressKey_injective (locale : Collation K) : Function.Injective (locale.sortKey ∘ addressText) :=
  locale.injective.comp addressText_injective

theorem after_activities (l : List ActivityView) (cursor : Option (ActivityCursor Bytes32)) :
    (l.filter fun activity => cursor.all fun c => decide (0 < compareActivityToCursor locale activity c)).insertionSort
      (fun a b => compareActivitiesDesc locale a b ≤ 0) =
        Keyset.after (activityKey locale) l (cursor.elim ⊥ (newestFirst (locale.sortKey ∘ hashText))) := by
  refine Keyset.after_eq activityKey_le (fun a => ?_) l
  cases cursor with
  | none => exact (decide_eq_true (WithBot.bot_lt_coe _)).symm
  | some c =>
    simp only [Option.all_some, Option.elim_some]
    exact decide_eq_decide.mpr (lt_activityKey c a).symm

/-- The activities after a cursor, or from the first on. -/
theorem listActivity_page (hl : 1 ≤ limit ∧ limit ≤ 100) (cursor : Option (ActivityCursor Bytes32))
    (hfits : ∀ c ∈ cursor, CursorFits c.block c.logIndex) :
    P.listActivity locale chainId owner limit
        (activityText (locale.sortKey ∘ hashText) (cursor.elim ⊥ (newestFirst (locale.sortKey ∘ hashText)))) =
      .ok (Keyset.page (activityKey locale) limit (P.activitiesOf chainId owner)
          (cursor.elim ⊥ (newestFirst (locale.sortKey ∘ hashText))),
        (Keyset.next (activityKey locale) limit (P.activitiesOf chainId owner)
          (cursor.elim ⊥ (newestFirst (locale.sortKey ∘ hashText)))).bind (activityText
          (locale.sortKey ∘ hashText))) := by
  have hcursor : (activityText (locale.sortKey ∘ hashText)
      (cursor.elim ⊥ (newestFirst (locale.sortKey ∘ hashText)))).mapM activityCursor = .ok cursor := by
    cases cursor with
    | none => rfl
    | some c =>
      simp only [Option.elim_some, activityText_key (hashKey_injective locale), Option.mapM_some,
        activityCursor_encode (hfits c rfl)]
      rfl
  rw [listActivity, validateLimit_ok hl, hcursor]
  have hpage := Keyset.page_text (activityKey locale) (activityText (locale.sortKey ∘ hashText))
    (fun a => activityText_key (hashKey_injective locale) _) limit
    (P.activitiesOf chainId owner) (cursor.elim ⊥ (newestFirst (locale.sortKey ∘ hashText)))
  rw [← hpage, ← after_activities]
  rfl

theorem after_markets (hlocale : locale.ByCharacter) (l : List MarketView) (cursor : Option MarketCursor) :
    (l.filter fun market => cursor.all fun c =>
      decide (market.createdBlock < c.block ∨ market.createdBlock = c.block ∧
        addressText market.market < addressText c.market)).insertionSort
          (fun a b => compareMarketsDesc locale a b ≤ 0) =
      Keyset.after (marketKey locale) l (cursor.elim ⊥ (newestMarketFirst (locale.sortKey ∘ addressText))) := by
  refine Keyset.after_eq marketKey_le (fun a => ?_) l
  cases cursor with
  | none => exact (decide_eq_true (WithBot.bot_lt_coe _)).symm
  | some c =>
    simp only [Option.all_some, Option.elim_some]
    exact decide_eq_decide.mpr (lt_marketKey hlocale c a).symm

theorem listMarketCatalog_page (hlocale : locale.ByCharacter) (hl : 1 ≤ limit ∧ limit ≤ 100)
    (cursor : Option MarketCursor) (hfits : ∀ c ∈ cursor, decimals c.block ≤ 126) :
    P.listMarketCatalog locale chainId status who limit
        (marketText (locale.sortKey ∘ addressText) (cursor.elim ⊥ (newestMarketFirst (locale.sortKey ∘ addressText)))) =
      .ok (Keyset.page (marketKey locale) limit (P.marketsOf chainId status who)
          (cursor.elim ⊥ (newestMarketFirst (locale.sortKey ∘ addressText))),
        (Keyset.next (marketKey locale) limit (P.marketsOf chainId status who)
          (cursor.elim ⊥ (newestMarketFirst (locale.sortKey ∘ addressText)))).bind
            (marketText (locale.sortKey ∘ addressText))) := by
  have hcursor : (marketText (locale.sortKey ∘ addressText)
      (cursor.elim ⊥ (newestMarketFirst (locale.sortKey ∘ addressText)))).mapM marketCursor = .ok cursor := by
    cases cursor with
    | none => rfl
    | some c =>
      simp only [Option.elim_some, marketText_key (addressKey_injective locale), Option.mapM_some,
        marketCursor_encode (hfits c rfl)]
      rfl
  rw [listMarketCatalog, validateLimit_ok hl, hcursor]
  have hpage := Keyset.page_text (marketKey locale) (marketText (locale.sortKey ∘ addressText))
    (fun m => marketText_key (addressKey_injective locale) _) limit
    (P.marketsOf chainId status who) (cursor.elim ⊥ (newestMarketFirst (locale.sortKey ∘ addressText)))
  rw [← hpage, ← after_markets hlocale]
  rfl

/-- The activities of an account, page by page, in any locale. -/
theorem Tagged.lists_activity (h : Tagged P) (locale : Collation K) (hl : 1 ≤ limit ∧ limit ≤ 100)
    (hfits : ∀ a ∈ P.activitiesOf chainId owner, CursorFits a.blockNumber a.logIndex) :
    Keyset.Lists (P.listActivity locale chainId owner limit) limit (P.activitiesOf chainId owner)
      fun a b => compareActivitiesDesc locale a b < 0 := by
  refine Keyset.lists (activityKey locale) (activityText (locale.sortKey ∘ hashText)) ⊥ (h.activity_nodup chainId owner)
    hl.1 (fun a _ => WithBot.bot_lt_coe _) rfl
    (fun a _ => Option.isSome_iff_exists.mpr ⟨_, activityText_key (hashKey_injective locale) _⟩) ?_
    fun a b hab => (activityKey_lt a b).mp hab
  rintro c (rfl | ⟨a, ha, rfl⟩)
  · exact listActivity_page hl none fun c hc => by cases hc
  · refine listActivity_page hl (some ⟨a.blockNumber, a.transactionHash, a.logIndex⟩) ?_
    rintro c ⟨⟩
    exact hfits a ha

/-- The markets that the filters let through, page by page. -/
theorem Tagged.lists_markets (h : Tagged P) (hlocale : locale.ByCharacter) (hl : 1 ≤ limit ∧ limit ≤ 100)
    (hfits : ∀ m ∈ P.marketsOf chainId status who, decimals m.createdBlock ≤ 126) :
    Keyset.Lists (P.listMarketCatalog locale chainId status who limit) limit (P.marketsOf chainId status who)
      fun a b => compareMarketsDesc locale a b < 0 := by
  refine Keyset.lists (marketKey locale) (marketText (locale.sortKey ∘ addressText)) ⊥
    (h.market_nodup chainId status who) hl.1 (fun m _ => WithBot.bot_lt_coe _) rfl
    (fun m _ => Option.isSome_iff_exists.mpr ⟨_, marketText_key (addressKey_injective locale) _⟩) ?_
    fun a b hab => (marketKey_lt a b).mp hab
  rintro c (rfl | ⟨m, hm, rfl⟩)
  · exact listMarketCatalog_page hlocale hl none fun c hc => by cases hc
  · refine listMarketCatalog_page hlocale hl (some ⟨m.createdBlock, m.market⟩) ?_
    rintro c ⟨⟩
    exact hfits m hm

end

end Projections

end Memory

end Cpredict.Indexer
