import Cpredict.Indexer.Queries
import Mathlib.Data.Nat.Log

/-!
# Cursor pagination in both stores

In Postgres the rows are sorted and compared to the cursor by the collation of the texts of hashes and addresses;
the primary keys of the tables say that no two rows share a key and that an account takes part in an activity once.
In both stores a client that follows the cursors gets every item once (`cursor_pages`), as long as the text of every
cursor is short enough to be read back and, for the markets of the memory store, the host orders texts by their
characters. A cursor of more than 256 characters is refused, and in a locale that has `aa` behind the other letters
a client loses markets (`cursor_pages_fails`).
-/

namespace Cpredict.Indexer

open Outcome HexText

namespace Postgres

open Memory (ActivityKind MarketView MarketStatus marketState)

/-- A row of `activities`, with a hash as the text of the column. -/
structure ActivityRow (H : Type) where
  chainId : Nat
  transactionHash : H
  logIndex : Nat
  kind : ActivityKind
  vault : Address
  actor : Option Address
  counterparty : Option Address
  outcomeId : Option Nat
  listingId : Option Bytes32
  units : Option Nat
  amount : Option Nat
  blockNumber : Nat
  confirmationStatus : ConfirmationStatus
deriving DecidableEq

structure ParticipantRow (H : Type) where
  chainId : Nat
  transactionHash : H
  logIndex : Nat
  participant : Address
deriving DecidableEq

structure MarketRow extends MarketView where
  /-- `protocol_version = 'legacy-v1'` -/
  legacy : Bool
deriving DecidableEq

/-- The tables, with their primary keys. -/
structure Tables (H : Type) where
  activities : List (ActivityRow H)
  activities_pkey : (activities.map fun a => (a.chainId, a.transactionHash, a.logIndex)).Nodup
  participants : List (ParticipantRow H)
  participants_pkey : participants.Nodup
  markets : List MarketRow
  markets_pkey : (markets.map fun m => (m.chainId, m.market)).Nodup

section

variable {H K : Type} [LinearOrder H] [LinearOrder K] (text : Address → K) (T : Tables H) (chainId : Nat)

/-- The rows of participants that an activity is joined with. -/
def joined (owner : Address) (a : ActivityRow H) : List (ParticipantRow H) :=
  T.participants.filter fun ap => decide (ap.chainId = a.chainId ∧ ap.transactionHash = a.transactionHash ∧
    ap.logIndex = a.logIndex ∧ ap.participant = owner)

/-- `FROM activities a JOIN activity_participants ap`, of the chain and the account. -/
def activitiesOf (owner : Address) : List (ActivityRow H) :=
  (T.activities.flatMap fun a => (joined T owner a).map fun _ => a).filter fun a => decide (a.chainId = chainId)

/-- `ORDER BY a.block_number DESC, a.transaction_hash DESC, a.log_index DESC` -/
def OrderedDesc (a b : ActivityRow H) : Prop :=
  b.blockNumber < a.blockNumber ∨ a.blockNumber = b.blockNumber ∧
    (b.transactionHash < a.transactionHash ∨ a.transactionHash = b.transactionHash ∧ b.logIndex ≤ a.logIndex)

instance : DecidableRel (OrderedDesc (H := H)) := fun _ _ => inferInstanceAs (Decidable (_ ∨ _))

def cursorFilter (cursor : ActivityCursor H) (a : ActivityRow H) : Bool :=
  decide (a.blockNumber < cursor.block ∨ (a.blockNumber = cursor.block ∧ a.transactionHash < cursor.transactionHash) ∨
    (a.blockNumber = cursor.block ∧ a.transactionHash = cursor.transactionHash ∧ a.logIndex < cursor.logIndex))

def listActivity (owner : Address) (limit : Nat) (cursor : Option (OpaqueCursor (ActivityCursor H))) :
    Except QueryErr (List (ActivityRow H) × Option (OpaqueCursor (ActivityCursor H))) := do
  validateLimit limit
  let cursor ← cursor.mapM activityCursor
  let rows := (((activitiesOf T chainId owner).filter fun a => cursor.all fun c => cursorFilter c a).insertionSort
    OrderedDesc).take
    (limit + 1)
  let items := rows.take limit
  .ok (items, if limit < rows.length then items.getLast?.map fun last =>
    encodeOpaqueCursor ActivityCursor.jsonLength ⟨last.blockNumber, last.transactionHash, last.logIndex⟩ else none)

def statusFilter (m : MarketRow) : MarketStatus → Bool
  | .voided => decide (m.state = 2) || m.legacy && decide (m.state = 3)
  | .voidedCreator => m.legacy && decide (m.state = marketState .voidedCreator)
  | .voidedTimeout => m.legacy && decide (m.state = marketState .voidedTimeout)
  | status => decide (m.state = marketState status)

def ownerFilter (owner : Address) (m : MarketRow) : Bool :=
  decide (m.creator = owner) || T.activities.any fun a => decide (a.chainId = m.chainId) &&
    decide (a.vault = m.market) &&
    decide (joined T owner a ≠ [])

def marketsOf (status : Option MarketStatus) (owner : Option Address) : List MarketRow :=
  T.markets.filter fun m => decide (m.chainId = chainId) && status.all (statusFilter m) && owner.all fun o =>
    ownerFilter T o m

/-- `ORDER BY m.created_block DESC, m.market DESC` -/
def MarketsDesc (a b : MarketRow) : Prop :=
  b.createdBlock < a.createdBlock ∨ a.createdBlock = b.createdBlock ∧ text b.market ≤ text a.market

instance : DecidableRel (MarketsDesc text) := fun _ _ => inferInstanceAs (Decidable (_ ∨ _))

def listMarketCatalog (status : Option MarketStatus) (owner : Option Address) (limit : Nat)
    (cursor : Option (OpaqueCursor MarketCursor)) :
    Except QueryErr (List MarketRow × Option (OpaqueCursor MarketCursor)) := do
  validateLimit limit
  let cursor ← cursor.mapM marketCursor
  let rows := (((marketsOf T chainId status owner).filter fun m => cursor.all fun c =>
    decide (m.createdBlock < c.block ∨ m.createdBlock = c.block ∧ text m.market < text c.market)).insertionSort
      (MarketsDesc text)).take (limit + 1)
  let items := rows.take limit
  .ok (items, if limit < rows.length then items.getLast?.map fun last =>
    encodeOpaqueCursor MarketCursor.jsonLength ⟨last.createdBlock, last.market⟩ else none)

end

/-! ## Keys -/

section

variable {H K : Type} [LinearOrder H] [LinearOrder K] {text : Address → K} {T : Tables H} {chainId limit : Nat}
  {owner : Address}
  {status : Option MarketStatus} {who : Option Address}

def activityKey (a : ActivityRow H) : WithBot (Nat ×ₗ H ×ₗ Nat)ᵒᵈ :=
  newestFirst id ⟨a.blockNumber, a.transactionHash, a.logIndex⟩

def marketKey (text : Address → K) (m : MarketRow) : WithBot (Nat ×ₗ K)ᵒᵈ :=
  newestMarketFirst text ⟨m.createdBlock, m.market⟩

theorem activityKey_le (a b : ActivityRow H) : activityKey a ≤ activityKey b ↔ OrderedDesc a b := by
  simp only [activityKey, newestFirst, WithBot.coe_le_coe, OrderDual.toDual_le_toDual,
    Prod.Lex.toLex_le_toLex, OrderedDesc,
    id_eq, eq_comm (a := b.blockNumber), eq_comm (a := b.transactionHash)]

theorem lt_activityKey (c : ActivityCursor H) (a : ActivityRow H) :
    newestFirst id c < activityKey a ↔ a.blockNumber < c.block ∨
      (a.blockNumber = c.block ∧ a.transactionHash < c.transactionHash) ∨
      (a.blockNumber = c.block ∧ a.transactionHash = c.transactionHash ∧ a.logIndex < c.logIndex) := by
  simp only [activityKey, newestFirst, WithBot.coe_lt_coe, OrderDual.toDual_lt_toDual, Prod.Lex.toLex_lt_toLex, id_eq,
    and_or_left]

theorem marketKey_le (a b : MarketRow) : marketKey text a ≤ marketKey text b ↔ MarketsDesc text a b := by
  simp only [marketKey, newestMarketFirst, WithBot.coe_le_coe, OrderDual.toDual_le_toDual,
    Prod.Lex.toLex_le_toLex, MarketsDesc,
    eq_comm (a := b.createdBlock)]

theorem lt_marketKey (c : MarketCursor) (m : MarketRow) : newestMarketFirst text c < marketKey text m ↔
    m.createdBlock < c.block ∨ m.createdBlock = c.block ∧ text m.market < text c.market := by
  simp only [marketKey, newestMarketFirst, WithBot.coe_lt_coe, OrderDual.toDual_lt_toDual, Prod.Lex.toLex_lt_toLex]

/-- The key of the participants lets an activity be joined with one row at most. -/
theorem joined_length (T : Tables H) (owner : Address) (a : ActivityRow H) : (joined T owner a).length ≤ 1 := by
  have hn : (joined T owner a).Nodup := T.participants_pkey.filter _
  have hsame : ∀ x ∈ joined T owner a, x = ⟨a.chainId, a.transactionHash, a.logIndex, owner⟩ := by
    intro x hx
    obtain ⟨h₁, h₂, h₃, h₄⟩ := of_decide_eq_true (List.mem_filter.mp hx).2
    obtain ⟨chain, hash, log, participant⟩ := x
    simp only at h₁ h₂ h₃ h₄
    rw [h₁, h₂, h₃, h₄]
  match hj : joined T owner a with
  | [] => exact Nat.zero_le 1
  | [x] => exact Nat.le_refl 1
  | x :: y :: rest =>
    rw [hj] at hn hsame
    have hxy : x = y := (hsame x (by simp)).trans (hsame y (by simp)).symm
    exact absurd (hxy ▸ List.mem_cons_self) (List.nodup_cons.mp hn).1

/-- The join is the activities that the account takes part in. -/
theorem activitiesOf_eq (T : Tables H) (chainId : Nat) (owner : Address) : activitiesOf T chainId owner =
    T.activities.filter fun a => decide (a.chainId = chainId) && decide (joined T owner a ≠ []) := by
  have hone : ∀ a : ActivityRow H, ((joined T owner a).map fun _ => a) = if joined T owner a ≠ [] then [a] else [] := by
    intro a
    have hlen := joined_length T owner a
    match hj : joined T owner a with
    | [] => simp
    | [x] => simp
    | x :: y :: rest =>
      rw [hj] at hlen
      simp at hlen
  unfold activitiesOf
  simp only [hone]
  induction T.activities with
  | nil => rfl
  | cons a as ih =>
    rw [List.flatMap_cons, List.filter_append, ih, List.filter_cons]
    split_ifs <;> simp_all

theorem activity_nodup (T : Tables H) (chainId : Nat) (owner : Address) :
    ((activitiesOf T chainId owner).map activityKey).Nodup := by
  rw [activitiesOf_eq]
  refine List.Nodup.map_on ?_ ((List.Nodup.of_map _ T.activities_pkey).filter _)
  intro x hx y hy hxy
  obtain ⟨hx, hxc⟩ := List.mem_filter.mp hx
  obtain ⟨hy, hyc⟩ := List.mem_filter.mp hy
  rw [Bool.and_eq_true, decide_eq_true_eq] at hxc hyc
  simp only [activityKey, newestFirst, id_eq, WithBot.coe_inj, OrderDual.toDual_inj, toLex_inj, Prod.mk.injEq] at hxy
  obtain ⟨-, hhash, hlog⟩ := hxy
  refine List.inj_on_of_nodup_map T.activities_pkey hx hy ?_
  rw [hxc.1, hyc.1, hhash, hlog]

omit [LinearOrder K] in
theorem market_nodup (ht : Function.Injective text) (T : Tables H) (chainId : Nat) (status : Option MarketStatus)
    (who : Option Address) : ((marketsOf T chainId status who).map (marketKey text)).Nodup := by
  refine List.Nodup.map_on ?_ ((List.Nodup.of_map _ T.markets_pkey).filter _)
  intro x hx y hy hxy
  obtain ⟨hx, hxc⟩ := List.mem_filter.mp hx
  obtain ⟨hy, hyc⟩ := List.mem_filter.mp hy
  simp only [Bool.and_eq_true, decide_eq_true_eq] at hxc hyc
  simp only [marketKey, newestMarketFirst, WithBot.coe_inj, OrderDual.toDual_inj, toLex_inj, Prod.mk.injEq] at hxy
  obtain ⟨-, hmarket⟩ := hxy
  refine List.inj_on_of_nodup_map T.markets_pkey hx hy ?_
  rw [hxc.1.1, hyc.1.1, ht hmarket]

/-! ## Pages -/

/-- One row more than the page is read. -/
theorem take_succ_page {α C : Type} (l : List α) (limit : Nat) (enc : α → C) :
    (((l.take (limit + 1)).take limit,
      if limit < (l.take (limit + 1)).length then ((l.take (limit + 1)).take limit).getLast?.map enc else none) :
        List α × Option C) =
      (l.take limit, if limit < l.length then (l.take limit).getLast?.map enc else none) := by
  have htake : (l.take (limit + 1)).take limit = l.take limit := by
    rw [List.take_take, Nat.min_eq_left (Nat.le_succ limit)]
  have hlen : limit < (l.take (limit + 1)).length ↔ limit < l.length := by
    rw [List.length_take]
    omega
  rw [htake]
  simp only [hlen]

theorem listActivity_page (hl : 1 ≤ limit ∧ limit ≤ 100) (cursor : Option (ActivityCursor H))
    (hfits : ∀ c ∈ cursor, CursorFits c.block c.logIndex) :
    listActivity T chainId owner limit (activityText id (cursor.elim ⊥ (newestFirst id))) =
      .ok (Keyset.page activityKey limit (activitiesOf T chainId owner) (cursor.elim ⊥ (newestFirst id)),
        (Keyset.next activityKey limit (activitiesOf T chainId owner) (cursor.elim ⊥ (newestFirst id))).bind
        (activityText id)) := by
  have hcursor : (activityText id (cursor.elim ⊥ (newestFirst id))).mapM activityCursor = .ok cursor := by
    cases cursor with
    | none => rfl
    | some c =>
      simp only [Option.elim_some, activityText_key Function.injective_id, Option.mapM_some,
        activityCursor_encode (hfits c rfl)]
      rfl
  have hafter : ((activitiesOf T chainId owner).filter fun a => cursor.all fun c => cursorFilter c a).insertionSort
    OrderedDesc =
      Keyset.after activityKey (activitiesOf T chainId owner) (cursor.elim ⊥ (newestFirst id)) := by
    refine Keyset.after_eq activityKey_le (fun a => ?_) _
    cases cursor with
    | none => exact (decide_eq_true (WithBot.bot_lt_coe _)).symm
    | some c => exact decide_eq_decide.mpr (lt_activityKey c a).symm
  have hpage := Keyset.page_text activityKey (activityText id) (fun a => activityText_key Function.injective_id _) limit
    (activitiesOf T chainId owner) (cursor.elim ⊥ (newestFirst id))
  rw [listActivity, validateLimit_ok hl, hcursor, ← hpage, ← hafter]
  exact congrArg Except.ok (take_succ_page _ limit _)

theorem listMarketCatalog_page (ht : Function.Injective text) (hl : 1 ≤ limit ∧ limit ≤ 100)
    (cursor : Option MarketCursor)
    (hfits : ∀ c ∈ cursor, decimals c.block ≤ 126) :
    listMarketCatalog text T chainId status who limit (marketText text (cursor.elim ⊥ (newestMarketFirst text))) =
      .ok (Keyset.page (marketKey text) limit (marketsOf T chainId status who) (cursor.elim ⊥ (newestMarketFirst text)),
        (Keyset.next (marketKey text) limit (marketsOf T chainId status who)
          (cursor.elim ⊥ (newestMarketFirst text))).bind
          (marketText text)) := by
  have hcursor : (marketText text (cursor.elim ⊥ (newestMarketFirst text))).mapM marketCursor = .ok cursor := by
    cases cursor with
    | none => rfl
    | some c =>
      simp only [Option.elim_some, marketText_key ht, Option.mapM_some, marketCursor_encode (hfits c rfl)]
      rfl
  have hafter : ((marketsOf T chainId status who).filter fun m => cursor.all fun c =>
      decide (m.createdBlock < c.block ∨ m.createdBlock = c.block ∧ text m.market < text c.market)).insertionSort
        (MarketsDesc text) =
      Keyset.after (marketKey text) (marketsOf T chainId status who) (cursor.elim ⊥ (newestMarketFirst text)) := by
    refine Keyset.after_eq marketKey_le (fun m => ?_) _
    cases cursor with
    | none => exact (decide_eq_true (WithBot.bot_lt_coe _)).symm
    | some c => exact decide_eq_decide.mpr (lt_marketKey c m).symm
  have hpage := Keyset.page_text (marketKey text) (marketText text) (fun m => marketText_key ht _) limit
    (marketsOf T chainId status who) (cursor.elim ⊥ (newestMarketFirst text))
  rw [listMarketCatalog, validateLimit_ok hl, hcursor, ← hpage, ← hafter]
  exact congrArg Except.ok (take_succ_page _ limit _)

theorem lists_activity (T : Tables H) (hl : 1 ≤ limit ∧ limit ≤ 100)
    (hfits : ∀ a ∈ activitiesOf T chainId owner, CursorFits a.blockNumber a.logIndex) :
    Keyset.Lists (listActivity T chainId owner limit) limit (activitiesOf T chainId owner) OrderedDesc := by
  refine Keyset.lists activityKey (activityText id) ⊥ (activity_nodup T chainId owner) hl.1
    (fun a _ => WithBot.bot_lt_coe _) rfl
    (fun a _ => Option.isSome_iff_exists.mpr ⟨_, activityText_key Function.injective_id _⟩) ?_ fun a b hab =>
    (activityKey_le a b).mp hab.le
  rintro c (rfl | ⟨a, ha, rfl⟩)
  · exact listActivity_page hl none fun c hc => by cases hc
  · refine listActivity_page hl (some ⟨a.blockNumber, a.transactionHash, a.logIndex⟩) ?_
    rintro c ⟨⟩
    exact hfits a ha

theorem lists_markets (ht : Function.Injective text) (T : Tables H) (hl : 1 ≤ limit ∧ limit ≤ 100)
    (hfits : ∀ m ∈ marketsOf T chainId status who, decimals m.createdBlock ≤ 126) :
    Keyset.Lists (listMarketCatalog text T chainId status who limit) limit (marketsOf T chainId status who)
      (MarketsDesc text) := by
  refine Keyset.lists (marketKey text) (marketText text) ⊥ (market_nodup ht T chainId status who) hl.1
    (fun m _ => WithBot.bot_lt_coe _) rfl
    (fun m _ => Option.isSome_iff_exists.mpr ⟨_, marketText_key ht _⟩) ?_ fun a b hab => (marketKey_le a b).mp hab.le
  rintro c (rfl | ⟨m, hm, rfl⟩)
  · exact listMarketCatalog_page ht hl none fun c hc => by cases hc
  · refine listMarketCatalog_page ht hl (some ⟨m.createdBlock, m.market⟩) ?_
    rintro c ⟨⟩
    exact hfits m hm

end

end Postgres

/-! ## Both stores -/

/-- **Cursor pagination lists everything once.** In every state of either store a client that follows the cursors
from none on gets to an end: each page but the last is full, and together they are the items of the account, or
those that the filters let through, each once and newest first. The text of a cursor has to be short enough: the
block and the log index of an activity together have 81 digits at most and the log index is a safe integer, the
block of a market has 126 digits at most. The markets of the memory store are paged so in a locale that orders texts
by their characters, its activities in any locale. -/
theorem cursor_pages {P : Memory.Projections} {limit : Nat} (hP : Memory.Projections.Made P)
    (hl : 1 ≤ limit ∧ limit ≤ 100)
    (chainId : Nat) :
    (∀ (K : Type) [LinearOrder K] (locale : Collation K),
      (∀ owner, (∀ a ∈ P.activitiesOf chainId owner, CursorFits a.blockNumber a.logIndex) →
        Keyset.Lists (P.listActivity locale chainId owner limit) limit (P.activitiesOf chainId owner)
          fun a b => Memory.compareActivitiesDesc locale a b < 0) ∧
      (locale.ByCharacter → ∀ status owner, (∀ m ∈ P.marketsOf chainId status owner, decimals m.createdBlock ≤ 126) →
        Keyset.Lists (P.listMarketCatalog locale chainId status owner limit) limit (P.marketsOf chainId status owner)
          fun a b => Memory.compareMarketsDesc locale a b < 0)) ∧
    ∀ (H K : Type) [LinearOrder H] [LinearOrder K] (text : Address → K) (T : Postgres.Tables H),
      Function.Injective text →
      (∀ owner, (∀ a ∈ Postgres.activitiesOf T chainId owner, CursorFits a.blockNumber a.logIndex) →
        Keyset.Lists (Postgres.listActivity T chainId owner limit) limit (Postgres.activitiesOf T chainId owner)
          Postgres.OrderedDesc) ∧
      ∀ status owner, (∀ m ∈ Postgres.marketsOf T chainId status owner, decimals m.createdBlock ≤ 126) →
        Keyset.Lists (Postgres.listMarketCatalog text T chainId status owner limit) limit
          (Postgres.marketsOf T chainId status owner)
          (Postgres.MarketsDesc text) :=
  ⟨fun _ _ locale => ⟨fun _ hfits => hP.tagged.lists_activity locale hl hfits,
      fun hlocale _ _ hfits => hP.tagged.lists_markets hlocale hl hfits⟩,
    fun _ _ _ _ _ T ht => ⟨fun _ hfits => Postgres.lists_activity T hl hfits, fun _ _ hfits =>
      Postgres.lists_markets ht T hl hfits⟩⟩

/-! ## Two markets of one block -/

theorem decimals_le {n k : Nat} (hk : 0 < k) (h : n < 10 ^ k) : decimals n ≤ k :=
  max_le hk ((Nat.digits_length_le_iff (by decide) n).mpr h)

theorem decimals_pow (k : Nat) : decimals (10 ^ k) = k + 1 := by
  rw [decimals, Nat.length_digits 10 _ (by decide) (by positivity), Nat.log_pow (by decide)]
  omega

namespace Sample

open Memory

def creator : Address := addr 7

/-- The log of a creation. -/
def creation (blockNumber logIndex : Nat) : IndexedEvent :=
  ⟨1, blockNumber, 101, 900, 0, logIndex, addr 5, [], [], .confirmed⟩

/-- A store that has seen the creations of two markets in one block. -/
def created (blockNumber : Nat) (first second : Address) : Except ProjectionErr Projections := do
  let P ← Projections.applyMutation (creation blockNumber 1) .empty (.marketCreated first creator 0 100)
  Projections.applyMutation (creation blockNumber (10 ^ 3)) P (.marketCreated second creator 0 100)

section

variable {blockNumber : Nat} {first second : Address} {P : Projections}

theorem created_made (h : created blockNumber first second = .ok P) : P.Made := by
  obtain ⟨P', hP', h⟩ := bind_eq_ok.mp h
  exact .mutate _ _ (.mutate _ _ .empty hP') h

theorem created_ok (blockNumber : Nat) (first second : Address) : ∃ P, created blockNumber first second = .ok P :=
  ⟨_, rfl⟩

end

/-- A locale that orders by characters. -/
def english : Collation (List (Fin 16)) := ⟨id, Function.injective_id⟩

theorem english_byCharacter : english.ByCharacter := fun _ _ _ => Iff.rfl

/-- The sort key of a locale in which `aa` is one letter, behind all others. -/
def danishKey : List (Fin 16) → List Nat
  | 10 :: 10 :: rest => 38 :: danishKey rest
  | d :: rest => d.val :: danishKey rest
  | [] => []

theorem danishKey_cons {d : Fin 16} {rest : List (Fin 16)} (h : ∀ r, d = 10 → rest = 10 :: r → False) :
    danishKey (d :: rest) = d.val :: danishKey rest := danishKey.eq_2 d rest h

theorem danishKey_injective : Function.Injective danishKey := by
  intro s
  fun_induction danishKey s with
  | case1 rest ih =>
    intro t h
    fun_cases danishKey t with
    | case1 rest' => rw [ih (List.cons.inj h).2]
    | case2 d rest' hd =>
      rw [danishKey_cons hd] at h
      have hlt := d.isLt
      have heq := (List.cons.inj h).1
      omega
    | case3 => cases h
  | case2 d rest hd ih =>
    intro t h
    fun_cases danishKey t with
    | case1 rest' =>
      have hlt := d.isLt
      have heq := (List.cons.inj h).1
      omega
    | case2 d' rest' hd' =>
      rw [danishKey_cons hd'] at h
      obtain ⟨hdd, hr⟩ := List.cons.inj h
      rw [Fin.ext hdd, ih hr]
    | case3 => cases h
  | case3 =>
    intro t h
    fun_cases danishKey t with
    | case1 rest' => cases h
    | case2 d' rest' hd' =>
      rw [danishKey_cons hd'] at h
      cases h
    | case3 => rfl

def danish : Collation (List Nat) := ⟨danishKey, danishKey_injective⟩

/-- `0xaa00..` -/
def aa : Address := addr (0xaa * 16 ^ 38)

/-- `0xff00..` -/
def ff : Address := addr (0xff * 16 ^ 38)

/-- A row of the activities of the account. -/
def row (logIndex : Nat) : Postgres.ActivityRow Nat where
  chainId := 1
  transactionHash := 900
  logIndex := logIndex
  kind := .marketCreated
  vault := addr logIndex
  actor := some creator
  counterparty := none
  outcomeId := none
  listingId := none
  units := none
  amount := some 100
  blockNumber := 5
  confirmationStatus := .confirmed

def tables : Postgres.Tables Nat where
  activities := [row 1, row 1000]
  activities_pkey := by decide
  participants := [⟨1, 900, 1, creator⟩, ⟨1, 900, 1000, creator⟩, ⟨1, 900, 1000, addr 2⟩]
  participants_pkey := by decide
  markets := []
  markets_pkey := List.nodup_nil

end Sample

theorem cursor_pages_sample : ∃ P : Memory.Projections, P.Made ∧
    Keyset.Lists (P.listActivity Sample.english 1 Sample.creator 1) 1 (P.activitiesOf 1 Sample.creator)
      (fun a b => Memory.compareActivitiesDesc Sample.english a b < 0) ∧
    Keyset.Lists (P.listMarketCatalog Sample.english 1 (some .opened) (some Sample.creator) 1) 1
      (P.marketsOf 1 (some .opened) (some Sample.creator))
      (fun a b => Memory.compareMarketsDesc Sample.english a b < 0) ∧
    Keyset.Lists (Postgres.listActivity Sample.tables 1 Sample.creator 1) 1
      (Postgres.activitiesOf Sample.tables 1 Sample.creator)
      Postgres.OrderedDesc := by
  obtain ⟨P, hP⟩ := Sample.created_ok 5 (addr 1) (addr 2)
  have hmade := Sample.created_made hP
  obtain ⟨hmemory, hrows⟩ := cursor_pages hmade (by decide : 1 ≤ 1 ∧ 1 ≤ 100) 1
  obtain ⟨hactivity, hmarkets⟩ := hmemory _ Sample.english
  have h₅ : decimals 5 ≤ 1 := decimals_le (by decide) (by decide)
  refine ⟨P, hmade, hactivity _ fun a ha => ?_, hmarkets Sample.english_byCharacter _ _ fun m hm => ?_,
    (hrows Nat _ addressText Sample.tables addressText_injective).1 _ fun a ha => ?_⟩
  · have hfields : ∀ a ∈ P.activitiesOf 1 Sample.creator, a.blockNumber = 5 ∧ a.logIndex < 10 ^ 4 := by
      obtain rfl := Except.ok.inj hP
      decide +kernel
    obtain ⟨hb, hlog⟩ := hfields a ha
    have hdigits := decimals_le (by decide) hlog
    refine ⟨?_, by omega⟩
    rw [hb]
    omega
  · have hfields : ∀ m ∈ P.marketsOf 1 (some .opened) (some Sample.creator), m.createdBlock = 5 := by
      obtain rfl := Except.ok.inj hP
      decide +kernel
    rw [hfields m hm]
    omega
  · have hfields : ∀ a ∈ Postgres.activitiesOf Sample.tables 1 Sample.creator, a.blockNumber = 5 ∧
      a.logIndex < 10 ^ 4 := by
      decide +kernel
    obtain ⟨hb, hlog⟩ := hfields a ha
    have hdigits := decimals_le (by decide) hlog
    refine ⟨?_, by omega⟩
    rw [hb]
    omega

/-- A block number as long as the column for it cannot be paged over; and in a locale where `aa` stands behind `ff`
the market `0xff00..` is lost, which is behind `0xaa00..` in the list and before it by the characters. -/
theorem cursor_pages_fails :
    (∃ P : Memory.Projections, P.Made ∧
      ¬ Keyset.Lists (P.listActivity Sample.english 1 Sample.creator 1) 1 (P.activitiesOf 1 Sample.creator)
        fun a b => Memory.compareActivitiesDesc Sample.english a b < 0) ∧
    ∃ P : Memory.Projections, P.Made ∧
      ¬ Keyset.Lists (P.listMarketCatalog Sample.danish 1 none none 1) 1 (P.marketsOf 1 none none)
        fun a b => Memory.compareMarketsDesc Sample.danish a b < 0 := by
  constructor
  · obtain ⟨P, hP⟩ := Sample.created_ok (10 ^ 77) (addr 1) (addr 2)
    refine ⟨P, Sample.created_made hP, ?_⟩
    have hnext : (P.listActivity Sample.english 1 Sample.creator 1 none).map Prod.snd =
        .ok (some (encodeOpaqueCursor ActivityCursor.jsonLength ⟨10 ^ 77, 900, 10 ^ 3⟩)) := by
      obtain rfl := Except.ok.inj hP
      decide +kernel
    obtain ⟨⟨items, _⟩, hfirst, rfl⟩ := map_eq_ok.mp hnext
    have hsecond : P.listActivity Sample.english 1 Sample.creator 1
        (some (encodeOpaqueCursor ActivityCursor.jsonLength ⟨10 ^ 77, 900, 10 ^ 3⟩)) = .error .invalidCursor := by
      have hlength : 256 <
          (encodeOpaqueCursor ActivityCursor.jsonLength (⟨10 ^ 77, 900, 10 ^ 3⟩ : ActivityCursor Bytes32)).length := by
        simp only [encodeOpaqueCursor, base64urlLength, ActivityCursor.jsonLength, decimals_pow]
        decide
      have hread : activityCursor
          (encodeOpaqueCursor ActivityCursor.jsonLength (⟨10 ^ 77, 900, 10 ^ 3⟩ : ActivityCursor Bytes32)) =
          .error .invalidCursor := by
        unfold activityCursor decodeOpaqueCursor
        rw [revertIf_pos _ (.inr hlength)]
        rfl
      rw [Memory.Projections.listActivity, validateLimit_ok (by decide), Option.mapM_some, hread]
      rfl
    rintro ⟨ps, hw, -⟩
    cases hw with
    | last h =>
      rw [hfirst] at h
      cases h
    | more h hrest =>
      rw [hfirst] at h
      cases h
      cases hrest with
      | last h =>
        rw [hsecond] at h
        cases h
      | more h _ =>
        rw [hsecond] at h
        cases h
  · obtain ⟨P, hP⟩ := Sample.created_ok 5 Sample.aa Sample.ff
    refine ⟨P, Sample.created_made hP, ?_⟩
    have hpages : (P.listMarketCatalog Sample.danish 1 none none 1 none).map (Prod.map List.length id) =
          .ok (1, some (encodeOpaqueCursor MarketCursor.jsonLength ⟨5, Sample.aa⟩)) ∧
        P.listMarketCatalog Sample.danish 1 none none 1
          (some (encodeOpaqueCursor MarketCursor.jsonLength ⟨5, Sample.aa⟩)) =
          .ok ([], none) ∧ (P.marketsOf 1 none none).length = 2 := by
      obtain rfl := Except.ok.inj hP
      decide +kernel
    obtain ⟨hpage, hsecond, htwo⟩ := hpages
    obtain ⟨⟨items, _⟩, hfirst, hitems⟩ := map_eq_ok.mp hpage
    obtain ⟨hone, rfl⟩ := Prod.mk.inj hitems
    rintro ⟨ps, hw, -, hperm, -⟩
    rw [hw.unique (.more hfirst (.last hsecond))] at hperm
    have hlength := hperm.length_eq
    rw [htwo, List.flatten_cons, List.length_append, hone] at hlength
    cases hlength

end Cpredict.Indexer
