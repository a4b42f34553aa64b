import Cpredict.Indexer.Orderbook
import Cpredict.Book.History

/-!
# The table of order book events

However the events of the chain are delivered, in batches, in any order and more than once, the rows of a
marketplace in the table are those of the events that it has emitted (`table_perm`). So the queries of
`orderbookPage` are queries of the log.
-/

namespace Cpredict

namespace Indexer

/-- An event of the orderbook. -/
def bookEvent : Event → Option BookEvent
  | .book e => some e
  | _ => none

/-- What the orderbook has logged. -/
def bookLog (log : Cpredict.Log) : List BookEvent := log.filterMap fun x => bookEvent x.event

/-- The event as the node gives it: the orderbook's own decode to what it has emitted, and no other does. -/
structure Emits (D : Deployment) (decodeEventLog : IndexedEvent → Option BookEvent) (x : LogEntry) (e : IndexedEvent) :
    Prop where
  own : ∀ b, x.event = .book b → e.address = D.marketplace ∧ decodeEventLog e = some b
  other : (∀ b, x.event ≠ .book b) → e.address ≠ D.marketplace ∨ decodeEventLog e = none

def IndexedEvent.position (e : IndexedEvent) : Nat ×ₗ Nat ×ₗ Nat :=
  toLex (e.blockNumber, toLex (e.transactionIndex, e.logIndex))

def IndexedEvent.key (e : IndexedEvent) : Nat × Bytes32 × Nat := (e.chainId, e.transactionHash, e.logIndex)

/-- The events of a log in the blocks of a chain. -/
structure Mined (D : Deployment) (decodeEventLog : IndexedEvent → Option BookEvent) (chainId : Nat) (log : Cpredict.Log)
    (events : List IndexedEvent) : Prop where
  emits : List.Forall₂ (Emits D decodeEventLog) log events
  chain : ∀ e ∈ events, e.chainId = chainId
  ascending : events.Pairwise fun e e' => e.position < e'.position
  keys : (events.map IndexedEvent.key).Nodup

/-- The rows of a marketplace. -/
def ownRows (rows : List OrderbookRow) (chainId : Nat) (marketplace : Address) : List OrderbookRow :=
  rows.filter fun s => s.chainId = chainId && s.marketplace = marketplace

section

variable {D : Deployment} {decodeEventLog : IndexedEvent → Option BookEvent} {chainId : Nat} {log : Cpredict.Log}
  {events : List IndexedEvent} {rows rows₀ : List OrderbookRow} {r x : OrderbookRow} {e : IndexedEvent}

/-- The rows of the events, in the order of the log. -/
abbrev minedRows (D : Deployment) (decodeEventLog : IndexedEvent → Option BookEvent) (events : List IndexedEvent) :
    List OrderbookRow := events.filterMap (orderbookRow decodeEventLog D.marketplace)

theorem orderbookRow_some {marketplace : Address} (h : orderbookRow decodeEventLog marketplace e = some r) :
    r.chainId = e.chainId ∧ r.marketplace = marketplace ∧ r.key = e.key ∧ r.position = e.position := by
  unfold orderbookRow at h
  split at h
  · cases h
  · obtain ⟨b, -, rfl⟩ := Option.map_eq_some_iff.mp h
    exact ⟨rfl, rfl, rfl, rfl⟩

theorem orderbookRow_emits {y : LogEntry} (h : Emits D decodeEventLog y e) :
    (orderbookRow decodeEventLog D.marketplace e).map OrderbookRow.event = bookEvent y.event := by
  unfold orderbookRow
  cases hy : y.event with
  | book b =>
    obtain ⟨ha, hd⟩ := h.own b hy
    simp [ha, hd, bookEvent]
  | _ =>
    rcases h.other (by simp [hy]) with ha | hd
    · simp [ha, bookEvent]
    · simp [hd, bookEvent]

theorem Mined.log_eq (h : Mined D decodeEventLog chainId log events) :
    (minedRows D decodeEventLog events).map OrderbookRow.event = bookLog log := by
  have he := h.emits
  clear h
  induction he with
  | nil => rfl
  | cons hx _ ih =>
    have hrow := orderbookRow_emits hx
    unfold bookLog minedRows at *
    rw [List.filterMap_cons, List.filterMap_cons]
    cases hr : orderbookRow decodeEventLog D.marketplace _ with
    | none =>
      rw [hr] at hrow
      rw [← hrow]
      exact ih
    | some r =>
      rw [hr] at hrow
      rw [← hrow]
      simp only [Option.map_some, List.map_cons]
      rw [ih]

theorem Mined.ascending_rows (h : Mined D decodeEventLog chainId log events) :
    Keyset.Ascending OrderbookRow.position (minedRows D decodeEventLog events) := by
  apply List.pairwise_filterMap.mpr
  refine h.ascending.imp ?_
  intro e e' hlt r hr r' hr'
  rw [(orderbookRow_some hr).2.2.2, (orderbookRow_some hr').2.2.2]
  exact hlt

theorem Mined.nodup (h : Mined D decodeEventLog chainId log events) : (minedRows D decodeEventLog events).Nodup :=
  List.Nodup.of_map _ h.ascending_rows.nodup

/-- The row of an event is determined by its key. -/
theorem Mined.eq_of_key (h : Mined D decodeEventLog chainId log events) (hr : r ∈ minedRows D decodeEventLog events)
    (hx : x ∈ minedRows D decodeEventLog events) (hk : x.key = r.key) : x = r := by
  obtain ⟨e, he, her⟩ := List.mem_filterMap.mp hr
  obtain ⟨e', he', hex⟩ := List.mem_filterMap.mp hx
  have hkey : e'.key = e.key := by rw [← (orderbookRow_some her).2.2.1, ← (orderbookRow_some hex).2.2.1, hk]
  rw [List.inj_on_of_nodup_map h.keys he' he hkey, her] at hex
  exact (Option.some.inj hex).symm

theorem Mined.own (h : Mined D decodeEventLog chainId log events) (hr : r ∈ minedRows D decodeEventLog events) :
    r.chainId = chainId ∧ r.marketplace = D.marketplace := by
  obtain ⟨e, he, her⟩ := List.mem_filterMap.mp hr
  obtain ⟨hc, hm, -⟩ := orderbookRow_some her
  exact ⟨hc.trans (h.chain e he), hm⟩

/-! ## Deliveries -/

/-- A row of other chains or marketplaces. -/
def Foreign (D : Deployment) (decodeEventLog : IndexedEvent → Option BookEvent) (chainId : Nat)
    (events : List IndexedEvent) (x : OrderbookRow) : Prop :=
  ¬(x.chainId = chainId ∧ x.marketplace = D.marketplace) ∧ ∀ r ∈ minedRows D decodeEventLog events, x.key ≠ r.key

/-- A table of foreign rows and of rows of the events. -/
structure Table (D : Deployment) (decodeEventLog : IndexedEvent → Option BookEvent) (chainId : Nat)
    (events : List IndexedEvent) (rows : List OrderbookRow) : Prop where
  row : ∀ x ∈ rows, x ∈ minedRows D decodeEventLog events ∨ Foreign D decodeEventLog chainId events x
  nodup : (ownRows rows chainId D.marketplace).Nodup

theorem mem_ownRows : x ∈ ownRows rows chainId D.marketplace ↔ x ∈ rows ∧ x.chainId = chainId ∧
    x.marketplace = D.marketplace := by
  simp [ownRows]

theorem Table.insert (h : Mined D decodeEventLog chainId log events) (ht : Table D decodeEventLog chainId events rows)
    (hr : r ∈ minedRows D decodeEventLog events) :
    Table D decodeEventLog chainId events (insertRow rows r) ∧ ∀ y, y ∈ insertRow rows r ↔ y ∈ rows ∨ y = r := by
  unfold insertRow
  split
  · rename_i hc
    obtain ⟨z, hz, hk⟩ := hc
    have hzr : z = r := by
      rcases ht.row z hz with hm | hf
      · exact h.eq_of_key hr hm hk
      · exact absurd hk (hf.2 r hr)
    refine ⟨ht, fun y => ⟨.inl, ?_⟩⟩
    rintro (hy | rfl)
    · exact hy
    · exact hzr ▸ hz
  · rename_i hc
    refine ⟨⟨?_, ?_⟩, fun y => by simp⟩
    · intro y hy
      rcases List.mem_append.mp hy with hy | hy
      · exact ht.row y hy
      · exact .inl (List.mem_singleton.mp hy ▸ hr)
    · unfold ownRows
      rw [List.filter_append, List.nodup_append]
      refine ⟨ht.nodup, (List.nodup_singleton r).filter _, ?_⟩
      intro y hy z hz
      obtain rfl := List.mem_singleton.mp (List.mem_filter.mp hz).1
      rintro rfl
      exact hc ⟨y, (List.mem_filter.mp hy).1, rfl⟩

theorem Table.project (h : Mined D decodeEventLog chainId log events) (batch : List IndexedEvent)
    (hb : ∀ e ∈ batch, e ∈ events) (ht : Table D decodeEventLog chainId events rows) :
    Table D decodeEventLog chainId events (projectOrderbook decodeEventLog D.marketplace rows batch) ∧
      ∀ y, y ∈ projectOrderbook decodeEventLog D.marketplace rows batch ↔
        y ∈ rows ∨ y ∈ minedRows D decodeEventLog batch := by
  induction batch generalizing rows with
  | nil => exact ⟨ht, fun y => by simp [projectOrderbook]⟩
  | cons e rest ih =>
    have hrest : ∀ e ∈ rest, e ∈ events := fun e he => hb e (List.mem_cons_of_mem _ he)
    unfold projectOrderbook
    cases hr : orderbookRow decodeEventLog D.marketplace e with
    | none =>
      obtain ⟨ht', hmem⟩ := ih hrest ht
      refine ⟨ht', fun y => ?_⟩
      rw [hmem, minedRows, minedRows, List.filterMap_cons, hr]
    | some r =>
      have hrm : r ∈ minedRows D decodeEventLog events :=
        List.mem_filterMap.mpr ⟨e, hb e List.mem_cons_self, hr⟩
      obtain ⟨ht₁, hmem₁⟩ := ht.insert h hrm
      obtain ⟨ht', hmem⟩ := ih hrest ht₁
      refine ⟨ht', fun y => ?_⟩
      rw [hmem, hmem₁, minedRows, minedRows, List.filterMap_cons, hr]
      simp only [List.mem_cons, or_assoc]

/-- The rows of the marketplace are those of the events, whatever the batches. -/
theorem table_perm (h : Mined D decodeEventLog chainId log events)
    (hf : ∀ x ∈ rows₀, Foreign D decodeEventLog chainId events x) {batches : List (List IndexedEvent)}
    (hb : ∀ e, (∃ b ∈ batches, e ∈ b) ↔ e ∈ events) :
    (ownRows (batches.foldl (projectOrderbook decodeEventLog D.marketplace) rows₀) chainId D.marketplace).Perm
      (minedRows D decodeEventLog events) := by
  have hfold : ∀ (batches : List (List IndexedEvent)) (rows : List OrderbookRow),
      (∀ b ∈ batches, ∀ e ∈ b, e ∈ events) → Table D decodeEventLog chainId events rows →
      Table D decodeEventLog chainId events (batches.foldl (projectOrderbook decodeEventLog D.marketplace) rows) ∧
        ∀ y, y ∈ batches.foldl (projectOrderbook decodeEventLog D.marketplace) rows ↔
          y ∈ rows ∨ ∃ b ∈ batches, y ∈ minedRows D decodeEventLog b := by
    intro batches
    induction batches with
    | nil => exact fun rows _ ht => ⟨ht, fun y => by simp⟩
    | cons b rest ih =>
      intro rows hsub ht
      obtain ⟨ht₁, hmem₁⟩ := ht.project h b (hsub b List.mem_cons_self)
      obtain ⟨ht', hmem⟩ := ih _ (fun b' hb' => hsub b' (List.mem_cons_of_mem _ hb')) ht₁
      refine ⟨ht', fun y => ?_⟩
      rw [List.foldl_cons, hmem, hmem₁]
      simp only [List.mem_cons, exists_eq_or_imp, or_assoc]
  have h₀ : Table D decodeEventLog chainId events rows₀ := by
    refine ⟨fun x hx => .inr (hf x hx), ?_⟩
    have hnil : ownRows rows₀ chainId D.marketplace = [] := by
      apply List.filter_eq_nil_iff.mpr
      intro x hx
      simpa using (hf x hx).1
    rw [hnil]
    exact List.nodup_nil
  obtain ⟨ht, hmem⟩ := hfold batches rows₀ (fun b hbm e he => (hb e).mp ⟨b, hbm, he⟩) h₀
  apply (List.perm_ext_iff_of_nodup ht.nodup h.nodup).mpr
  intro y
  rw [mem_ownRows, hmem]
  constructor
  · rintro ⟨hy | ⟨b, hbm, hy⟩, hown⟩
    · exact absurd hown (hf y hy).1
    · obtain ⟨e, he, her⟩ := List.mem_filterMap.mp hy
      exact List.mem_filterMap.mpr ⟨e, (hb e).mp ⟨b, hbm, he⟩, her⟩
  · intro hy
    refine ⟨.inr ?_, h.own hy⟩
    obtain ⟨e, he, her⟩ := List.mem_filterMap.mp hy
    obtain ⟨b, hbm, heb⟩ := (hb e).mpr he
    exact ⟨b, hbm, List.mem_filterMap.mpr ⟨e, heb, her⟩⟩

end

end Indexer

end Cpredict
