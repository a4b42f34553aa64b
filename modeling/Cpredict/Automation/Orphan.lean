import Cpredict.Lib.Reach
import Cpredict.Automation.Invariant

/-!
# Transactions that a reorganisation removes

The journal beside the chains of its signers. The audit marks a confirmed transaction that has left the chain as
orphaned, but its row keeps the nonce, which the chain then asks for again.
-/

namespace Cpredict.Automation

open Outcome

variable {nonceOf : Bytes32 → Nat} {keccak256 : Bytes → Bytes32} {st : Store}

/-! ## Signers -/

/-- The transactions of a signer on the chain, by their nonces. A hash determines the nonce of its transaction. -/
structure SignerChain (nonceOf : Bytes32 → Nat) where
  hashes : List Bytes32
  ordered : hashes.map nonceOf = List.range hashes.length

def SignerChain.nextNonce (c : SignerChain nonceOf) : Nat := c.hashes.length

theorem SignerChain.lt_nextNonce {c : SignerChain nonceOf} {hash : Bytes32} (h : hash ∈ c.hashes) :
    nonceOf hash < c.nextNonce := by
  have hm : nonceOf hash ∈ c.hashes.map nonceOf := List.mem_map_of_mem h
  rw [c.ordered] at hm
  exact List.mem_range.mp hm

structure Signers (nonceOf : Bytes32 → Nat) where
  journal : Journal
  chains : Nat → Address → SignerChain nonceOf
  /-- The transactions whose receipts have been taken for canonical and final. -/
  final : List (Nat × Address × Bytes32)

namespace Signers

variable {s t : Signers nonceOf}

/-- The nonce of the next transaction of the signer. -/
def nextNonce (s : Signers nonceOf) (st : Store) : Nat := (s.chains st.chainId st.signer).nextNonce

def Init (s : Signers nonceOf) : Prop := s.journal = ⟨[], []⟩ ∧ s.final = []

/-- A transaction has the nonce that it was signed with, and is finished by a final receipt. -/
def Possible (s : Signers nonceOf) : Await → Prop
  | .save _ tx => nonceOf tx.hash = tx.nonce
  | .saveRecovery _ p => nonceOf p.hash = p.nonce
  | .finish id _ hash => ∃ x ∈ s.journal.rows, x.id = id ∧ (x.chainId, x.signer, hash) ∈ s.final
  | _ => True

inductive Step (keccak256 : Bytes → Bytes32) : Signers nonceOf → Signers nonceOf → Prop
  | store {s : Signers nonceOf} {st : Store} {c : Await} {r : Except WorkerErr (Reply c)} {j : Journal}
      (h : JournalEffect st keccak256 ⟨s.journal, []⟩ ⟨j, []⟩ c r) (hp : s.Possible c) :
      Step keccak256 s { s with journal := j }
  /-- New blocks, or a reorganisation. -/
  | chain {s : Signers nonceOf} (chains : Nat → Address → SignerChain nonceOf) :
      Step keccak256 s { s with chains := chains }
  | accept {s : Signers nonceOf} {chainId : Nat} {signer : Address} {hash : Bytes32}
      (h : hash ∈ (s.chains chainId signer).hashes) :
      Step keccak256 s { s with final := (chainId, signer, hash) :: s.final }

/-- The step removes no transaction whose receipt has been taken for final. -/
def Keeps (s t : Signers nonceOf) : Prop :=
  ∀ chainId signer hash, (chainId, signer, hash) ∈ s.final → hash ∈ (t.chains chainId signer).hashes

abbrev Reachable (keccak256 : Bytes → Bytes32) : Signers nonceOf → Prop := Reach.Reachable Init (Step keccak256)

/-- Reachable by steps that keep what was final. -/
abbrev KeptReachable (keccak256 : Bytes → Bytes32) : Signers nonceOf → Prop :=
  Reach.Reachable Init fun s t => Step keccak256 s t ∧ s.Keeps t

/-! ## The invariant -/

/-- Confirmed or reverted. -/
def finished (x : Row) : Prop := x.state = .confirmed ∨ x.state = .reverted

structure Books (s : Signers nonceOf) : Prop where
  ids : (s.journal.rows.map Row.id).Nodup
  hashes : ∀ x ∈ s.journal.rows, ∀ n, x.nonce = some n → nonceOf x.txHash = n
  recoveries : ∀ r ∈ s.journal.recoveries, ∃ x ∈ s.journal.rows, x.id = r.transactionId ∧
    ∀ n, x.nonce = some n → nonceOf r.originalHash = n ∧ nonceOf r.replacement.hash = n
  cancelled : ∀ x ∈ s.journal.rows, x.state = .cancelled → x.nonce = none
  final : ∀ x ∈ s.journal.rows, finished x → (x.chainId, x.signer, x.txHash) ∈ s.final

theorem Books.of_init (h : s.Init) : s.Books := by
  obtain ⟨hj, -⟩ := h
  refine ⟨?_, ?_, ?_, ?_, ?_⟩
  all_goals simp [hj]

section

variable {j : Journal} {c : Await} {x y : Row}

/-- The hashes registered for a row carry its nonce. -/
theorem Books.registered (h : s.Books) (hx : x ∈ s.journal.rows) {n : Nat} (hn : x.nonce = some n) {hash : Bytes32}
    (hr : hash = x.txHash ∨ hash ∈ s.journal.replacedHashes x.id) : nonceOf hash = n := by
  rcases hr with rfl | hr
  · exact h.hashes x hx n hn
  · obtain ⟨r, hmem, rfl⟩ := List.mem_map.mp hr
    obtain ⟨hmem, hi⟩ := List.mem_filter.mp hmem
    simp only [Bool.and_eq_true, decide_eq_true_eq] at hi
    obtain ⟨x', hx', hid, hn'⟩ := h.recoveries r hmem
    rw [eq_of_id h.ids hx' hx (hid.trans hi.1)] at hn'
    exact (hn' n hn).1

theorem Books.changed (h : s.Books) (hx : x ∈ s.journal.rows) (hxy : RowChange s.journal c x y) {n : Nat}
    (hn : y.nonce = some n) : nonceOf y.txHash = n := by
  have hxn : x.nonce = some n := (hxy.nonce (hn ▸ Option.some_ne_none n)).symm.trans hn
  cases hxy with
  | same _ _ _ hh => exact hh ▸ h.hashes x hx n hxn
  | mark _ _ _ _ hh => exact hh ▸ h.hashes x hx n hxn
  | cancel _ _ _ hnone =>
    rw [hnone] at hn
    cases hn
  | unknown _ _ _ _ hh => exact hh ▸ h.hashes x hx n hxn
  | finish _ hr _ _ hh => exact hh ▸ h.registered hx hxn hr
  | replace _ _ _ _ hh _ hr =>
    obtain ⟨r₀, hr₀, htx, hrep⟩ := hr
    obtain ⟨x', hx', hid, hn'⟩ := h.recoveries r₀ hr₀
    rw [eq_of_id h.ids hx' hx (hid.trans htx)] at hn'
    rw [hh, ← hrep]
    exact (hn' n hxn).2

theorem Books.changed_final (h : s.Books) (hp : s.Possible c) (hx : x ∈ s.journal.rows)
    (hxy : RowChange s.journal c x y)
    (hy : finished y) : (y.chainId, y.signer, y.txHash) ∈ s.final := by
  have howned := hxy.owned
  rw [howned.chainId, howned.signer]
  unfold finished at hy
  cases hxy with
  | same _ hs _ hh =>
    rw [hs] at hy
    rw [hh]
    exact h.final x hx hy
  | mark _ _ hs _ _ => simp [hs] at hy
  | cancel _ _ hs _ => simp [hs] at hy
  | unknown _ _ hs _ _ => simp [hs] at hy
  | finish _ _ _ _ hh =>
    obtain ⟨x', hx', hid, hf⟩ := hp
    rw [eq_of_id h.ids hx' hx hid] at hf
    rwa [hh]
  | replace _ _ hs _ _ _ => simp [hs] at hy

theorem Books.changed_cancelled (h : s.Books) (hx : x ∈ s.journal.rows) (hxy : RowChange s.journal c x y)
    (hy : y.state = .cancelled) : y.nonce = none := by
  cases hxy with
  | same _ hs hn _ => rw [hn, h.cancelled x hx (hs ▸ hy)]
  | mark _ _ hs _ _ => simp [hs] at hy
  | cancel _ _ _ hn => exact hn
  | unknown _ _ hs _ _ => simp [hs] at hy
  | finish _ _ hs _ _ =>
    rw [hs] at hy
    split at hy <;> cases hy
  | replace _ _ hs _ _ _ => simp [hs] at hy

/-- A row after a store's step is new or comes from one before it. -/
theorem rows_cases {a : Except WorkerErr (Reply c)} (hd : (s.journal.rows.map Row.id).Nodup)
    (h : JournalEffect st keccak256 ⟨s.journal, []⟩ ⟨j, []⟩ c a) (hy : y ∈ j.rows) :
    (∃ x ∈ s.journal.rows, RowChange s.journal c x y) ∨ ∃ b tx, c = .save b tx ∧ Saved st s.journal b tx y := by
  rcases h.change hd with ⟨b, tx, new, rfl, hrows, hs⟩ | ⟨g, hg, hrow⟩
  · have hy' : y ∈ s.journal.rows ++ [new] := hrows ▸ hy
    rcases List.mem_append.mp hy' with hy | hy
    · exact .inl ⟨y, hy, .refl y⟩
    · obtain rfl := List.mem_singleton.mp hy
      exact .inr ⟨b, tx, rfl, hs⟩
  · have hy' : y ∈ s.journal.rows.map g := hg ▸ hy
    obtain ⟨x, hx, rfl⟩ := List.mem_map.mp hy'
    exact .inl ⟨x, hx, hrow x hx⟩

theorem rows_kept {a : Except WorkerErr (Reply c)} (hd : (s.journal.rows.map Row.id).Nodup)
    (h : JournalEffect st keccak256 ⟨s.journal, []⟩ ⟨j, []⟩ c a) (hx : x ∈ s.journal.rows) :
    ∃ y ∈ j.rows, RowChange s.journal c x y := by
  rcases h.change hd with ⟨b, tx, new, rfl, hrows, -⟩ | ⟨g, hg, hrow⟩
  · refine ⟨x, ?_, .refl x⟩
    rw [show j.rows = s.journal.rows ++ [new] from hrows]
    exact List.mem_append_left _ hx
  · refine ⟨g x, ?_, hrow x hx⟩
    rw [show j.rows = s.journal.rows.map g from hg]
    exact List.mem_map_of_mem hx

theorem ids_nodup {a : Except WorkerErr (Reply c)} (hd : (s.journal.rows.map Row.id).Nodup)
    (h : JournalEffect st keccak256 ⟨s.journal, []⟩ ⟨j, []⟩ c a) : (j.rows.map Row.id).Nodup := by
  rcases h.change hd with ⟨b, tx, new, -, hrows, hs⟩ | hin
  · have hrows' : j.rows = s.journal.rows ++ [new] := hrows
    rw [hrows', List.map_append, List.nodup_append]
    refine ⟨hd, List.nodup_singleton _, ?_⟩
    intro i hi k hk
    obtain ⟨x, hx, rfl⟩ := List.mem_map.mp hi
    rw [List.mem_singleton.mp hk]
    exact hs.fresh x hx
  · have hin' : InPlace s.journal c j.rows := hin
    rwa [hin'.ids]

/-- A step of a store keeps the books. -/
theorem Books.store {a : Except WorkerErr (Reply c)} (h : s.Books) (hp : s.Possible c)
    (he : JournalEffect st keccak256 ⟨s.journal, []⟩ ⟨j, []⟩ c a) : Books { s with journal := j } where
  ids := ids_nodup h.ids he
  hashes := by
    intro y hy n hn
    rcases rows_cases h.ids he hy with ⟨x, hx, hxy⟩ | ⟨b, tx, rfl, hs⟩
    · exact h.changed hx hxy hn
    · rw [hs.nonce] at hn
      rw [hs.hash, ← Option.some.inj hn]
      exact hp
  recoveries := by
    intro r hr
    rcases he.recoveries hr with ⟨r₀, hr₀, hsame⟩ | ⟨⟨tx, rfl⟩, hrows, x, hx, hof⟩
    · obtain ⟨x, hx, hid, hn⟩ := h.recoveries r₀ hr₀
      obtain ⟨y, hy, hxy⟩ := rows_kept h.ids he hx
      refine ⟨y, hy, hxy.owned.id.trans (hid.trans hsame.transactionId), ?_⟩
      intro n hyn
      rw [← hsame.originalHash, ← hsame.replacement]
      exact hn n ((hxy.nonce (hyn ▸ Option.some_ne_none n)).symm.trans hyn)
    · have hx' : x ∈ s.journal.rows := (mem_lane.mp hx).1
      refine ⟨x, hrows ▸ hx', hof.id, ?_⟩
      intro n hn
      have hn' : r.replacement.nonce = n := Option.some.inj (hof.nonce.symm.trans hn)
      exact ⟨hof.hash ▸ h.hashes x hx' n hn, hn' ▸ hp⟩
  cancelled := by
    intro y hy hc
    rcases rows_cases h.ids he hy with ⟨x, hx, hxy⟩ | ⟨b, tx, rfl, hs⟩
    · exact h.changed_cancelled hx hxy hc
    · rw [hs.state] at hc
      cases hc
  final := by
    intro y hy hf
    rcases rows_cases h.ids he hy with ⟨x, hx, hxy⟩ | ⟨b, tx, rfl, hs⟩
    · exact h.changed_final hp hx hxy hf
    · rw [finished, hs.state] at hf
      rcases hf with hf | hf <;> cases hf

end

theorem Books.step (h : s.Books) (hs : Step keccak256 s t) : t.Books := by
  cases hs with
  | store he hp => exact h.store hp he
  | chain chains => exact ⟨h.ids, h.hashes, h.recoveries, h.cancelled, h.final⟩
  | accept _ =>
    refine ⟨h.ids, h.hashes, h.recoveries, h.cancelled, ?_⟩
    intro x hx hf
    exact List.mem_cons_of_mem _ (h.final x hx hf)

theorem Reachable.books (h : Reachable keccak256 s) : s.Books := by
  apply Reach.Reachable.invariant _ _ h
  · intro s h₀
    exact .of_init h₀
  · intro s t _ hb hs
    exact hb.step hs

theorem KeptReachable.reachable (h : KeptReachable keccak256 s) : Reachable keccak256 s := by
  apply Reach.Reachable.invariant _ _ h
  · intro s h₀
    exact .start h₀
  · intro s t _ hr hs
    exact hr.next hs.1

/-- Along steps that keep what was final, it is on the chain. -/
theorem KeptReachable.final (h : KeptReachable keccak256 s) {chainId : Nat} {signer : Address} {hash : Bytes32}
    (hf : (chainId, signer, hash) ∈ s.final) : hash ∈ (s.chains chainId signer).hashes := by
  suffices h' : ∀ chainId signer hash, (chainId, signer, hash) ∈ s.final → hash ∈ (s.chains chainId signer).hashes from
    h' _ _ _ hf
  apply Reach.Reachable.invariant _ _ h
  · rintro s ⟨-, h₀⟩ chainId signer hash hf
    rw [h₀] at hf
    cases hf
  · rintro s t - - ⟨hstep, hk⟩ chainId signer hash hf
    cases hstep with
    | store he hp => exact hk _ _ _ hf
    | chain chains => exact hk _ _ _ hf
    | accept ha =>
      rcases List.mem_cons.mp hf with he | hf
      · obtain ⟨rfl, rfl, rfl⟩ : chainId = _ ∧ signer = _ ∧ hash = _ := by simpa using he
        exact ha
      · exact hk _ _ _ hf

/-! ## Saving the next transaction -/

/-- No other signer of the deployment has an active transaction for the job. -/
def jobFree (s : Signers nonceOf) (st : Store) (a : Action) : Prop :=
  ∀ x ∈ s.journal.rows, x.active = true → x.chainId = st.chainId → x.deploymentId = st.deploymentId →
    st.owns x = false → x.action.key ≠ a.key

/-- The row of a transaction that is finished in the journal and is not on the chain. -/
def displaced (s : Signers nonceOf) (x : Row) : Prop := finished x ∧ x.txHash ∉ (s.chains x.chainId x.signer).hashes

/-- A save with the next nonce and an id of its own meets no uniqueness constraint. -/
def Admits (s : Signers nonceOf) (st : Store) : Prop :=
  ∀ now a tx id candidate constraint, tx.nonce = s.nextNonce st → (∀ x ∈ s.journal.rows, x.id ≠ id) → s.jobFree st a →
    st.save s.journal now a tx id candidate ≠ .error (.uniqueViolation constraint)

theorem insert_iff {j : Journal} {r : Row} : (∃ j', j.insert r = .ok j') ↔ (∀ x ∈ j.rows, x.id ≠ r.id) ∧
    (∀ x ∈ j.rows, x.chainId = r.chainId → x.signer = r.signer → x.nonce = r.nonce → r.nonce = none) ∧
    (r.active = true → ∀ x ∈ j.rows, x.active = true → x.chainId = r.chainId → x.deploymentId = r.deploymentId →
      x.action.key ≠ r.action.key) := by
  simp [Journal.insert, bind_eq_ok, revertIf_eq_ok]

theorem preparedRow_key (now : Nat) (a : Action) (tx : Prepared) (id : Nat) :
    (st.preparedRow now a tx id).action.key = a.key := by
  unfold Store.preparedRow
  split <;> rfl

/-- What stands in the way of a row for a transaction: its nonce, or the job. -/
theorem insert_prepared_iff {now id : Nat} {a : Action} {tx : Prepared} (hidle : st.activeCount s.journal = 0)
    (hfresh : ∀ x ∈ s.journal.rows, x.id ≠ id) :
    (∃ j, s.journal.insert (st.preparedRow now a tx id) = .ok j) ↔
      s.jobFree st a ∧ ∀ x ∈ st.lane s.journal, x.nonce ≠ some tx.nonce := by
  have hlane : ∀ x ∈ s.journal.rows, st.owns x = true → x.active = false := by
    intro x hx ho
    have h₀ : (st.lane s.journal).countP Row.active = 0 := by rw [← activeCount_eq, hidle]
    simpa using List.countP_eq_zero.mp h₀ x (mem_lane.mpr ⟨hx, ho⟩)
  rw [insert_iff, preparedRow_key]
  constructor
  · rintro ⟨-, hn, hj⟩
    constructor
    · intro x hx ha hc hd _
      exact hj rfl x hx ha hc hd
    · intro x hx hxn
      obtain ⟨hx, ho⟩ := mem_lane.mp hx
      simp only [Store.owns, Bool.and_eq_true, decide_eq_true_eq] at ho
      exact absurd (hn x hx ho.1 ho.2 hxn) (Option.some_ne_none tx.nonce)
  · rintro ⟨hj, hn⟩
    refine ⟨hfresh, ?_, ?_⟩
    · intro x hx hc hs hxn
      refine absurd hxn (hn x (mem_lane.mpr ⟨hx, ?_⟩))
      simp only [Store.owns, Bool.and_eq_true, decide_eq_true_eq]
      exact ⟨hc, hs⟩
    · intro _ x hx ha hc hd
      apply hj x hx ha hc hd
      by_contra ho
      rw [hlane x hx (by simpa using ho)] at ha
      cases ha

theorem admitCleanup_ends (j : Journal) (now : Nat) (a : Action) :
    Ends (st.admitCleanup j now a) (fun _ => True) fun e => ∀ constraint, e ≠ .uniqueViolation constraint := by
  unfold Store.admitCleanup
  split
  · apply Ends.revertIf
    · intro _ constraint
      exact WorkerErr.noConfusion
    · intro _
      split
      · intro constraint
        exact WorkerErr.noConfusion
      · trivial
  · trivial

/-- In a lane without an active row, a row that holds the next nonce is displaced. -/
theorem Books.displaced (h : s.Books) (hidle : st.activeCount s.journal = 0) {x : Row} (hx : x ∈ st.lane s.journal)
    (hn : x.nonce = some (s.nextNonce st)) : s.displaced x := by
  obtain ⟨hxr, ho⟩ := mem_lane.mp hx
  have h₀ : (st.lane s.journal).countP Row.active = 0 := by rw [← activeCount_eq, hidle]
  have hna : x.active ≠ true := List.countP_eq_zero.mp h₀ x hx
  constructor
  · cases hs : x.state with
    | cancelled =>
      rw [h.cancelled x hxr hs] at hn
      cases hn
    | confirmed => exact .inl hs
    | reverted => exact .inr hs
    | _ =>
      rw [Row.active, hs] at hna
      exact absurd rfl hna
  · simp only [Store.owns, Bool.and_eq_true, decide_eq_true_eq] at ho
    rw [ho.1, ho.2]
    intro hc
    have hlt := SignerChain.lt_nextNonce hc
    rw [h.hashes x hxr _ hn] at hlt
    exact absurd hlt (lt_irrefl _)

/-- Without an active row, a save with the nonce that the chain asks for meets no uniqueness constraint if no step has
removed a final transaction; in any run it succeeds exactly when the nonce is not that of a displaced row. -/
theorem next_nonce_admitted (hidle : st.activeCount s.journal = 0) :
    (KeptReachable keccak256 s → s.Admits st) ∧
      (Reachable keccak256 s → ∀ now a tx id, tx.nonce = s.nextNonce st → (∀ x ∈ s.journal.rows, x.id ≠ id) →
        st.admitCleanup s.journal now a = .ok () →
        ((∃ res, st.save s.journal now a tx id true = .ok res) ↔
          s.jobFree st a ∧ ∀ x ∈ st.lane s.journal, s.displaced x → x.nonce ≠ some (s.nextNonce st))) := by
  constructor
  · intro hk now a tx id candidate constraint hnonce hfresh hjob
    have hb := hk.reachable.books
    have hins : ∃ j, s.journal.insert (st.preparedRow now a tx id) = .ok j := by
      apply (insert_prepared_iff hidle hfresh).mpr ⟨hjob, ?_⟩
      intro x hx hn
      rw [hnonce] at hn
      obtain ⟨hf, hoff⟩ := hb.displaced hidle hx hn
      exact hoff (hk.final (hb.final x (mem_lane.mp hx).1 hf))
    obtain ⟨j, hj⟩ := hins
    have hends : Ends (st.save s.journal now a tx id candidate) (fun _ => True)
        fun e => ∀ constraint, e ≠ .uniqueViolation constraint := by
      unfold Store.save
      apply Ends.revertIf
      · intro _ constraint
        exact WorkerErr.noConfusion
      · intro _
        apply Ends.bind (admitCleanup_ends _ now a)
        intro _ _ _
        rw [hj]
        trivial
    intro he
    exact hends.of_error he constraint rfl
  · intro hr now a tx id hnonce hfresh hadmit
    have hb := hr.books
    have hsave : (∃ res, st.save s.journal now a tx id true = .ok res) ↔
        ∃ j, s.journal.insert (st.preparedRow now a tx id) = .ok j := by
      simp only [Store.save, bind_eq_ok, revertIf_eq_ok, hadmit]
      constructor
      · rintro ⟨res, _, -, _, -, j, hj, -⟩
        exact ⟨j, hj⟩
      · rintro ⟨j, hj⟩
        exact ⟨_, (), by simp, (), trivial, j, hj, rfl⟩
    rw [hsave, insert_prepared_iff hidle hfresh, hnonce]
    apply and_congr_right
    intro _
    constructor
    · intro h x hx _
      exact h x hx
    · intro h x hx hn
      exact h x hx (hb.displaced hidle hx hn) hn

end Signers

/-! ## A payout that a reorganisation removes -/

namespace Orphan

def store : Store := ⟨1, "deployment", addr 7⟩

def payout : Action := ⟨"winner:1", addr 1, "winner", addr 2, [], false, none, none⟩

def first : Prepared := ⟨[1], 5, 0, 10⟩

/-- The transaction that is signed after the reorganisation. -/
def second : Prepared := ⟨[2], 6, 0, 10⟩

def receipt : TxReceipt := ⟨true, 10, 99⟩

def record : Record := ⟨1, payout, first, .prepared⟩

def saved : Journal := ⟨[store.preparedRow 0 payout first 1], []⟩

def marked : Journal := (saved.markBroadcasting 0 1).1

def confirmed : Journal := { marked with rows := marked.rows.map (Journal.finished 0 receipt 5) }

/-- The index after the reorganisation: another block has the number of the receipt. -/
def index : ChainIndex := ⟨some 20, fun _ => some 98, fun _ => none⟩

def audited : Journal :=
  { confirmed with
    rows := confirmed.rows.map fun x => { x with canonicalStatus := .orphaned, canonicalCheckedAt := some 300001 } }

abbrev Chains : Type := Nat → Address → SignerChain fun _ => 0

def empty : Chains := fun _ _ => ⟨[], rfl⟩

def included : Chains := fun _ _ => ⟨[5], rfl⟩

def kept : Signers fun _ => 0 := ⟨confirmed, included, [(1, addr 7, 5)]⟩

def orphaned : Signers fun _ => 0 := ⟨audited, empty, [(1, addr 7, 5)]⟩

theorem kept_reachable : Signers.KeptReachable (fun _ => 0) kept := by
  have h₀ : Signers.KeptReachable (fun _ => 0) (⟨⟨[], []⟩, empty, []⟩ : Signers fun _ => 0) := .start ⟨rfl, rfl⟩
  have hsave : JournalEffect store (fun _ => 0) ⟨⟨[], []⟩, []⟩ ⟨saved, []⟩ (.save payout first) (.ok record) :=
    ⟨0, 1, true, .inl ⟨record, rfl, .inl rfl⟩⟩
  have hmark : JournalEffect store (fun _ => 0) ⟨saved, []⟩ ⟨marked, []⟩ (.markBroadcasting 1) (.ok true) :=
    ⟨0, .inl ⟨true, rfl, .inl rfl⟩⟩
  have hfinish : JournalEffect store (fun _ => 0) ⟨marked, []⟩ ⟨confirmed, []⟩ (.finish 1 receipt 5) (.ok ()) :=
    ⟨0, .inl ⟨(), rfl, .inl rfl⟩⟩
  have hnone : ∀ s t : Signers fun _ => 0, s.final = [] → s.Keeps t := by
    intro s t hs chainId signer hash hf
    rw [hs] at hf
    cases hf
  have h₁ := h₀.next ⟨.store hsave rfl, hnone _ _ rfl⟩
  have h₂ := h₁.next ⟨.store hmark trivial, hnone _ _ rfl⟩
  have h₃ := h₂.next ⟨.chain included, hnone _ _ rfl⟩
  have haccept : Signers.Step (fun _ => 0) (⟨marked, included, []⟩ : Signers fun _ => 0)
      ⟨marked, included, [(1, addr 7, 5)]⟩ := .accept (List.mem_singleton_self _)
  have h₄ := h₃.next ⟨haccept, hnone _ _ rfl⟩
  refine h₄.next ⟨.store hfinish ?_, ?_⟩
  · exact ⟨_, List.mem_singleton_self _, rfl, List.mem_singleton_self _⟩
  · intro chainId signer hash hf
    cases List.mem_singleton.mp hf
    exact List.mem_singleton_self _

theorem orphaned_reachable : Signers.Reachable (fun _ => 0) orphaned := by
  have haudit : JournalEffect store (fun _ => 0) ⟨confirmed, []⟩ ⟨audited, []⟩ .auditCanonical (.ok [payout]) :=
    ⟨index, 300001, .inl ⟨[payout], rfl, .inl rfl⟩⟩
  have h₁ : Signers.Reachable (fun _ => 0) ⟨confirmed, empty, [(1, addr 7, 5)]⟩ :=
    kept_reachable.reachable.next (.chain empty)
  exact h₁.next (.store haudit trivial)

end Orphan

theorem next_nonce_admitted_kept : Orphan.kept.Admits Orphan.store ∧
    ∃ res, Orphan.store.save Orphan.kept.journal 0 Orphan.payout ⟨[2], 6, 1, 10⟩ 2 true = .ok res := by
  obtain ⟨hkept, hany⟩ := @Signers.next_nonce_admitted (fun _ => 0) (fun _ => 0) Orphan.store Orphan.kept rfl
  refine ⟨hkept Orphan.kept_reachable, (hany Orphan.kept_reachable.reachable 0 _ _ 2 rfl ?_ rfl).mpr ⟨?_, ?_⟩⟩
  · intro x hx
    cases List.mem_singleton.mp hx
    decide
  · intro x hx ha
    cases List.mem_singleton.mp hx
    cases ha
  · intro x hx hd
    cases List.mem_singleton.mp hx
    exact absurd (List.mem_singleton_self _) hd.2

/-- The audit hands the action out again, and the journal refuses the nonce that the chain asks for. -/
theorem orphan_refused : ∃ s : Signers fun _ => 0, Signers.Reachable (fun _ => 0) s ∧
    Orphan.store.activeCount s.journal = 0 ∧ Orphan.second.nonce = s.nextNonce Orphan.store ∧
    (∀ x ∈ s.journal.rows, x.id ≠ 2) ∧ s.jobFree Orphan.store Orphan.payout ∧
    Orphan.store.save s.journal 400000 Orphan.payout Orphan.second 2 true = .error (.uniqueViolation .nonce) := by
  refine ⟨Orphan.orphaned, Orphan.orphaned_reachable, rfl, rfl, ?_, ?_, rfl⟩
  · intro x hx
    cases List.mem_singleton.mp hx
    decide
  · intro x hx ha
    cases List.mem_singleton.mp hx
    cases ha

end Cpredict.Automation
