import Cpredict.Automation.Tick

/-!
# What an await does to the rows

An await inserts one row or changes rows in place, and what it can do to a row is one of the cases of `RowChange`
(`JournalEffect.change`).
-/

namespace Cpredict.Automation

open Outcome

/-- The same row for the same signer, with what it was created with. -/
structure Owned (x y : Row) : Prop where
  id : y.id = x.id
  chainId : y.chainId = x.chainId
  deploymentId : y.deploymentId = x.deploymentId
  signer : y.signer = x.signer
  action : y.action = x.action
  createdAt : y.createdAt = x.createdAt

theorem Owned.refl (x : Row) : Owned x x := ⟨rfl, rfl, rfl, rfl, rfl, rfl⟩

theorem Owned.trans {x y z : Row} (h : Owned x y) (h' : Owned y z) : Owned x z where
  id := h'.id.trans h.id
  chainId := h'.chainId.trans h.chainId
  deploymentId := h'.deploymentId.trans h.deploymentId
  signer := h'.signer.trans h.signer
  action := h'.action.trans h.action
  createdAt := h'.createdAt.trans h.createdAt

theorem Owned.owns {st : Store} {x y : Row} (h : Owned x y) : st.owns y = st.owns x := by
  simp only [Store.owns, h.chainId, h.signer]

/-- The row has what is handed to the chain. -/
structure Row.Carries (x : Row) (tx : Prepared) : Prop where
  nonce : x.nonce = some tx.nonce
  hash : x.txHash = tx.hash
  raw : x.rawTransaction = some tx.raw

/-- What the await can do to a row. -/
inductive RowChange (j : Journal) : Await → Row → Row → Prop
  | same {c : Await} {x y : Row} (owned : Owned x y) (state : y.state = x.state) (nonce : y.nonce = x.nonce)
      (hash : y.txHash = x.txHash) (raw : y.rawTransaction = x.rawTransaction) : RowChange j c x y
  | mark {x y : Row} (owned : Owned x y) (before : x.state = .prepared) (state : y.state = .broadcasting)
      (nonce : y.nonce = x.nonce) (hash : y.txHash = x.txHash) (raw : y.rawTransaction = x.rawTransaction) :
      RowChange j (.markBroadcasting x.id) x y
  | cancel {x y : Row} (owned : Owned x y) (before : x.state = .prepared) (state : y.state = .cancelled)
      (nonce : y.nonce = none) : RowChange j (.cancelPrepared x.id) x y
  | unknown {x y : Row} (owned : Owned x y) (before : x.state = .broadcasting) (state : y.state = .unknown)
      (nonce : y.nonce = x.nonce) (hash : y.txHash = x.txHash) (raw : y.rawTransaction = x.rawTransaction) :
      RowChange j (.markUnknown x.id) x y
  | finish {x y : Row} {r : TxReceipt} {hash : Bytes32} (owned : Owned x y)
      (registered : hash = x.txHash ∨ hash ∈ j.replacedHashes x.id)
      (state : y.state = if r.success = true then .confirmed else .reverted) (nonce : y.nonce = x.nonce)
      (paid : y.txHash = hash) : RowChange j (.finish x.id r hash) x y
  | replace {x y : Row} {tx : Record} {r : Recovery} (owned : Owned x y) (before : x.state.sent = true)
      (state : y.state = .unknown) (nonce : y.nonce = x.nonce) (hash : y.txHash = r.replacement.hash)
      (raw : y.rawTransaction = some r.replacement.raw)
      (registered : ∃ r₀ ∈ j.recoveries, r₀.transactionId = x.id ∧ r₀.replacement = r.replacement) :
      RowChange j (.startRecovery tx r) x y

theorem RowChange.owned {j : Journal} {c : Await} {x y : Row} (h : RowChange j c x y) : Owned x y := by
  cases h <;> assumption

theorem RowChange.refl {j : Journal} {c : Await} (x : Row) : RowChange j c x x := .same (.refl x) rfl rfl rfl rfl

/-- The rows change in place. -/
def InPlace (j : Journal) (c : Await) (rows : List Row) : Prop :=
  ∃ g : Row → Row, rows = j.rows.map g ∧ ∀ x ∈ j.rows, RowChange j c x (g x)

theorem InPlace.same {j : Journal} {c : Await} {rows : List Row} (h : rows = j.rows) : InPlace j c rows :=
  ⟨id, by rw [h, List.map_id], fun x _ => .refl x⟩

theorem InPlace.update {j : Journal} {c : Await} {id : Nat} {f : Row → Row}
    (h : ∀ x ∈ j.rows, x.id = id → RowChange j c x (f x)) : InPlace j c (j.update id f).rows := by
  refine ⟨_, rfl, ?_⟩
  intro x hx
  by_cases hi : x.id = id
  · rw [if_pos hi]
    exact h x hx hi
  · rw [if_neg hi]
    exact .refl x

section

variable {j : Journal} {id : Nat} {x : Row}

theorem mem_lane {st : Store} : x ∈ st.lane j ↔ x ∈ j.rows ∧ st.owns x = true := List.mem_filter

theorem mem_of_find (h : j.find id = some x) : x ∈ j.rows ∧ x.id = id := by
  have hp := List.find?_some h
  exact ⟨List.mem_of_find?_eq_some h, of_decide_eq_true hp⟩

/-- The primary key. -/
theorem eq_of_id {x y : Row} (hd : (j.rows.map Row.id).Nodup) (hx : x ∈ j.rows) (hy : y ∈ j.rows) (h : x.id = y.id) :
    x = y := List.inj_on_of_nodup_map hd hx hy h

theorem eq_find {t : Row} (hd : (j.rows.map Row.id).Nodup) (hf : j.find id = some t) (hx : x ∈ j.rows) (h : x.id = id) :
    x = t := by
  obtain ⟨ht, hi⟩ := mem_of_find hf
  exact eq_of_id hd hx ht (h.trans hi.symm)

end

/-! ## The audit -/

/-- The audit keeps owners, states and transactions. -/
structure Audited (x y : Row) : Prop where
  owned : Owned x y
  state : y.state = x.state
  nonce : y.nonce = x.nonce
  hash : y.txHash = x.txHash
  raw : y.rawTransaction = x.rawTransaction

theorem Audited.refl (x : Row) : Audited x x := ⟨.refl x, rfl, rfl, rfl, rfl⟩

theorem Audited.trans {x y z : Row} (h : Audited x y) (h' : Audited y z) : Audited x z where
  owned := h.owned.trans h'.owned
  state := h'.state.trans h.state
  nonce := h'.nonce.trans h.nonce
  hash := h'.hash.trans h.hash
  raw := h'.raw.trans h.raw

theorem auditRow_ok {ix : ChainIndex} {now : Nat} {x y : Row} {b : Bool} (h : auditRow ix now x = .ok (y, b)) :
    Audited x y := by
  simp only [auditRow, bind_eq_ok] at h
  obtain ⟨⟨block, hash⟩, -, h⟩ := h
  split at h
  · cases h
    exact ⟨⟨rfl, rfl, rfl, rfl, rfl, rfl⟩, rfl, rfl, rfl, rfl⟩
  · split at h
    · cases h
      exact ⟨⟨rfl, rfl, rfl, rfl, rfl, rfl⟩, rfl, rfl, rfl, rfl⟩
    · split at h
      · cases h
        exact .refl x
      · cases h
        exact ⟨⟨rfl, rfl, rfl, rfl, rfl, rfl⟩, rfl, rfl, rfl, rfl⟩

/-- Putting an audited row in its place. -/
theorem update_audited {j : Journal} {id : Nat} {x y : Row} (hd : (j.rows.map Row.id).Nodup) (hf : j.find id = some x)
    (h : Audited x y) : ∀ z ∈ j.rows, Audited z (if z.id = id then y else z) := by
  intro z hz
  split
  · rename_i hi
    rwa [eq_find hd hf hz hi]
  · exact .refl z

theorem auditRows_ok {ix : ChainIndex} {now : Nat} {ids : List Nat} {j j' : Journal} {actions : List Action}
    (hd : (j.rows.map Row.id).Nodup) (h : auditRows ix now ids j = .ok (j', actions)) :
    ∃ g : Row → Row, j'.rows = j.rows.map g ∧ ∀ x ∈ j.rows, Audited x (g x) := by
  induction ids generalizing j j' actions with
  | nil =>
    cases h
    exact ⟨id, (List.map_id _).symm, fun x _ => .refl x⟩
  | cons id rest ih =>
    rw [auditRows] at h
    split at h
    · exact ih hd h
    · rename_i x hf
      simp only [bind_eq_ok, Except.ok.injEq, Prod.mk.injEq] at h
      obtain ⟨⟨y, orphaned⟩, hy, ⟨j₁, actions₁⟩, hr, rfl, -⟩ := h
      have hone := update_audited hd hf (auditRow_ok hy)
      have hids : ((j.update id fun _ => y).rows.map Row.id).Nodup := by
        have hmap : (j.update id fun _ => y).rows.map Row.id = j.rows.map Row.id := by
          rw [Journal.update, List.map_map]
          exact List.map_congr_left fun z hz => (hone z hz).owned.id
        rwa [hmap]
      obtain ⟨g, hg, hkeep⟩ := ih hids hr
      refine ⟨fun z => g (if z.id = id then y else z), ?_, ?_⟩
      · rw [hg, Journal.update, List.map_map]
        rfl
      · intro z hz
        have hmem : (if z.id = id then y else z) ∈ (j.update id fun _ => y).rows := List.mem_map_of_mem hz
        exact (hone z hz).trans (hkeep _ hmem)

theorem auditCanonical_ok {st : Store} {ix : ChainIndex} {now : Nat} {j j' : Journal}
    {actions : List Action} {c : Await}
    (hd : (j.rows.map Row.id).Nodup) (h : auditCanonical ix now st j = .ok (j', actions)) : InPlace j c j'.rows := by
  obtain ⟨g, hg, hkeep⟩ := auditRows_ok hd h
  refine ⟨g, hg, ?_⟩
  intro x hx
  exact .same (hkeep x hx).owned (hkeep x hx).state (hkeep x hx).nonce (hkeep x hx).hash (hkeep x hx).raw

/-! ## All awaits -/

theorem Commits.cases {α : Type} {w w' : World} {f : Except WorkerErr (Journal × α)} {r : Except WorkerErr α}
    (h : Commits w w' f r) : (∃ a, f = .ok (w'.journal, a)) ∨ w'.journal = w.journal := by
  obtain ⟨a, hf, -⟩ | ⟨hj, -⟩ := h
  · exact .inl ⟨a, hf⟩
  · exact .inr hj

/-- What `save` has checked and inserted. -/
structure Saved (st : Store) (j : Journal) (a : Action) (tx : Prepared) (new : Row) : Prop where
  owned : st.owns new = true
  state : new.state = .prepared
  nonce : new.nonce = some tx.nonce
  hash : new.txHash = tx.hash
  raw : new.rawTransaction = some tx.raw
  fresh : ∀ x ∈ j.rows, x.id ≠ new.id
  unused : ∀ x ∈ j.rows, st.owns x = true → x.nonce ≠ some tx.nonce

theorem insert_ok {j j' : Journal} {r : Row} (h : j.insert r = .ok j') :
    (∀ x ∈ j.rows, x.id ≠ r.id) ∧
      (∀ x ∈ j.rows, x.chainId = r.chainId → x.signer = r.signer → r.nonce ≠ none → x.nonce ≠ r.nonce) ∧
      j' = { j with rows := j.rows ++ [r] } := by
  simp only [Journal.insert, bind_eq_ok, revertIf_eq_ok, Except.ok.injEq, not_exists, not_and] at h
  obtain ⟨_, hid, _, hn, _, -, rfl⟩ := h
  exact ⟨hid, fun x hx hc hs hne he => hn x hx hc hs he hne, rfl⟩

theorem save_ok {st : Store} {j j' : Journal} {now id : Nat} {a : Action} {tx : Prepared}
    {candidate : Bool} {rec : Record}
    (h : st.save j now a tx id candidate = .ok (j', rec)) :
    rec = ⟨id, a, tx, .prepared⟩ ∧ ∃ new, j'.rows = j.rows ++ [new] ∧ new.id = id ∧ Saved st j a tx new := by
  simp only [Store.save, bind_eq_ok, Except.ok.injEq, Prod.mk.injEq] at h
  obtain ⟨_, -, _, -, j₁, hi, rfl, rfl⟩ := h
  obtain ⟨hid, hn, rfl⟩ := insert_ok hi
  refine ⟨rfl, st.preparedRow now a tx id, rfl, rfl, ?_, rfl, rfl, rfl, rfl, hid, ?_⟩
  · simp [Store.owns, Store.preparedRow]
  · intro x hx ho
    simp only [Store.owns, Bool.and_eq_true, decide_eq_true_eq] at ho
    exact hn x hx ho.1 ho.2 (Option.some_ne_none _)

theorem finish_ok {j j' : Journal} {now id : Nat} {r : TxReceipt} {hash : Bytes32} (hd : (j.rows.map Row.id).Nodup)
    (h : j.finish now id r hash = .ok j') : InPlace j (.finish id r hash) j'.rows := by
  simp only [Journal.finish, bind_eq_ok, revertIf_eq_ok, Except.ok.injEq, not_and_or, not_not] at h
  obtain ⟨t, hf, _, hreg, rfl⟩ := h
  have hfind : j.find id = some t := by
    cases hf' : j.find id with
    | none =>
      rw [hf'] at hf
      cases hf
    | some t' =>
      rw [hf'] at hf
      cases hf
      rfl
  apply InPlace.update
  rintro x hx rfl
  obtain rfl := eq_find hd hfind hx rfl
  exact .finish ⟨rfl, rfl, rfl, rfl, rfl, rfl⟩ hreg rfl rfl rfl

theorem startRecovery_ok {st : Store} {j : Journal} {now : Nat} {tx : Record} {r : Recovery}
    (hd : (j.rows.map Row.id).Nodup) :
    InPlace j (.startRecovery tx r) (st.startRecovery j now tx r).1.rows ∧
      ((st.startRecovery j now tx r).2 = true →
        ∃ x ∈ st.lane (st.startRecovery j now tx r).1, x.id = tx.id ∧ x.state = .unknown ∧
          x.Carries r.replacement) := by
  unfold Store.startRecovery
  cases hf : j.find tx.id with
  | none => exact ⟨.same rfl, fun h => absurd h Bool.false_ne_true⟩
  | some current =>
    simp only
    split
    · exact ⟨.same rfl, fun h => absurd h Bool.false_ne_true⟩
    · rename_i hc
      simp only [Bool.not_eq_false, Bool.and_eq_true, decide_eq_true_eq] at hc
      obtain ⟨⟨⟨⟨howns, -⟩, -⟩, hnonce⟩, hsent⟩ := hc
      split
      · exact ⟨.same rfl, fun h => absurd h Bool.false_ne_true⟩
      · rename_i hr
        simp only [Bool.not_eq_false, List.any_eq_true, Bool.and_eq_true, decide_eq_true_eq] at hr
        obtain ⟨r₀, hr₀, ⟨⟨⟨-, htx⟩, -⟩, hrep⟩, -⟩ := hr
        constructor
        · apply InPlace.update
          intro x hx hi
          have hsx : x.state.sent = true := by rwa [eq_find hd hf hx hi]
          exact .replace ⟨rfl, rfl, rfl, rfl, rfl, rfl⟩ hsx rfl rfl rfl rfl ⟨r₀, hr₀, htx.trans hi.symm, hrep⟩
        · intro _
          obtain ⟨hm, hi⟩ := mem_of_find hf
          refine ⟨_, List.mem_filter.mpr ⟨List.mem_map_of_mem hm, ?_⟩, ?_⟩
          · rwa [if_pos hi]
          · rw [if_pos hi]
            exact ⟨hi, rfl, hnonce, rfl, rfl⟩

theorem markBroadcasting_inPlace {j : Journal} {now id : Nat} :
    InPlace j (.markBroadcasting id) (j.markBroadcasting now id).1.rows := by
  apply InPlace.update
  rintro x _ rfl
  unfold Journal.marked
  split
  · rename_i hp
    exact .mark ⟨rfl, rfl, rfl, rfl, rfl, rfl⟩ hp rfl rfl rfl rfl
  · exact .refl x

theorem cancelPrepared_inPlace {j : Journal} {id : Nat} :
    InPlace j (.cancelPrepared id) (j.cancelPrepared id).rows := by
  apply InPlace.update
  rintro x _ rfl
  split
  · rename_i hp
    exact .cancel ⟨rfl, rfl, rfl, rfl, rfl, rfl⟩ hp rfl rfl
  · exact .refl x

theorem markUnknown_inPlace {j : Journal} {id : Nat} : InPlace j (.markUnknown id) (j.markUnknown id).rows := by
  apply InPlace.update
  rintro x _ rfl
  split
  · rename_i hp
    exact .unknown ⟨rfl, rfl, rfl, rfl, rfl, rfl⟩ hp rfl rfl rfl rfl
  · exact .refl x

theorem recoveryCheck_inPlace {j : Journal} {id : Nat} {manual : Bool} {c : Await} :
    InPlace j c (j.recoveryCheck id manual).rows := by
  unfold Journal.recoveryCheck
  split
  · apply InPlace.update
    intro x _ _
    exact .same ⟨rfl, rfl, rfl, rfl, rfl, rfl⟩ rfl rfl rfl rfl
  · exact .same rfl

theorem saveRecovery_rows {st : Store} {j j' : Journal} {now id : Nat} {keccak256 : Bytes → Bytes32} {tx : Record}
    {p : Prepared} {r : Recovery} (h : st.saveRecovery j now keccak256 tx p id = .ok (j', r)) : j'.rows = j.rows := by
  simp only [Store.saveRecovery, bind_eq_ok, Except.ok.injEq, Prod.mk.injEq] at h
  obtain ⟨_, -, _, -, _, -, _, -, rfl, -⟩ := h
  rfl

/-- A change that is committed or not. -/
theorem Commits.inPlace {α : Type} {w w' : World} {f : Except WorkerErr (Journal × α)}
    {r : Except WorkerErr α} {c : Await}
    (h : Commits w w' f r) (hf : ∀ j a, f = .ok (j, a) → InPlace w.journal c j.rows) :
    InPlace w.journal c w'.journal.rows := by
  rcases h.cases with ⟨a, ha⟩ | hj
  · exact hf _ a ha
  · exact .same (by rw [hj])

/-- Every await inserts one row or changes rows in place. -/
theorem JournalEffect.change {st : Store} {keccak256 : Bytes → Bytes32} {w w' : World} {c : Await}
    {r : Except WorkerErr (Reply c)} (hd : (w.journal.rows.map Row.id).Nodup)
    (h : JournalEffect st keccak256 w w' c r) :
    (∃ a tx new, c = .save a tx ∧ w'.journal.rows = w.journal.rows ++ [new] ∧ Saved st w.journal a tx new) ∨
      InPlace w.journal c w'.journal.rows := by
  cases c with
  | save a tx =>
    obtain ⟨now, id, candidate, h⟩ := h
    rcases h.cases with ⟨rec, hs⟩ | hj
    · obtain ⟨-, new, hrows, -, hsaved⟩ := save_ok hs
      exact .inl ⟨a, tx, new, rfl, hrows, hsaved⟩
    · exact .inr (.same (by rw [hj]))
  | auditCanonical =>
    obtain ⟨ix, now, h⟩ := h
    exact .inr (h.inPlace fun j a ha => auditCanonical_ok hd ha)
  | finish id receipt hash =>
    obtain ⟨now, h⟩ := h
    refine .inr (h.inPlace ?_)
    intro j a ha
    cases hf : w.journal.finish now id receipt hash with
    | error e =>
      rw [hf] at ha
      cases ha
    | ok j' =>
      rw [hf] at ha
      cases ha
      exact finish_ok hd hf
  | cancelPrepared id =>
    refine .inr (Commits.inPlace h ?_)
    rintro j a ⟨⟩
    exact cancelPrepared_inPlace
  | markBroadcasting id =>
    obtain ⟨now, h⟩ := h
    refine .inr (h.inPlace ?_)
    intro j a ha
    have hj := congrArg (Except.map Prod.fst) ha
    cases hj
    exact markBroadcasting_inPlace
  | markUnknown id =>
    refine .inr (Commits.inPlace h ?_)
    rintro j a ⟨⟩
    exact markUnknown_inPlace
  | saveRecovery tx p =>
    obtain ⟨now, id, h⟩ := h
    exact .inr (h.inPlace fun j a ha => .same (saveRecovery_rows ha))
  | startRecovery tx rec =>
    obtain ⟨now, h⟩ := h
    refine .inr (h.inPlace ?_)
    intro j a ha
    have hj := congrArg (Except.map Prod.fst) ha
    cases hj
    exact (startRecovery_ok hd).1
  | recoverySubmitted id =>
    refine .inr (Commits.inPlace h ?_)
    rintro j a ⟨⟩
    exact .same rfl
  | recoveryCheck id manual =>
    refine .inr (Commits.inPlace h ?_)
    rintro j a ⟨⟩
    exact recoveryCheck_inPlace
  | pending => exact .inr (.same (by rw [h.1]))
  | recoveryHashes id => exact .inr (.same (by rw [h.1]))
  | _ => exact .inr (.same (by rw [show w'.journal = w.journal from h]))

/-! ## Recoveries -/

/-- The same recovery, in a state of its own. -/
structure SameRecovery (r r' : Recovery) : Prop where
  id : r.id = r'.id
  transactionId : r.transactionId = r'.transactionId
  originalHash : r.originalHash = r'.originalHash
  replacement : r.replacement = r'.replacement

theorem SameRecovery.refl (r : Recovery) : SameRecovery r r := ⟨rfl, rfl, rfl, rfl⟩

/-- Recoveries whose states change. -/
theorem sameRecovery_of_map {l : List Recovery} {f : Recovery → Recovery} (hf : ∀ r, SameRecovery r (f r))
    {r : Recovery}
    (hr : r ∈ l.map f) : ∃ r₀ ∈ l, SameRecovery r₀ r := by
  obtain ⟨r₀, h₀, rfl⟩ := List.mem_map.mp hr
  exact ⟨r₀, h₀, hf r₀⟩

/-- The row that a new recovery is for. -/
structure RecoveryOf (r : Recovery) (x : Row) : Prop where
  id : x.id = r.transactionId
  state : x.state.sent = true
  nonce : x.nonce = some r.replacement.nonce
  hash : x.txHash = r.originalHash

theorem saveRecovery_ok {st : Store} {j j' : Journal} {now id : Nat} {keccak256 : Bytes → Bytes32} {tx : Record}
    {p : Prepared} {r : Recovery} (h : st.saveRecovery j now keccak256 tx p id = .ok (j', r)) :
    j' = { j with recoveries := j.recoveries ++ [r] } ∧ r.replacement = p ∧ ∃ x ∈ st.lane j, RecoveryOf r x := by
  simp only [Store.saveRecovery, bind_eq_ok, revertIf_eq_ok, Except.ok.injEq, Prod.mk.injEq, not_or] at h
  obtain ⟨_, ⟨hn, -⟩, x, hx, _, ⟨ho, -, hh, hs, hxn, -⟩, _, -, hj, hr⟩ := h
  have hf : j.find tx.id = some x := by
    cases hf : j.find tx.id with
    | none =>
      rw [hf] at hx
      cases hx
    | some y =>
      rw [hf] at hx
      cases hx
      rfl
  obtain ⟨hm, hi⟩ := mem_of_find hf
  refine ⟨hr ▸ hj.symm, hr ▸ rfl, x, mem_lane.mpr ⟨hm, by simpa using ho⟩, ?_, by simpa using hs, ?_, ?_⟩
  · rw [← hr]
    exact hi
  · rw [← hr, not_not.mp hxn, not_not.mp hn]
  · rw [← hr]
    exact not_not.mp hh

theorem startRecovery_recoveries {st : Store} {j : Journal} {now : Nat} {tx : Record} {rec r : Recovery}
    (hr : r ∈ (st.startRecovery j now tx rec).1.recoveries) : ∃ r₀ ∈ j.recoveries, SameRecovery r₀ r := by
  unfold Store.startRecovery at hr
  split at hr
  · exact ⟨r, hr, .refl r⟩
  · split at hr
    · exact ⟨r, hr, .refl r⟩
    · split at hr
      · exact ⟨r, hr, .refl r⟩
      · apply sameRecovery_of_map _ hr
        intro r
        split <;> exact ⟨rfl, rfl, rfl, rfl⟩

theorem auditRows_recoveries {ix : ChainIndex} {now : Nat} {ids : List Nat} {j j' : Journal} {actions : List Action}
    (h : auditRows ix now ids j = .ok (j', actions)) : j'.recoveries = j.recoveries := by
  induction ids generalizing j j' actions with
  | nil =>
    cases h
    rfl
  | cons id rest ih =>
    rw [auditRows] at h
    split at h
    · exact ih h
    · simp only [bind_eq_ok, Except.ok.injEq, Prod.mk.injEq] at h
      obtain ⟨⟨y, orphaned⟩, -, ⟨j₁, actions₁⟩, hr, rfl, -⟩ := h
      exact (ih hr).trans rfl

/-- What an await does to the recoveries. -/
theorem JournalEffect.recoveries {st : Store} {keccak256 : Bytes → Bytes32} {w w' : World} {c : Await}
    {a : Except WorkerErr (Reply c)} (h : JournalEffect st keccak256 w w' c a) {r : Recovery}
    (hr : r ∈ w'.journal.recoveries) :
    (∃ r₀ ∈ w.journal.recoveries, SameRecovery r₀ r) ∨
      (∃ tx, c = .saveRecovery tx r.replacement) ∧ w'.journal.rows = w.journal.rows ∧
        ∃ x ∈ st.lane w.journal, RecoveryOf r x := by
  have hkept : ∀ {α : Type} {f : Except WorkerErr (Journal × α)} {a : Except WorkerErr α}, Commits w w' f a →
      (∀ j b, f = .ok (j, b) → ∀ r ∈ j.recoveries, ∃ r₀ ∈ w.journal.recoveries, SameRecovery r₀ r) →
      ∃ r₀ ∈ w.journal.recoveries, SameRecovery r₀ r := by
    intro α f a hc hf
    rcases hc.cases with ⟨b, hb⟩ | hj
    · exact hf _ b hb r hr
    · exact ⟨r, hj ▸ hr, .refl r⟩
  have hsame : w'.journal.recoveries = w.journal.recoveries → ∃ r₀ ∈ w.journal.recoveries, SameRecovery r₀ r :=
    fun he => ⟨r, he ▸ hr, .refl r⟩
  cases c with
  | save a tx =>
    obtain ⟨now, id, candidate, h⟩ := h
    refine .inl (hkept h ?_)
    intro j b hb r hr
    simp only [Store.save, bind_eq_ok, Except.ok.injEq, Prod.mk.injEq] at hb
    obtain ⟨_, -, _, -, j₁, hi, rfl, -⟩ := hb
    rw [(insert_ok hi).2.2] at hr
    exact ⟨r, hr, .refl r⟩
  | auditCanonical =>
    obtain ⟨ix, now, h⟩ := h
    refine .inl (hkept h ?_)
    intro j b hb r hr
    rw [auditRows_recoveries hb] at hr
    exact ⟨r, hr, .refl r⟩
  | finish id receipt hash =>
    obtain ⟨now, h⟩ := h
    refine .inl (hkept h ?_)
    intro j b hb
    cases hok : w.journal.finish now id receipt hash with
    | error e =>
      rw [hok] at hb
      cases hb
    | ok j' =>
      rw [hok] at hb
      cases hb
      simp only [Journal.finish, bind_eq_ok, Except.ok.injEq] at hok
      obtain ⟨_, -, _, -, rfl⟩ := hok
      intro r hr
      apply sameRecovery_of_map _ hr
      intro r
      split <;> exact ⟨rfl, rfl, rfl, rfl⟩
  | cancelPrepared id =>
    refine .inl (hkept h ?_)
    rintro j b ⟨⟩ r hr
    exact ⟨r, hr, .refl r⟩
  | markBroadcasting id =>
    obtain ⟨now, h⟩ := h
    refine .inl (hkept h ?_)
    intro j b hb r hr
    have hj := congrArg (Except.map Prod.fst) hb
    cases hj
    exact ⟨r, hr, .refl r⟩
  | markUnknown id =>
    refine .inl (hkept h ?_)
    rintro j b ⟨⟩ r hr
    exact ⟨r, hr, .refl r⟩
  | saveRecovery tx p =>
    obtain ⟨now, id, h⟩ := h
    rcases h.cases with ⟨r', hs⟩ | hj
    · obtain ⟨hj, rfl, x, hx⟩ := saveRecovery_ok hs
      rw [hj] at hr ⊢
      rcases List.mem_append.mp hr with hr | hr
      · exact .inl ⟨r, hr, .refl r⟩
      · obtain rfl := List.mem_singleton.mp hr
        exact .inr ⟨⟨tx, rfl⟩, rfl, x, hx⟩
    · exact .inl (hsame (by rw [hj]))
  | startRecovery tx rec =>
    obtain ⟨now, h⟩ := h
    refine .inl (hkept h ?_)
    intro j b hb r hr
    have hj := congrArg (Except.map Prod.fst) hb
    cases hj
    exact startRecovery_recoveries hr
  | recoverySubmitted id =>
    refine .inl (hkept h ?_)
    rintro j b ⟨⟩ r hr
    apply sameRecovery_of_map _ hr
    intro r
    split <;> exact ⟨rfl, rfl, rfl, rfl⟩
  | recoveryCheck id manual =>
    refine .inl (hkept h ?_)
    rintro j b ⟨⟩ r hr
    unfold Journal.recoveryCheck at hr
    split at hr <;> exact ⟨r, hr, .refl r⟩
  | pending => exact .inl (hsame (by rw [h.1]))
  | recoveryHashes id => exact .inl (hsame (by rw [h.1]))
  | _ => exact .inl (hsame (by rw [show w'.journal = w.journal from h]))

end Cpredict.Automation
