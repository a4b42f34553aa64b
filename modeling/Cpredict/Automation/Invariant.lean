import Cpredict.Automation.Change

/-!
# The invariant of the lane

What the rows of a signer satisfy (`LaneOk`), how they go with what has been sent (`Inv`), and when an await keeps both
(`Allowed`, `Inv.step`).
-/

namespace Cpredict.Automation

open Outcome

/-! ## Rows -/

/-- No longer prepared, and not cancelled. -/
def TxState.passed (s : TxState) : Bool := s ≠ .prepared && s ≠ .cancelled

/-- How many rows of the signer are prepared, broadcasting or unknown. -/
def Store.activeCount (st : Store) (j : Journal) : Nat := j.rows.countP fun x => st.owns x && x.active

/-- A row has a nonce unless it is cancelled. -/
def Row.Held (x : Row) : Prop := x.nonce = none ↔ x.state = .cancelled

structure LaneOk (st : Store) (j : Journal) : Prop where
  ids : (j.rows.map Row.id).Nodup
  single : st.activeCount j ≤ 1
  nonces : ∀ x ∈ st.lane j, ∀ y ∈ st.lane j, x.nonce = y.nonce → x.nonce ≠ none → x.id = y.id
  held : ∀ x ∈ st.lane j, x.Held
  bytes : ∀ x ∈ st.lane j, x.active = true → x.rawTransaction ≠ none

section

variable {st : Store} {j : Journal} {c : Await} {x y : Row}

theorem activeCount_eq (st : Store) (j : Journal) : st.activeCount j = (st.lane j).countP Row.active := by
  rw [Store.lane, List.countP_filter]
  simp only [Store.activeCount, Bool.and_comm]

theorem LaneOk.eq_of_id (h : LaneOk st j) (hx : x ∈ st.lane j) (hy : y ∈ st.lane j) (he : x.id = y.id) : x = y :=
  Automation.eq_of_id h.ids (mem_lane.mp hx).1 (mem_lane.mp hy).1 he

theorem RowChange.active (h : RowChange j c x y) (hy : y.active = true) : x.active = true := by
  unfold Row.active at *
  cases h with
  | same _ hs _ => rwa [hs] at hy
  | mark _ hb _ _ => rw [hb]; rfl
  | cancel _ _ hs _ => rw [hs] at hy; cases hy
  | unknown _ hb _ _ => rw [hb]; rfl
  | finish _ _ hs _ =>
    rw [hs] at hy
    split at hy <;> cases hy
  | replace _ hb _ _ =>
    simp only [TxState.sent, TxState.active, Bool.or_eq_true] at *
    tauto

theorem RowChange.nonce (h : RowChange j c x y) (hy : y.nonce ≠ none) : y.nonce = x.nonce := by
  cases h with
  | same _ _ hn => exact hn
  | mark _ _ _ hn => exact hn
  | cancel _ _ _ hn => exact absurd hn hy
  | unknown _ _ _ hn => exact hn
  | finish _ _ _ hn => exact hn
  | replace _ _ _ hn => exact hn

/-- A row that has been sent is not prepared or cancelled again. -/
theorem RowChange.passed (h : RowChange j c x y) (hx : x.state.passed = true) : y.state.passed = true := by
  cases h with
  | same _ hs _ => rwa [hs]
  | mark _ hb _ _ => rw [hb] at hx; cases hx
  | cancel _ hb _ _ => rw [hb] at hx; cases hx
  | unknown _ _ hs _ => rw [hs]; rfl
  | finish _ _ hs _ =>
    rw [hs]
    split <;> rfl
  | replace _ _ hs _ => rw [hs]; rfl

theorem RowChange.held (h : RowChange j c x y) (hx : x.Held) (hf : ∀ r hash, c = .finish x.id r hash →
    x.state ≠ .cancelled) :
    y.Held := by
  unfold Row.Held at *
  cases h with
  | same _ hs hn => rwa [hs, hn]
  | mark _ hb hs hn =>
    rw [hn, hx, hb, hs]
    decide
  | cancel _ _ hs hn => simp [hs, hn]
  | unknown _ hb hs hn =>
    rw [hn, hx, hb, hs]
    decide
  | @finish _ _ r hash _ _ hs hn =>
    rw [hn, hx, hs]
    constructor
    · intro hc
      exact absurd hc (hf r hash rfl)
    · intro hc
      split at hc <;> cases hc
  | replace _ hb hs hn =>
    rw [hn, hx, hs]
    constructor
    · intro hc
      rw [hc] at hb
      cases hb
    · intro hc
      cases hc

/-- A row that may be sent keeps its bytes or gets others. -/
theorem RowChange.bytes (h : RowChange j c x y) (hx : x.active = true → x.rawTransaction ≠ none)
    (hy : y.active = true) :
    y.rawTransaction ≠ none := by
  have hxa := h.active hy
  cases h with
  | same _ _ _ _ hr => exact hr ▸ hx hxa
  | mark _ _ _ _ _ hr => exact hr ▸ hx hxa
  | cancel _ _ hs _ =>
    rw [Row.active, hs] at hy
    cases hy
  | unknown _ _ _ _ _ hr => exact hr ▸ hx hxa
  | finish _ _ hs _ =>
    rw [Row.active, hs] at hy
    split at hy <;> cases hy
  | replace _ _ _ _ _ hr => exact hr ▸ Option.some_ne_none _

/-- The compare-and-set keeps what the row has for the chain. -/
theorem RowChange.carries {id : Nat} {p : Prepared} (h : RowChange j (.markBroadcasting id) x y) (hx : x.Carries p) :
    y.Carries p := by
  cases h with
  | same _ _ hn hh hr => exact ⟨hn.trans hx.nonce, hh.trans hx.hash, hr.trans hx.raw⟩
  | mark _ _ _ hn hh hr => exact ⟨hn.trans hx.nonce, hh.trans hx.hash, hr.trans hx.raw⟩

/-- The rows of a signer after a change in place. -/
theorem InPlace.mem_lane {j' : Journal} (h : InPlace j c j'.rows) :
    (∀ y ∈ st.lane j', ∃ x ∈ st.lane j, RowChange j c x y) ∧ ∀ x ∈ st.lane j, ∃ y ∈ st.lane j', RowChange j c x y := by
  obtain ⟨g, hg, hrow⟩ := h
  constructor
  · intro y hy
    obtain ⟨hy, ho⟩ := Automation.mem_lane.mp hy
    rw [hg] at hy
    obtain ⟨x, hx, rfl⟩ := List.mem_map.mp hy
    rw [(hrow x hx).owned.owns] at ho
    exact ⟨x, Automation.mem_lane.mpr ⟨hx, ho⟩, hrow x hx⟩
  · intro x hx
    obtain ⟨hx, ho⟩ := Automation.mem_lane.mp hx
    refine ⟨g x, Automation.mem_lane.mpr ⟨?_, ?_⟩, hrow x hx⟩
    · rw [hg]
      exact List.mem_map_of_mem hx
    · rwa [(hrow x hx).owned.owns]

theorem InPlace.ids {j' : Journal} (h : InPlace j c j'.rows) : j'.rows.map Row.id = j.rows.map Row.id := by
  obtain ⟨g, hg, hrow⟩ := h
  rw [hg, List.map_map]
  exact List.map_congr_left fun x hx => (hrow x hx).owned.id

theorem InPlace.activeCount {j' : Journal} (h : InPlace j c j'.rows) : st.activeCount j' ≤ st.activeCount j := by
  obtain ⟨g, hg, hrow⟩ := h
  rw [Store.activeCount, hg, List.countP_map]
  apply List.countP_mono_left
  intro x hx hp
  simp only [Function.comp_apply, Bool.and_eq_true] at hp ⊢
  rw [(hrow x hx).owned.owns] at hp
  exact ⟨hp.1, (hrow x hx).active hp.2⟩

theorem LaneOk.inPlace {j' : Journal} (h : LaneOk st j) (hj : InPlace j c j'.rows)
    (hf : ∀ id r hash, c = .finish id r hash → ∃ x ∈ st.lane j, x.id = id ∧ x.state ≠ .cancelled) : LaneOk st j' where
  ids := by
    rw [hj.ids]
    exact h.ids
  single := hj.activeCount.trans h.single
  nonces := by
    intro y hy z hz he hne
    obtain ⟨x, hx, hxy⟩ := hj.mem_lane.1 y hy
    obtain ⟨w, hw, hwz⟩ := hj.mem_lane.1 z hz
    rw [hxy.owned.id, hwz.owned.id]
    have hne' : z.nonce ≠ none := he ▸ hne
    apply h.nonces x hx w hw
    · rw [← hxy.nonce hne, ← hwz.nonce hne', he]
    · rwa [← hxy.nonce hne]
  held := by
    intro y hy
    obtain ⟨x, hx, hxy⟩ := hj.mem_lane.1 y hy
    apply hxy.held (h.held x hx)
    intro r hash hc
    obtain ⟨z, hz, hi, hs⟩ := hf x.id r hash hc
    rwa [h.eq_of_id hx hz hi.symm]
  bytes := by
    intro y hy
    obtain ⟨x, hx, hxy⟩ := hj.mem_lane.1 y hy
    exact hxy.bytes (h.bytes x hx)

theorem LaneOk.save {j' : Journal} {a : Action} {tx : Prepared} {new : Row} (h : LaneOk st j)
    (hrows : j'.rows = j.rows ++ [new]) (hs : Saved st j a tx new) (h₀ : st.activeCount j = 0) : LaneOk st j' where
  ids := by
    rw [hrows, List.map_append, List.nodup_append]
    refine ⟨h.ids, List.nodup_singleton _, ?_⟩
    intro i hi k hk
    obtain ⟨x, hx, rfl⟩ := List.mem_map.mp hi
    rw [List.mem_singleton.mp hk]
    exact hs.fresh x hx
  single := by
    rw [Store.activeCount, hrows, List.countP_append]
    have hone := List.countP_le_length (p := fun x => st.owns x && x.active) (l := [new])
    have h₀' : j.rows.countP (fun x => st.owns x && x.active) = 0 := h₀
    simp only [List.length_singleton] at hone
    omega
  nonces := by
    intro x hx y hy he hne
    rw [Store.lane, hrows, List.filter_append, List.mem_append] at hx hy
    rcases hx with hx | hx <;> rcases hy with hy | hy
    · exact h.nonces x hx y hy he hne
    · obtain rfl := List.mem_singleton.mp (List.mem_filter.mp hy).1
      obtain ⟨hx, ho⟩ := List.mem_filter.mp hx
      rw [hs.nonce] at he
      exact absurd he (hs.unused x hx ho)
    · obtain rfl := List.mem_singleton.mp (List.mem_filter.mp hx).1
      obtain ⟨hy, ho⟩ := List.mem_filter.mp hy
      rw [hs.nonce] at he
      exact absurd he.symm (hs.unused y hy ho)
    · rw [List.mem_singleton.mp (List.mem_filter.mp hx).1, List.mem_singleton.mp (List.mem_filter.mp hy).1]
  held := by
    intro x hx
    rw [Store.lane, hrows, List.filter_append, List.mem_append] at hx
    rcases hx with hx | hx
    · exact h.held x hx
    · rw [List.mem_singleton.mp (List.mem_filter.mp hx).1, Row.Held, hs.nonce, hs.state]
      simp
  bytes := by
    intro x hx hxa
    rw [Store.lane, hrows, List.filter_append, List.mem_append] at hx
    rcases hx with hx | hx
    · exact h.bytes x hx hxa
    · rw [List.mem_singleton.mp (List.mem_filter.mp hx).1, hs.raw]
      exact Option.some_ne_none _

end

/-! ## The trace -/

/-- The compare-and-set of the row `id` has succeeded. -/
def Occurrence.marks (id : Nat) : Occurrence → Bool
  | ⟨.markBroadcasting i, .ok true⟩ => i = id
  | _ => false

/-- The transaction of the row `id` has been handed to `send`. -/
def Occurrence.sends (id : Nat) : Occurrence → Bool
  | ⟨.send tx, _⟩ => tx.id = id
  | _ => false

def marks (id : Nat) (tr : List Occurrence) : Nat := tr.countP (Occurrence.marks id)

def sends (id : Nat) (tr : List Occurrence) : Nat := tr.countP (Occurrence.sends id)

/-- The receipt was found under the hash, and was final on the canonical chain. -/
def Final (tr : List Occurrence) (r : TxReceipt) (hash : Bytes32) : Prop :=
  ⟨.receipt hash, .ok (some r)⟩ ∈ tr ∧ ⟨.canonicalFinal r, .ok true⟩ ∈ tr

/-- A row that was sent has the nonce. -/
def Store.Passed (st : Store) (j : Journal) (id nonce : Nat) : Prop :=
  ∃ x ∈ st.lane j, x.id = id ∧ x.nonce = some nonce ∧ x.state.passed = true

/-- What the awaits so far have left behind, by the last of them. -/
def Justified (st : Store) (w : World) (o : Occurrence) (before : List Occurrence) : Prop :=
  match o.cmd with
  | .send tx => ⟨.markBroadcasting tx.id, .ok true⟩ ∈ before ∧ st.Passed w.journal tx.id tx.tx.nonce
  | .resend r => st.Passed w.journal r.transactionId r.replacement.nonce
  | .finish _ r hash => Final before r hash
  | _ => True

structure Inv (st : Store) (w : World) : Prop where
  lane : LaneOk st w.journal
  once : ∀ id, sends id w.trace ≤ marks id w.trace ∧ marks id w.trace ≤ 1
  marked : ∀ id, marks id w.trace ≠ 0 → ∃ x ∈ st.lane w.journal, x.id = id ∧ x.state.passed = true
  justified : ∀ before o after, w.trace = before ++ o :: after → Justified st w o before

/-- When the await may be made. -/
def Allowed (st : Store) (w : World) : Await → Prop
  | .prepare _ => st.activeCount w.journal = 0
  | .save _ _ => st.activeCount w.journal = 0
  | .finish id r hash => (∃ x ∈ st.lane w.journal, x.id = id ∧ x.state ≠ .cancelled) ∧ Final w.trace r hash
  | .send tx => sends tx.id w.trace = 0 ∧ marks tx.id w.trace = 1 ∧
      ∃ x ∈ st.lane w.journal, x.id = tx.id ∧ x.state = .broadcasting ∧ x.Carries tx.tx
  | .resend r => ∃ x ∈ st.lane w.journal, x.id = r.transactionId ∧ x.state = .unknown ∧ x.Carries r.replacement
  | .markBroadcasting id => ∃ x ∈ st.lane w.journal, x.id = id
  | _ => True

section

variable {st : Store} {keccak256 : Bytes → Bytes32} {w w' : World} {c : Await} {r : Except WorkerErr (Reply c)}
  {id : Nat}

theorem marks_append {tr : List Occurrence} {o : Occurrence} :
    marks id (tr ++ [o]) = marks id tr + if o.marks id = true then 1 else 0 := by
  simp [marks, List.countP_append, List.countP_cons]

theorem sends_append {tr : List Occurrence} {o : Occurrence} :
    sends id (tr ++ [o]) = sends id tr + if o.sends id = true then 1 else 0 := by
  simp [sends, List.countP_append, List.countP_cons]

theorem marks_iff {o : Occurrence} : o.marks id = true ↔ o = ⟨.markBroadcasting id, .ok true⟩ := by
  constructor
  · intro h
    obtain ⟨c, r⟩ := o
    unfold Occurrence.marks at h
    split at h
    · rename_i i he
      rw [he, of_decide_eq_true h]
    · cases h
  · rintro rfl
    exact decide_eq_true rfl

theorem sends_iff {o : Occurrence} : o.sends id = true ↔ ∃ tx, o.cmd = .send tx ∧ tx.id = id := by
  obtain ⟨c, r⟩ := o
  cases c <;> simp [Occurrence.sends]

theorem marks_ne_zero {tr : List Occurrence} : marks id tr ≠ 0 ↔ ⟨.markBroadcasting id, .ok true⟩ ∈ tr := by
  rw [marks, ← Nat.pos_iff_ne_zero, List.countP_pos_iff]
  constructor
  · rintro ⟨o, ho, hm⟩
    rwa [marks_iff.mp hm] at ho
  · intro h
    exact ⟨_, h, marks_iff.mpr rfl⟩

/-- The compare-and-set succeeds on a prepared row only. -/
theorem markBroadcasting_prepared {j : Journal} (now : Nat) (hd : (j.rows.map Row.id).Nodup)
    (h : (j.markBroadcasting now id).2 = true) {x : Row} (hx : x ∈ j.rows) (hi : x.id = id) : x.state = .prepared := by
  obtain ⟨t, hf, ht⟩ := (Option.any_eq_true _ _).mp h
  rw [eq_find hd hf hx hi]
  exact of_decide_eq_true ht

/-- A passed row stays, with its nonce. -/
theorem Store.Passed.step {n : Nat} (h : st.Passed w.journal id n) (hl : LaneOk st w'.journal)
    (hc : (∃ a tx new, c = .save a tx ∧ w'.journal.rows = w.journal.rows ++ [new] ∧ Saved st w.journal a tx new) ∨
      InPlace w.journal c w'.journal.rows) : st.Passed w'.journal id n := by
  obtain ⟨x, hx, hi, hn, hp⟩ := h
  rcases hc with ⟨a, tx, new, -, hrows, -⟩ | hin
  · obtain ⟨hx, ho⟩ := mem_lane.mp hx
    refine ⟨x, mem_lane.mpr ⟨?_, ho⟩, hi, hn, hp⟩
    rw [hrows]
    exact List.mem_append_left _ hx
  · obtain ⟨y, hy, hxy⟩ := hin.mem_lane.2 x hx
    have hpy := hxy.passed hp
    have hne : y.nonce ≠ none := by
      intro h₀
      rw [(hl.held y hy).mp h₀] at hpy
      cases hpy
    exact ⟨y, hy, hxy.owned.id.trans hi, (hxy.nonce hne).trans hn, hpy⟩

theorem Inv.passed (h : Inv st w) {n : Nat} (hm : marks id w.trace ≠ 0) {x : Row} (hx : x ∈ st.lane w.journal)
    (hi : x.id = id) (hn : x.nonce = some n) : st.Passed w.journal id n := by
  obtain ⟨y, hy, hyi, hp⟩ := h.marked id hm
  rw [h.lane.eq_of_id hy hx (hyi.trans hi.symm)] at hp
  exact ⟨x, hx, hi, hn, hp⟩

/-- Before the compare-and-set succeeds it has not succeeded on the row. -/
theorem Inv.marks_zero (h : Inv st w) {x : Row} (hx : x ∈ st.lane w.journal) (hi : x.id = id)
    (hs : x.state = .prepared) : marks id w.trace = 0 := by
  by_contra hm
  obtain ⟨y, hy, hyi, hp⟩ := h.marked id hm
  rw [h.lane.eq_of_id hy hx (hyi.trans hi.symm), hs] at hp
  cases hp

/-- What a successful compare-and-set has done. -/
theorem JournalEffect.marked (hd : (w.journal.rows.map Row.id).Nodup)
    (h : JournalEffect st keccak256 w w' (.markBroadcasting id) (.ok true)) {x : Row} (hx : x ∈ st.lane w.journal)
    (hi : x.id = id) : x.state = .prepared ∧ ∃ y ∈ st.lane w'.journal, y.id = id ∧ y.state = .broadcasting := by
  obtain ⟨now, h⟩ := h
  obtain ⟨a, hf, hr⟩ | ⟨-, e, he⟩ := h
  · have ha : a = true := by
      rcases hr with hr | ⟨e, hr⟩
      · exact (Except.ok.inj hr).symm
      · cases hr
    subst ha
    obtain ⟨hj, hb⟩ := Prod.mk.inj (Except.ok.inj hf)
    obtain ⟨hxr, ho⟩ := mem_lane.mp hx
    have hp : x.state = .prepared := markBroadcasting_prepared now hd hb hxr hi
    have hmark : Journal.marked now x = { x with
        state := .broadcasting
        broadcastAt := some now
        firstBroadcastAt := some (x.firstBroadcastAt.getD now) } := if_pos hp
    refine ⟨hp, Journal.marked now x, mem_lane.mpr ⟨?_, ?_⟩, ?_, ?_⟩
    · rw [← hj]
      refine List.mem_map.mpr ⟨x, hxr, ?_⟩
      rw [if_pos hi]
    · rw [hmark]
      exact ho
    · rw [hmark]
      exact hi
    · rw [hmark]
  · cases he

theorem LaneOk.step (h : Inv st w) (ha : Allowed st w c)
    (hc : (∃ a tx new, c = .save a tx ∧ w'.journal.rows = w.journal.rows ++ [new] ∧ Saved st w.journal a tx new) ∨
      InPlace w.journal c w'.journal.rows) : LaneOk st w'.journal := by
  rcases hc with ⟨a, tx, new, rfl, hrows, hs⟩ | hp
  · exact h.lane.save hrows hs ha
  · apply h.lane.inPlace hp
    rintro id r hash rfl
    exact ha.1

/-- What was justified stays so. -/
theorem Justified.step {o : Occurrence} {before : List Occurrence} (h : Justified st w o before)
    (hk : ∀ id n, st.Passed w.journal id n → st.Passed w'.journal id n) : Justified st w' o before := by
  obtain ⟨c, r⟩ := o
  cases c with
  | send tx => exact ⟨h.1, hk _ _ h.2⟩
  | resend r => exact hk _ _ h
  | finish id r hash => exact h
  | _ => trivial

/-- An allowed await keeps the invariant. -/
theorem Inv.step (h : Inv st w) (hp : Performs st keccak256 c w r w') (ha : Allowed st w c) : Inv st w' := by
  obtain ⟨htrace, he⟩ := hp
  have hchange := he.change h.lane.ids
  have hl := LaneOk.step h ha hchange
  have hkept : ∀ id n, st.Passed w.journal id n → st.Passed w'.journal id n := fun _ _ hx => hx.step hl hchange
  refine ⟨hl, ?_, ?_, ?_⟩
  · intro id
    obtain ⟨hsm, hm1⟩ := h.once id
    rw [htrace, marks_append, sends_append]
    by_cases hm : Occurrence.marks id ⟨c, r⟩ = true
    · -- the compare-and-set has succeeded for the first time
      cases marks_iff.mp hm
      obtain ⟨x, hx, hi⟩ := ha
      obtain ⟨hs, -⟩ := JournalEffect.marked h.lane.ids he hx hi
      have h₀ := h.marks_zero hx hi hs
      rw [if_pos hm]
      simp only [Occurrence.sends, Bool.false_eq_true, if_false]
      omega
    · rw [if_neg hm]
      by_cases hs : Occurrence.sends id ⟨c, r⟩ = true
      · obtain ⟨tx, htx, rfl⟩ := sends_iff.mp hs
        cases htx
        obtain ⟨hz, ho, -⟩ := ha
        rw [if_pos hs]
        omega
      · rw [if_neg hs]
        omega
  · intro id hm
    by_cases ho : Occurrence.marks id ⟨c, r⟩ = true
    · cases marks_iff.mp ho
      obtain ⟨x, hx, hi⟩ := ha
      obtain ⟨-, y, hy, hyi, hs⟩ := JournalEffect.marked h.lane.ids he hx hi
      refine ⟨y, hy, hyi, ?_⟩
      rw [hs]
      rfl
    · rw [htrace, marks_append, if_neg ho, Nat.add_zero] at hm
      obtain ⟨x, hx, hi, hpx⟩ := h.marked id hm
      have hne : x.nonce ≠ none := by
        intro h₀
        rw [(h.lane.held x hx).mp h₀] at hpx
        cases hpx
      obtain ⟨n, hn⟩ := Option.ne_none_iff_exists'.mp hne
      obtain ⟨y, hy, hyi, -, hpy⟩ := hkept id n ⟨x, hx, hi, hn, hpx⟩
      exact ⟨y, hy, hyi, hpy⟩
  · intro before o after heq
    rw [htrace] at heq
    rcases List.eq_nil_or_concat after with rfl | ⟨after', last, rfl⟩
    · -- the await itself
      obtain ⟨rfl, hlast⟩ := List.append_inj' heq rfl
      obtain rfl := (List.singleton_inj.mp hlast)
      cases c with
      | send tx =>
        obtain ⟨-, hone, x, hx, hi, -, hcarries⟩ := ha
        have hne : marks tx.id w.trace ≠ 0 := by omega
        exact ⟨marks_ne_zero.mp hne, hkept _ _ (h.passed hne hx hi hcarries.nonce)⟩
      | resend r =>
        obtain ⟨x, hx, hi, hs, hcarries⟩ := ha
        exact hkept _ _ ⟨x, hx, hi, hcarries.nonce, by rw [hs]; rfl⟩
      | finish id r hash => exact ha.2
      | _ => trivial
    · have heq' : w.trace ++ [⟨c, r⟩] = (before ++ o :: after') ++ [last] := by
        rw [heq]
        simp
      obtain ⟨hw, -⟩ := List.append_inj' heq' rfl
      exact (h.justified before o after' hw).step hkept

/-- Others keep the invariant. -/
theorem Inv.others (h : Inv st w) (ho : Others st w w') : Inv st w' := by
  have hkept : ∀ id n, st.Passed w.journal id n → st.Passed w'.journal id n := by
    intro id n hx
    unfold Store.Passed at *
    rwa [ho.lane]
  refine ⟨⟨ho.ids h.lane.ids, ?_, ?_, ?_, ?_⟩, ?_, ?_, ?_⟩
  · rw [activeCount_eq, ho.lane, ← activeCount_eq]
    exact h.lane.single
  · rw [ho.lane]
    exact h.lane.nonces
  · rw [ho.lane]
    exact h.lane.held
  · rw [ho.lane]
    exact h.lane.bytes
  · rw [ho.trace]
    exact h.once
  · rw [ho.trace, ho.lane]
    exact h.marked
  · intro before o after heq
    rw [ho.trace] at heq
    exact (h.justified before o after heq).step hkept

end

end Cpredict.Automation
