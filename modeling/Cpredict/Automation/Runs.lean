import Cpredict.Automation.Lane

/-!
# One nonce at a time

A tick that finds a pending transaction makes an end of it before it signs another one (`tri_reconcile`, `tri_tick`).
-/

namespace Cpredict.Automation

open Outcome Program

variable {W : Worker} {st : Store}

/-! ## No active row -/

/-- No row of the signer is prepared, broadcasting or unknown. -/
def Idle (st : Store) (w : World) : Prop := st.activeCount w.journal = 0

theorem lasting_idle : Lasting st (Idle st) := by
  intro w w' hl _ h
  rw [Idle, activeCount_eq, hl, ← activeCount_eq]
  exact h

theorem idle_iff {w : World} : Idle st w ↔ ∀ x ∈ st.lane w.journal, x.active = false := by
  simp [Idle, activeCount_eq, List.countP_eq_zero]

theorem LaneOk.eq_of_active {j : Journal} (h : LaneOk st j) {x y : Row} (hx : x ∈ st.lane j) (hy : y ∈ st.lane j)
    (hxa : x.active = true) (hya : y.active = true) : x = y := by
  have hle : ((st.lane j).filter Row.active).length ≤ 1 := by
    rw [← List.countP_eq_length_filter, ← activeCount_eq]
    exact h.single
  have hx' : x ∈ (st.lane j).filter Row.active := List.mem_filter.mpr ⟨hx, hxa⟩
  have hy' : y ∈ (st.lane j).filter Row.active := List.mem_filter.mpr ⟨hy, hya⟩
  generalize (st.lane j).filter Row.active = l at hle hx' hy'
  rcases l with - | ⟨z, - | ⟨z', l⟩⟩
  · cases hx'
  · rw [List.mem_singleton.mp hx', List.mem_singleton.mp hy']
  · simp at hle

/-- When the active row is no longer active, none is. -/
theorem LaneOk.idle {w w' : World} {c : Await} {x : Row} (h : LaneOk st w.journal)
    (hj : InPlace w.journal c w'.journal.rows) (hx : x ∈ st.lane w.journal) (hxa : x.active = true)
    (hend : ∀ y ∈ w'.journal.rows, y.id = x.id → y.active = false) : Idle st w' := by
  apply idle_iff.mpr
  intro y hy
  obtain ⟨z, hz, hzy⟩ := hj.mem_lane.1 y hy
  by_contra hya
  have hya' : y.active = true := by simpa using hya
  have hzx : z = x := h.eq_of_active hz hx (hzy.active hya') hxa
  have hyi : y.id = x.id := hzx ▸ hzy.owned.id
  rw [hend y (mem_lane.mp hy).1 hyi] at hya'
  cases hya'

theorem update_idle {j : Journal} {id : Nat} {f : Row → Row} (h : ∀ x ∈ j.rows, x.id = id → (f x).active = false) :
    ∀ y ∈ (j.update id f).rows, y.id = id → y.active = false := by
  intro y hy hyi
  obtain ⟨x, hx, rfl⟩ := List.mem_map.mp hy
  by_cases hi : x.id = id
  · rw [if_pos hi]
    exact h x hx hi
  · rw [if_neg hi] at hyi
    exact absurd hyi hi

/-! ## Pending transactions -/

/-- A pending record is that of the active row. -/
def Pending (st : Store) (tx : Record) (w : World) : Prop := tx.state.active = true ∧ InLane st tx w

theorem lasting_pending (tx : Record) : Lasting st (Pending st tx) := Lasting.fact.and (lasting_inLane tx)

theorem pending_length (j : Journal) : (st.pending j).length = st.activeCount j := by
  rw [Store.pending, List.length_map, (List.perm_insertionSort _ _).length_eq, activeCount_eq,
    List.countP_eq_length_filter]

theorem pending_of_mem {w : World} (h : LaneOk st w.journal) {tx : Record} (ht : tx ∈ st.pending w.journal) :
    Pending st tx w := by
  obtain ⟨x, hx, rfl⟩ := List.mem_map.mp ht
  obtain ⟨hx, hxa⟩ := List.mem_filter.mp ((List.perm_insertionSort _ _).mem_iff.mp hx)
  have hne : x.nonce ≠ none := by
    intro h₀
    rw [Row.active, (h.held x hx).mp h₀] at hxa
    cases hxa
  obtain ⟨n, hn⟩ := Option.ne_none_iff_exists'.mp hne
  obtain ⟨raw, hraw⟩ := Option.ne_none_iff_exists'.mp (h.bytes x hx hxa)
  exact ⟨hxa, x, hx, rfl, ⟨by simp [hn], rfl, by simp [hraw]⟩, rfl⟩

theorem lasting_eq_pending (l : List Record) : Lasting st fun w => l = st.pending w.journal := by
  intro w w' hl _ h
  rw [h, Store.pending, Store.pending, hl]

theorem tri_pending {P : World → Prop} (hP : Lasting st P) :
    Tri W st P (ask .pending) fun l w => l = st.pending w.journal := by
  apply tri_ask hP.stable
  · intro l
    exact (lasting_eq_pending l).stable
  · intros
    trivial
  · rintro w l w' - - ⟨-, hj, hl⟩
    rw [hj]
    exact hl l rfl

/-- A cancelled record leaves the lane idle. -/
theorem tri_cancelPrepared (tx : Record) (hs : tx.state = .prepared) :
    Tri W st (Pending st tx) (ask (.cancelPrepared tx.id)) fun _ w => Idle st w := by
  apply tri_ask (lasting_pending tx).stable fun _ => lasting_idle.stable
  · intros
    trivial
  · rintro w a w' hi ⟨hta, x, hx, hid, -, hxs⟩ ⟨-, he⟩
    obtain ⟨a, hf, -⟩ | ⟨-, e, hr⟩ := he
    · have hj : w.journal.cancelPrepared tx.id = w'.journal := (Prod.mk.inj (Except.ok.inj hf)).1
      have hin : InPlace w.journal (.cancelPrepared tx.id) w'.journal.rows := hj ▸ cancelPrepared_inPlace
      have hxa : x.active = true := by rwa [Row.active, hxs]
      apply hi.lane.idle hin hx hxa
      rw [← hj, hid]
      apply update_idle
      intro y hy hyi
      have hyx : y = x := eq_of_id hi.lane.ids hy (mem_lane.mp hx).1 (hyi.trans hid.symm)
      rw [if_pos (by rw [hyx, hxs, hs])]
      rfl
    · cases hr

theorem lasting_final (r : TxReceipt) (hash : Bytes32) : Lasting st fun w => Final w.trace r hash := by
  rintro w w' - ⟨l, hl⟩ ⟨h, h'⟩
  rw [hl]
  exact ⟨List.mem_append_left l h, List.mem_append_left l h'⟩

/-- The end of a record leaves the lane idle. -/
theorem tri_finish (tx : Record) (r : TxReceipt) (hash : Bytes32) :
    Tri W st (fun w => Pending st tx w ∧ Final w.trace r hash) (ask (.finish tx.id r hash)) fun _ w => Idle st w := by
  apply tri_ask ((lasting_pending tx).and (lasting_final r hash)).stable fun _ => lasting_idle.stable
  · rintro w - ⟨⟨hta, x, hx, hid, -, hxs⟩, hf⟩
    refine ⟨⟨x, hx, hid, ?_⟩, hf⟩
    rintro hc
    rw [← hxs, hc] at hta
    cases hta
  · rintro w a w' hi ⟨⟨hta, x, hx, hid, -, hxs⟩, -⟩ ⟨-, now, he⟩
    obtain ⟨a, hf, -⟩ | ⟨-, e, hr⟩ := he
    · cases hok : w.journal.finish now tx.id r hash with
      | error e =>
        rw [hok] at hf
        cases hf
      | ok j =>
        rw [hok] at hf
        have hj : j = w'.journal := (Prod.mk.inj (Except.ok.inj hf)).1
        subst hj
        have hxa : x.active = true := by rwa [Row.active, hxs]
        apply hi.lane.idle (finish_ok hi.lane.ids hok) hx hxa
        simp only [Journal.finish, bind_eq_ok, Except.ok.injEq] at hok
        obtain ⟨t, -, _, -, hj⟩ := hok
        rw [← hj, hid]
        apply update_idle
        intro y _ _
        simp only [Journal.finished, Row.active]
        split <;> rfl
    · cases hr

/-! ## Receipts -/

/-- A receipt was found under its hash. -/
def Found (found : Option (TxReceipt × Bytes32)) (w : World) : Prop :=
  ∀ r hash, found = some (r, hash) → ⟨.receipt hash, .ok (some r)⟩ ∈ w.trace

theorem lasting_found (found : Option (TxReceipt × Bytes32)) : Lasting st (Found found) := by
  rintro w w' - ⟨l, hl⟩ h r hash hf
  rw [hl]
  exact List.mem_append_left l (h r hash hf)

section

variable {P : World → Prop}

theorem tri_receipt (hP : Lasting st P) (hash : Bytes32) :
    Tri W st P (ask (.receipt hash)) fun a w => P w ∧ Found (a.map (·, hash)) w := by
  apply tri_ask hP.stable
  · intro a
    exact (hP.and (lasting_found _)).stable
  · intro w _ _
    exact quiet_allowed rfl w
  · rintro w a w' - hp he
    refine ⟨he.lasting rfl hP hp, ?_⟩
    intro r hash' hf
    obtain ⟨r', rfl, hr⟩ := Option.map_eq_some_iff.mp hf
    cases hr
    rw [he.1]
    exact List.mem_append_right _ (List.mem_singleton_self _)

theorem tri_replacedReceipt (hP : Lasting st P) (hashes : List Bytes32) :
    Tri W st P (Worker.replacedReceipt hashes) fun found w => P w ∧ Found found w := by
  induction hashes with
  | nil => exact tri_ret hP fun _ h => ⟨h, fun _ _ he => by cases he⟩
  | cons hash rest ih =>
    apply tri_bind (tri_receipt hP hash)
    intro a
    cases a with
    | none => exact Triple.pre (fun _ _ h => h.1) ih
    | some r => exact tri_ret (hP.and (lasting_found _)) fun _ => id

theorem tri_findReceipt (hP : Lasting st P) (tx : Record) :
    Tri W st P (Worker.findReceipt tx) fun found w => P w ∧ Found found w := by
  apply tri_bind (tri_receipt hP tx.tx.hash)
  intro a
  cases a with
  | none =>
    apply Triple.pre fun _ _ h => h.1
    exact tri_bind (tri_quiet rfl hP) fun hashes => tri_replacedReceipt hP hashes
  | some r => exact tri_ret (hP.and (lasting_found _)) fun _ => id

theorem tri_isFinal (hP : Lasting st P) (found : Option (TxReceipt × Bytes32)) :
    Tri W st (fun w => P w ∧ Found found w) (Worker.isFinal found) fun res w =>
      P w ∧ ∀ r hash, res = some (r, hash) → Final w.trace r hash := by
  cases found with
  | none => exact tri_ret (hP.and (lasting_found none)) fun w h => ⟨h.1, fun _ _ he => by cases he⟩
  | some f =>
    obtain ⟨r, hash⟩ := f
    have hfound : Lasting st (Found (some (r, hash))) := lasting_found _
    have hpre := hP.and hfound
    have hfin : Tri W st (fun w => P w ∧ Found (some (r, hash)) w) (ask (.canonicalFinal r)) fun b w =>
        P w ∧ (b = true → Final w.trace r hash) := by
      apply tri_ask hpre.stable (fun b => (hP.and (lasting_final r hash).imp).stable) fun w _ _ => quiet_allowed rfl w
      rintro w b w' - h he
      obtain ⟨hp, hf⟩ := he.lasting rfl hpre h
      refine ⟨hp, ?_⟩
      rintro rfl
      refine ⟨hf r hash rfl, ?_⟩
      rw [he.1]
      exact List.mem_append_right _ (List.mem_singleton_self _)
    apply tri_bind hfin
    intro b
    apply tri_ret (hP.and (lasting_final r hash).imp)
    rintro w ⟨hp, hf⟩
    refine ⟨hp, ?_⟩
    intro r' hash' he
    split at he
    · rename_i hb
      cases he
      exact hf hb
    · cases he

end

/-! ## reconcile -/

/-- A pending record that has not been sent: when it is out of the way the lane is idle. -/
theorem tri_resume (tx : Record) (hs : tx.state = .prepared) :
    Tri W st (Pending st tx) (W.resume tx) fun b w => b = true → Idle st w := by
  have hP : Lasting st (Pending st tx) := lasting_pending tx
  have hcancel : Tri W st (Pending st tx) (ask (.cancelPrepared tx.id) >>= fun _ => ret true) fun b w =>
      b = true → Idle st w :=
    tri_bind (tri_cancelPrepared tx hs) fun _ => tri_ret lasting_idle fun _ h _ => h
  have hstay : ∀ P : World → Prop, Lasting st P → Tri W st P (ret false : Work Bool) fun b w => b = true → Idle st w :=
    fun P hP => tri_ret hP fun _ _ h => absurd h Bool.false_ne_true
  apply tri_bind (keeps_optedOut hP tx.action)
  intro out
  split
  · exact hcancel
  · apply tri_bind (tri_quiet rfl hP)
    intro eligible
    split
    · exact hcancel
    · split
      · exact tri_bind (keeps_setStatus hP _ _ _) fun _ => hstay _ hP
      · apply tri_bind (tri_quiet rfl hP)
        intro spent
        split
        · exact tri_bind (keeps_setStatus hP _ _ _) fun _ => hstay _ hP
        · apply tri_bind (tri_quiet rfl hP)
          intro balance
          split
          · exact tri_bind (keeps_setStatus hP _ _ _) fun _ => hstay _ hP
          · apply tri_bind (keeps_canSubmit hP tx.action)
            intro ready
            split
            · apply Triple.pre fun _ _ h => h.2
              exact tri_bind (tri_broadcast tx) fun _ => hstay _ lasting_true
            · exact hstay _ hP

theorem tri_recoverMissing (tx : Record) (found : Option (TxReceipt × Bytes32)) :
    Tri W st (fun _ => True) (W.recoverMissing tx found) fun _ _ => True := by
  unfold Worker.recoverMissing
  split
  · apply tri_bind (tri_quiet rfl lasting_true)
    intro due
    split
    · exact tri_automatic tx
    · exact tri_ret lasting_true fun _ => id
  · exact tri_ret lasting_true fun _ => id

theorem tri_reconcile (tx : Record) :
    Tri W st (Pending st tx) (W.reconcile tx) fun b w => b = true → Idle st w := by
  have hP : Lasting st (Pending st tx) := lasting_pending tx
  apply tri_bind (tri_findReceipt hP tx)
  intro found
  apply tri_bind (tri_isFinal hP found)
  intro res
  cases res with
  | some f =>
    obtain ⟨r, hash⟩ := f
    apply Triple.pre fun w _ h => (⟨h.1, h.2 r hash rfl⟩ : Pending st tx w ∧ Final w.trace r hash)
    apply tri_bind (tri_finish tx r hash)
    intro _
    exact tri_bind (keeps_setStatus lasting_idle _ _ _) fun _ => tri_ret lasting_idle fun _ h _ => h
  | none =>
    apply Triple.pre fun _ _ h => h.1
    simp only
    split
    · rename_i hs
      exact tri_resume tx hs
    · apply tri_bind (keeps_setStatus hP _ _ _)
      intro _
      apply Triple.pre (P := fun _ => True) fun _ _ _ => trivial
      exact tri_bind (tri_recoverMissing tx found) fun _ => tri_ret lasting_true fun _ _ h =>
        absurd h Bool.false_ne_true

/-- There is at most one pending transaction, and after it the lane is idle. -/
theorem tri_reconcileAll (l : List Record) :
    Tri W st (fun w => l = st.pending w.journal) (W.reconcileAll l) fun b w => b = true → Idle st w := by
  rcases l with - | ⟨tx, - | ⟨tx', rest⟩⟩
  · apply Triple.pre (P := Idle st)
    · intro w _ h
      rw [Idle, ← pending_length, ← h]
      rfl
    · exact tri_ret lasting_idle fun _ h _ => h
  · apply Triple.pre (P := Pending st tx)
    · intro w hi h
      exact pending_of_mem hi.lane (h ▸ List.mem_singleton_self tx)
    · apply tri_bind (tri_reconcile tx)
      intro b
      split
      · rename_i hb
        apply Triple.pre fun w _ h => h hb
        exact tri_ret lasting_idle fun _ h _ => h
      · rename_i hb
        apply Triple.pre (P := fun _ => True) fun _ _ _ => trivial
        exact tri_ret lasting_true fun _ _ h => absurd h Bool.false_ne_true
  · intro w hi h
    have hle := hi.lane.single
    rw [← pending_length, ← h] at hle
    simp at hle

/-! ## submit -/

theorem tri_prepare (a : Action) : Tri W st (Idle st) (ask (.prepare a)) fun _ => Idle st := by
  apply tri_ask lasting_idle.stable fun _ => lasting_idle.stable
  · intro w _ h
    exact h
  · rintro w p w' - h ⟨-, hj⟩
    have hj' : w'.journal = w.journal := hj
    rwa [Idle, hj']

/-- The record that has been saved is that of a row of the lane. -/
theorem tri_save (a : Action) (p : Prepared) :
    Tri W st (Idle st) (ask (.save a p)) fun tx w => InLane st tx w := by
  apply tri_ask lasting_idle.stable
  · intro tx
    exact (lasting_inLane tx).stable
  · intro w _ h
    exact h
  · rintro w tx w' - h ⟨-, now, id, candidate, he⟩
    obtain ⟨rec, hs, hr⟩ | ⟨-, e, hr⟩ := he
    · have hrec : tx = rec := by
        rcases hr with hr | ⟨e, hr⟩
        · exact Except.ok.inj hr
        · cases hr
      obtain ⟨rfl, new, hrows, hid, hsaved⟩ := save_ok hs
      rw [hrec]
      refine ⟨new, mem_lane.mpr ⟨?_, hsaved.owned⟩, hid, ⟨hsaved.nonce, hsaved.hash, hsaved.raw⟩, hsaved.state⟩
      rw [hrows]
      exact List.mem_append_right _ (List.mem_singleton_self new)
    · cases hr

theorem tri_submit (a : Action) : Tri W st (Idle st) (W.submit a) fun b w => b = true → Idle st w := by
  have hP : Lasting st (Idle st) := lasting_idle
  have hnext : Tri W st (Idle st) (ret true : Work Bool) fun b w => b = true → Idle st w := tri_ret hP fun _ h _ => h
  have hstop : ∀ P : World → Prop, Lasting st P → Tri W st P (ret false : Work Bool) fun b w => b = true → Idle st w :=
    fun P hP => tri_ret hP fun _ _ h => absurd h Bool.false_ne_true
  apply tri_bind (tri_quiet rfl hP)
  intro eligible
  split
  · exact tri_bind (tri_quiet rfl hP) fun _ => hnext
  · apply tri_bind (keeps_optedOut hP a)
    intro out
    split
    · exact tri_bind (tri_quiet rfl hP) fun _ => hnext
    · apply tri_bind (tri_quiet rfl hP)
      intro balance
      split
      · exact tri_bind (keeps_setStatus hP _ _ _) fun _ => hstop _ hP
      · apply tri_bind (keeps_canSubmit hP a)
        intro ready
        split
        · apply tri_bind (tri_prepare a)
          intro p
          split
          · exact tri_fail
          · split
            · exact tri_fail
            · apply tri_bind (tri_quiet rfl hP)
              intro spent
              split
              · exact tri_bind (keeps_setStatus hP _ _ _) fun _ => hstop _ hP
              · apply tri_bind (tri_quiet rfl hP)
                intro balance
                split
                · exact tri_bind (keeps_setStatus hP _ _ _) fun _ => hstop _ hP
                · apply tri_bind (tri_save a p)
                  intro tx
                  exact tri_bind (tri_broadcast tx) fun _ => hstop _ lasting_true
        · exact hstop _ hP

theorem tri_candidate (a : Action) : Tri W st (Idle st) (W.candidate a) fun b w => b = true → Idle st w := by
  have hP : Lasting st (Idle st) := lasting_idle
  apply tri_bind (keeps_optedOut hP a)
  intro out
  split
  · exact tri_bind (tri_quiet rfl hP) fun _ => tri_ret hP fun _ h _ => h
  · apply tri_bind (Triple.attempt (tri_submit a))
    intro res
    cases res with
    | ok next =>
      apply Triple.pre fun w _ h => (h next rfl : next = true → Idle st w)
      exact tri_ret lasting_idle.imp fun _ => id
    | error e =>
      apply Triple.pre (P := fun _ => True) fun _ _ _ => trivial
      apply tri_bind (keeps_setStatus lasting_true _ _ _)
      intro _
      apply tri_bind (tri_pending lasting_true)
      intro l
      apply tri_ret (lasting_eq_pending l)
      intro w h hl
      rw [Idle, ← pending_length, ← h, List.isEmpty_iff.mp hl]
      rfl

theorem tri_candidates (n : Nat) : Tri W st (Idle st) (W.candidates n) fun _ _ => True := by
  have hP : Lasting st (Idle st) := lasting_idle
  induction n with
  | zero => exact tri_bind (tri_quiet rfl hP) fun _ => tri_ret hP fun _ _ => trivial
  | succ n ih =>
    apply tri_bind (tri_quiet rfl hP)
    intro next
    cases next with
    | none => exact tri_ret hP fun _ _ => trivial
    | some a =>
      apply tri_bind (tri_candidate a)
      intro b
      split
      · rename_i hb
        exact Triple.pre (fun w _ h => h hb) ih
      · apply Triple.pre (P := fun _ => True) fun _ _ _ => trivial
        exact tri_ret lasting_true fun _ => id

theorem tri_tick : Tri W st (fun _ => True) W.tick fun _ _ => True := by
  apply tri_bind (tri_free (c := .auditCanonical) lasting_true fun _ => trivial)
  intro orphaned
  apply tri_bind (keeps_setStatuses lasting_true orphaned)
  intro _
  apply tri_bind (tri_pending lasting_true)
  intro l
  apply tri_bind (tri_reconcileAll l)
  intro b
  split
  · rename_i hb
    exact Triple.pre (fun w _ h => h hb) (tri_candidates _)
  · apply Triple.pre (P := fun _ => True) fun _ _ _ => trivial
    exact tri_ret lasting_true fun _ => id

end Cpredict.Automation
