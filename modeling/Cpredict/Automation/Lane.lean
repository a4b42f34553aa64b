import Cpredict.Automation.Invariant

/-!
# The awaits of the lane

Triples for the awaits of the worker, for a broadcast and for a recovery: each keeps the invariant of the lane from
every point where it may be cut off.
-/

namespace Cpredict.Automation

open Outcome Program

variable {W : Worker} {st : Store}

/-- The triples of the worker. -/
abbrev Tri (W : Worker) (st : Store) {α : Type} (P : World → Prop) (p : Work α) (Q : α → World → Prop) : Prop :=
  Triple (Performs st W.keccak256) (Others st) (fun c w => Allowed st w c) (Inv st) P p Q

/-- An assertion on the lane and on what the trace holds. -/
def Lasting (st : Store) (P : World → Prop) : Prop :=
  ∀ w w', st.lane w'.journal = st.lane w.journal → (∃ l, w'.trace = w.trace ++ l) → P w → P w'

theorem Others.refl (w : World) : Others st w w := ⟨rfl, rfl, id, fun _ _ => rfl⟩

theorem Others.trans {w w₁ w' : World} (h : Others st w w₁) (h' : Others st w₁ w') : Others st w w' where
  trace := h'.trace.trans h.trace
  lane := h'.lane.trans h.lane
  ids := fun hd => h'.ids (h.ids hd)
  recoveries := by
    intro x hx
    rw [h'.recoveries x (by rwa [h.lane]), h.recoveries x hx]

theorem stable_inv : Stable (Others st) (Inv st) := fun _ _ ho hi => hi.others ho

theorem Lasting.stable {P : World → Prop} (h : Lasting st P) : Stable (Others st) P := fun _ _ ho hp =>
  h _ _ ho.lane ⟨[], by rw [ho.trace, List.append_nil]⟩ hp

theorem lasting_true : Lasting st fun _ => True := fun _ _ _ _ _ => trivial

theorem Lasting.and {P Q : World → Prop} (hP : Lasting st P) (hQ : Lasting st Q) : Lasting st fun w => P w ∧ Q w :=
  fun w w' hl ht h => ⟨hP w w' hl ht h.1, hQ w w' hl ht h.2⟩

theorem Lasting.imp {φ : Prop} {P : World → Prop} (hP : Lasting st P) : Lasting st fun w => φ → P w :=
  fun w w' hl ht h hφ => hP w w' hl ht (h hφ)

theorem Lasting.fact {φ : Prop} : Lasting st fun _ => φ := fun _ _ _ _ => id

/-! ## Awaits -/

section

variable {P : World → Prop}

theorem tri_ask {c : Await} {Q : Reply c → World → Prop} (hP : Stable (Others st) P)
    (hQ : ∀ a, Stable (Others st) (Q a))
    (ha : ∀ w, Inv st w → P w → Allowed st w c)
    (h : ∀ w a w', Inv st w → P w → Performs st W.keccak256 c w (.ok a) w' → Q a w') : Tri W st P (ask c) Q := by
  apply Triple.await stable_inv hP hQ ha
  intro w r w' hi hp he
  refine ⟨hi.step he (ha w hi hp), ?_⟩
  rintro a rfl
  exact h w a w' hi hp he

/-- The awaits that change nothing and that nothing is asked of. -/
def Await.quiet : Await → Bool
  | .status _ _ => true
  | .reject _ _ => true
  | .pending => true
  | .receipt _ => true
  | .recoveryHashes _ => true
  | .canonicalFinal _ => true
  | .enabled _ => true
  | .eligible _ => true
  | .spentToday _ => true
  | .balance => true
  | .submissionReady => true
  | .nextCandidate => true
  | .validate _ => true
  | .validation _ _ => true
  | .recoveryCheckDue _ => true
  | .quorumVerify _ _ => true
  | .prepareRecovery _ => true
  | _ => false

theorem quiet_journal {c : Await} (hq : c.quiet = true) {w w' : World} {r : Except WorkerErr (Reply c)}
    (h : JournalEffect st W.keccak256 w w' c r) : w'.journal = w.journal := by
  cases c with
  | pending => exact h.1
  | recoveryHashes id => exact h.1
  | auditCanonical => cases hq
  | finish id r hash => cases hq
  | cancelPrepared id => cases hq
  | save a tx => cases hq
  | markBroadcasting id => cases hq
  | send tx => cases hq
  | markUnknown id => cases hq
  | saveRecovery tx p => cases hq
  | startRecovery tx r => cases hq
  | resend r => cases hq
  | recoverySubmitted id => cases hq
  | recoveryCheck id manual => cases hq
  | _ => exact h

theorem quiet_allowed {c : Await} (hq : c.quiet = true) (w : World) : Allowed st w c := by
  cases c with
  | finish id r hash => cases hq
  | save a tx => cases hq
  | markBroadcasting id => cases hq
  | prepare a => cases hq
  | send tx => cases hq
  | resend r => cases hq
  | _ => trivial

theorem Performs.lasting {c : Await} (hq : c.quiet = true) {w w' : World} {r : Except WorkerErr (Reply c)}
    (hP : Lasting st P) (h : Performs st W.keccak256 c w r w') (hp : P w) : P w' := by
  refine hP w w' ?_ ⟨_, h.1⟩ hp
  rw [quiet_journal hq h.2]

/-- A quiet await keeps every lasting assertion. -/
theorem tri_quiet {c : Await} (hq : c.quiet = true) (hP : Lasting st P) : Tri W st P (ask c) fun _ => P :=
  tri_ask hP.stable (fun _ => hP.stable) (fun w _ _ => quiet_allowed hq w) fun _ _ _ _ hp he => he.lasting hq hP hp

/-- An await that is always allowed, whatever it does. -/
theorem tri_free {c : Await} (hP : Lasting st P) (ha : ∀ w, Allowed st w c) : Tri W st P (ask c) fun _ _ => True :=
  tri_ask hP.stable (fun _ => lasting_true.stable) (fun w _ _ => ha w) fun _ _ _ _ _ _ => trivial

theorem tri_bind {α β : Type} {p : Work α} {f : α → Work β} {Q : α → World → Prop} {Q' : β → World → Prop}
    (hp : Tri W st P p Q) (hf : ∀ a, Tri W st (Q a) (f a) Q') : Tri W st P (p >>= f) Q' :=
  Triple.bind Others.refl stable_inv hp hf

theorem tri_ret {α : Type} {a : α} {Q : α → World → Prop} (hP : Lasting st P) (h : ∀ w, P w → Q a w) :
    Tri W st P (ret a) Q := Triple.ret stable_inv hP.stable h

theorem tri_fail {α : Type} {e : WorkerErr} {Q : α → World → Prop} : Tri W st P (fail e : Work α) Q :=
  Triple.fail stable_inv

/-- What a program asks keeps the assertion. -/
abbrev Keeps (W : Worker) (st : Store) {α : Type} (P : World → Prop) (p : Work α) : Prop := Tri W st P p fun _ => P

theorem keeps_setStatus (hP : Lasting st P) (a : Action) (reason : String) (q : Option String) :
    Keeps W st P (setStatus a reason q) := by
  apply tri_bind (tri_quiet rfl hP)
  intro _
  split
  · exact tri_ret hP fun _ => id
  · exact tri_quiet rfl hP

theorem keeps_setStatuses (hP : Lasting st P) (as : List Action) : Keeps W st P (setStatuses as) := by
  induction as with
  | nil => exact tri_ret hP fun _ => id
  | cons a rest ih => exact tri_bind (keeps_setStatus hP a _ _) fun _ => ih

theorem keeps_optedOut (hP : Lasting st P) (a : Action) : Keeps W st P (optedOut a) := by
  unfold optedOut
  split
  · exact tri_bind (tri_quiet rfl hP) fun _ => tri_ret hP fun _ => id
  · exact tri_ret hP fun _ => id

theorem keeps_canSubmit (hP : Lasting st P) (a : Action) : Keeps W st P (canSubmit a) := by
  apply tri_bind (tri_quiet rfl hP)
  intro ready
  split
  · exact tri_ret hP fun _ => id
  · exact tri_bind (keeps_setStatus hP a _ _) fun _ => tri_ret hP fun _ => id

end

/-! ## broadcast -/

/-- The record is that of a row of the lane. -/
def InLane (st : Store) (tx : Record) (w : World) : Prop :=
  ∃ x ∈ st.lane w.journal, x.id = tx.id ∧ x.Carries tx.tx ∧ x.state = tx.state

/-- The row of the record has just become broadcasting. -/
structure Marked (st : Store) (tx : Record) (w : World) : Prop where
  sends : sends tx.id w.trace = 0
  marks : marks tx.id w.trace = 1
  row : ∃ x ∈ st.lane w.journal, x.id = tx.id ∧ x.state = .broadcasting ∧ x.Carries tx.tx

theorem lasting_inLane (tx : Record) : Lasting st (InLane st tx) := by
  intro w w' hl _ h
  unfold InLane at *
  rwa [hl]

theorem stable_marked (tx : Record) : Stable (Others st) (Marked st tx) := by
  intro w w' ho h
  refine ⟨?_, ?_, ?_⟩
  · rw [ho.trace]
    exact h.sends
  · rw [ho.trace]
    exact h.marks
  · rw [ho.lane]
    exact h.row

theorem keeps_exceedsBudget {P : World → Prop} (hP : Lasting st P) (tx : Record) :
    Keeps W st P (W.exceedsBudget tx) := by
  unfold Worker.exceedsBudget
  split
  · exact tri_ret hP fun _ => id
  · exact tri_bind (tri_quiet rfl hP) fun _ => tri_ret hP fun _ => id

theorem tri_lastChecks (tx : Record) :
    Tri W st (InLane st tx) (W.lastChecks tx) fun b w => b = true → InLane st tx w := by
  have hP : Lasting st (InLane st tx) := lasting_inLane tx
  have hstop : ∀ P : World → Prop, Lasting st P →
      Tri W st P (ret false : Work Bool) fun b w => b = true → InLane st tx w := by
    intro P hP
    exact tri_ret hP fun _ _ h => absurd h Bool.false_ne_true
  apply tri_bind (tri_quiet rfl hP)
  intro _
  apply tri_bind (keeps_optedOut hP tx.action)
  intro out
  split
  · exact tri_bind (tri_free hP fun _ => trivial) fun _ => hstop _ lasting_true
  · apply tri_bind (keeps_exceedsBudget hP tx)
    intro exceeds
    split
    · exact tri_bind (keeps_setStatus hP _ _ _) fun _ => hstop _ hP
    · apply tri_bind (tri_quiet rfl hP)
      intro balance
      split
      · exact tri_bind (keeps_setStatus hP _ _ _) fun _ => hstop _ hP
      · exact tri_ret hP fun _ h _ => h

/-- After its success the compare-and-set has succeeded once, and nothing has been sent for the row. -/
theorem tri_mark (tx : Record) :
    Tri W st (InLane st tx) (ask (.markBroadcasting tx.id)) fun b w => b = true → Marked st tx w := by
  apply tri_ask (lasting_inLane tx).stable
  · intro b w w' ho h hb
    exact stable_marked tx w w' ho (h hb)
  · rintro w hi ⟨x, hx, hid, -, -⟩
    exact ⟨x, hx, hid⟩
  · rintro w b w' hi ⟨x, hx, hid, hcarries, -⟩ ⟨htrace, he⟩ rfl
    obtain ⟨hs, z, hz, hzi, hzs⟩ := JournalEffect.marked hi.lane.ids he hx hid
    have hm := hi.marks_zero hx hid hs
    have h₀ := (hi.once tx.id).1
    refine ⟨?_, ?_, ?_⟩
    · rw [htrace, sends_append]
      simp only [Occurrence.sends, Bool.false_eq_true, if_false]
      omega
    · rw [htrace, marks_append, hm, if_pos (marks_iff.mpr rfl)]
    · rcases he.change hi.lane.ids with ⟨a, p, new, hc, -, -⟩ | hin
      · cases hc
      · obtain ⟨y, hy, hxy⟩ := hin.mem_lane.2 x hx
        have hyi := hxy.owned.id.trans hid
        have hyz : y = z := eq_of_id (hin.ids ▸ hi.lane.ids) (mem_lane.mp hy).1 (mem_lane.mp hz).1 (hyi.trans hzi.symm)
        exact ⟨y, hy, hyi, hyz ▸ hzs, hxy.carries hcarries⟩

theorem tri_sendRaw (tx : Record) : Tri W st (Marked st tx) (Worker.sendRaw tx) fun _ _ => True := by
  have hsend : Tri W st (Marked st tx) (ask (.send tx)) fun _ _ => True := by
    apply tri_ask (stable_marked tx) fun _ => lasting_true.stable
    · intro w _ h
      exact ⟨h.sends, h.marks, h.row⟩
    · intros
      trivial
  apply tri_bind hsend
  intro hash
  split
  · exact tri_fail
  · exact tri_ret lasting_true fun _ => id

theorem keeps_cancelInvalid (tx : Record) (e : WorkerErr) : Keeps W st (fun _ => True) (Worker.cancelInvalid tx e) := by
  unfold Worker.cancelInvalid
  split
  · exact tri_free lasting_true fun _ => trivial
  · exact tri_ret lasting_true fun _ => id

/-- A broadcast of a row of the lane. -/
theorem tri_broadcast (tx : Record) : Tri W st (InLane st tx) (W.broadcast tx) fun _ _ => True := by
  have hP : Lasting st (InLane st tx) := lasting_inLane tx
  apply tri_bind (Triple.attempt (tri_lastChecks tx))
  intro r
  cases r with
  | error e =>
    apply Triple.pre (P := fun _ => True) fun _ _ _ => trivial
    apply tri_bind (tri_quiet rfl lasting_true)
    intro _
    exact tri_bind (keeps_cancelInvalid tx e) fun _ => tri_fail
  | ok b =>
    cases b with
    | false =>
      apply Triple.pre (P := fun _ => True) fun _ _ _ => trivial
      exact tri_ret lasting_true fun _ => id
    | true =>
      apply Triple.pre fun w _ h => h true rfl rfl
      apply tri_bind (tri_quiet rfl hP)
      intro _
      apply tri_bind (tri_mark tx)
      intro b
      split
      · rename_i hb
        apply Triple.pre fun w _ h => h hb
        apply tri_bind (Triple.attempt (tri_sendRaw tx))
        intro result
        apply Triple.pre (P := fun _ => True) fun _ _ _ => trivial
        apply tri_bind (tri_free (c := .markUnknown tx.id) lasting_true fun _ => trivial)
        intro _
        apply tri_bind (Triple.ofExcept stable_inv lasting_true.stable fun _ _ _ _ => trivial)
        intro _
        exact keeps_setStatus lasting_true _ _ _
      · apply Triple.pre (P := fun _ => True) fun _ _ _ => trivial
        exact tri_ret lasting_true fun _ => id

/-! ## AutomationRecovery -/

section

variable {P : World → Prop}

theorem tri_stopUnless (hP : Lasting st P) (b : Bool) (reason : RecoveryStop) :
    Tri W st P (Worker.stopUnless b reason) fun _ w => b = true ∧ P w := by
  unfold Worker.stopUnless
  split
  · rename_i hb
    exact tri_ret hP fun _ h => ⟨hb, h⟩
  · exact tri_fail

theorem keeps_stopUnless (hP : Lasting st P) (b : Bool) (reason : RecoveryStop) :
    Keeps W st P (Worker.stopUnless b reason) := Triple.post (fun _ _ h => h.2) (tri_stopUnless hP b reason)

theorem keeps_admission (hP : Lasting st P) (tx : Record) : Keeps W st P (Worker.admission tx) := by
  apply tri_bind (keeps_optedOut hP tx.action)
  intro out
  apply tri_bind (keeps_stopUnless hP _ _)
  intro _
  exact tri_bind (tri_quiet rfl hP) fun _ => keeps_stopUnless hP _ _

theorem keeps_admitReplacement (hP : Lasting st P) (tx : Record) (p : Prepared) :
    Keeps W st P (W.admitReplacement tx p) := by
  apply tri_bind (keeps_admission hP tx)
  intro _
  split
  · exact tri_fail
  · split
    · exact tri_fail
    · apply tri_bind (tri_quiet rfl hP)
      intro spent
      split
      · exact tri_fail
      · exact tri_bind (tri_quiet rfl hP) fun _ => keeps_stopUnless hP _ _

theorem keeps_recoveryReady (hP : Lasting st P) : Keeps W st P Worker.recoveryReady :=
  tri_bind (tri_quiet rfl hP) fun _ => keeps_stopUnless hP _ _

end

theorem tri_prepareRecovery (tx : Record) : Tri W st (fun _ => True) (W.prepareRecovery tx) fun _ _ => True := by
  have hP : Lasting st fun _ => True := lasting_true
  apply tri_bind (keeps_stopUnless hP _ _)
  intro _
  apply tri_bind (tri_quiet rfl hP)
  intro _
  apply tri_bind (keeps_admission hP tx)
  intro _
  apply tri_bind (keeps_recoveryReady hP)
  intro _
  apply tri_bind (tri_quiet rfl hP)
  intro replacement
  apply tri_bind (keeps_admitReplacement hP tx replacement)
  intro _
  apply tri_bind (tri_quiet rfl hP)
  intro _
  exact tri_free hP fun _ => trivial

/-- The row of a recovery has taken the replacement. -/
def Replaced (st : Store) (id : Nat) (p : Prepared) (w : World) : Prop :=
  ∃ x ∈ st.lane w.journal, x.id = id ∧ x.state = .unknown ∧ x.Carries p

theorem lasting_replaced (id : Nat) (p : Prepared) : Lasting st (Replaced st id p) := by
  intro w w' hl _ h
  unfold Replaced at *
  rwa [hl]

/-- A recovery that has been started is that of a row that was sent. -/
theorem tri_startRecovery (tx : Record) (r : Recovery) :
    Tri W st (fun _ => True) (ask (.startRecovery tx r)) fun b w => b = true → Replaced st tx.id r.replacement w := by
  apply tri_ask lasting_true.stable
  · intro b w w' ho h hb
    exact (lasting_replaced _ _).stable w w' ho (h hb)
  · intros
    trivial
  · rintro w b w' hi - ⟨-, he⟩ rfl
    obtain ⟨now, ⟨a, hf, hr⟩ | ⟨-, e, hr⟩⟩ := he
    · have ha : a = true := by
        rcases hr with hr | ⟨e, hr⟩
        · exact (Except.ok.inj hr).symm
        · cases hr
      have hres := Except.ok.inj hf
      have hrow := (startRecovery_ok hi.lane.ids).2 (by rw [hres, ha])
      rw [hres] at hrow
      exact hrow
    · cases hr

theorem tri_resendRaw (r : Recovery) :
    Tri W st (Replaced st r.transactionId r.replacement) (Worker.resendRaw r) fun _ _ => True := by
  have hresend : Tri W st (Replaced st r.transactionId r.replacement) (ask (.resend r)) fun _ _ => True :=
    tri_ask (lasting_replaced _ _).stable (fun _ => lasting_true.stable) (fun _ _ h => h) fun _ _ _ _ _ _ => trivial
  apply tri_bind hresend
  intro hash
  split
  · exact tri_fail
  · exact tri_ret lasting_true fun _ => id

theorem tri_broadcastRecovery (tx : Record) (r : Recovery) :
    Tri W st (fun _ => True) (W.broadcastRecovery tx r) fun _ _ => True := by
  have hP : Lasting st fun _ => True := lasting_true
  apply tri_bind (tri_stopUnless hP _ _)
  intro _
  apply Triple.fact
  intro hb
  simp only [Bool.and_eq_true, decide_eq_true_eq] at hb
  apply tri_bind (tri_quiet rfl hP)
  intro _
  apply tri_bind (keeps_admitReplacement hP tx _)
  intro _
  apply tri_bind (keeps_recoveryReady hP)
  intro _
  apply tri_bind (tri_quiet rfl hP)
  intro _
  apply tri_bind (keeps_admitReplacement hP tx _)
  intro _
  apply tri_bind (tri_startRecovery tx r)
  intro started
  apply tri_bind (tri_stopUnless (lasting_replaced tx.id r.replacement).imp _ _)
  intro _
  apply Triple.pre fun w _ h => (hb.2 ▸ h.2 h.1 : Replaced st r.transactionId r.replacement w)
  apply tri_bind (Triple.attempt (tri_resendRaw r))
  intro _
  apply Triple.pre (P := fun _ => True) fun _ _ _ => trivial
  exact tri_free hP fun _ => trivial

/-- A recovery, whatever its outcome. -/
theorem tri_automatic (tx : Record) : Tri W st (fun _ => True) (W.automatic tx) fun _ _ => True := by
  have hboth : Tri W st (fun _ => True) (W.prepareRecovery tx >>= fun r => W.broadcastRecovery tx r) fun _ _ => True :=
    tri_bind (tri_prepareRecovery tx) fun r => tri_broadcastRecovery tx r
  apply tri_bind (Triple.attempt hboth)
  intro result
  apply Triple.pre (P := fun _ => True) fun _ _ _ => trivial
  cases result with
  | ok _ => exact tri_ret lasting_true fun _ => id
  | error e => exact tri_free lasting_true fun _ => trivial

end Cpredict.Automation
