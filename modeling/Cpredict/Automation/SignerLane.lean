import Cpredict.Lib.Reach
import Cpredict.Automation.Runs

/-!
# The lane of a signer

What every run of ticks leaves behind (`LaneState`) and what every step of it does (`LaneMove`), whatever the chain
and its providers answer and wherever a tick is cut off.
-/

namespace Cpredict.Automation

open Outcome Program

/-! ## Runs of ticks -/

/-- Nothing has been saved or sent. -/
def System.initial : System := ⟨⟨⟨[], []⟩, []⟩, none⟩

abbrev Reachable (W : Worker) (st : Store) : System → Prop := Reach.Reachable (· = System.initial) (System.Step W st)

/-- What is left of a tick is safe. -/
def Continues (W : Worker) (st : Store) (p : Work Unit) (w : World) : Prop :=
  p.Safe (Performs st W.keccak256) (Others st) (fun c w => Allowed st w c) (Inv st)
    (fun r t => Inv st t ∧ ∀ a, r = .ok a → True) w

structure System.Sound (W : Worker) (st : Store) (s : System) : Prop where
  inv : Inv st s.world
  continues : ∀ p, s.running = some p → Continues W st p s.world

variable {W : Worker} {st : Store} {s s' : System} {w w' : World}

theorem inv_initial : Inv st System.initial.world := by
  refine ⟨⟨List.nodup_nil, Nat.zero_le 1, ?_, ?_, ?_⟩, fun _ => ⟨Nat.le_refl 0, Nat.zero_le 1⟩, ?_, ?_⟩
  · intro x hx
    cases hx
  · intro x hx
    cases hx
  · intro x hx
    cases hx
  · intro id hm
    exact absurd rfl hm
  · intro before o after h
    exact absurd h (by simp [System.initial])

/-- A step of the system keeps the invariant, and what is left of the tick is safe. -/
theorem System.Sound.step (h : s.Sound W st) (hs : System.Step W st s s') : s'.Sound W st := by
  cases hs with
  | @start w =>
    refine ⟨h.inv, ?_⟩
    rintro p ⟨⟩
    exact tri_tick w h.inv trivial
  | @move w w' p p' hstep =>
    obtain ⟨hi, hk⟩ : Inv st w' ∧ Continues W st p' w' :=
      Safe.step (fun _ _ _ => Others.trans) Others.refl stable_inv h.inv (h.continues p rfl) hstep
    refine ⟨hi, ?_⟩
    rintro p ⟨⟩
    exact hk
  | stop =>
    refine ⟨h.inv, ?_⟩
    rintro p ⟨⟩
  | others ho =>
    refine ⟨h.inv.others ho, ?_⟩
    rintro p ⟨⟩

theorem reachable_sound (h : Reachable W st s) : s.Sound W st := by
  apply Reach.Reachable.invariant _ _ h
  · rintro _ rfl
    refine ⟨inv_initial, ?_⟩
    rintro p ⟨⟩
  · intro s s' _ hs hstep
    exact hs.step hstep

/-! ## What has been left behind -/

structure LaneState (st : Store) (w : World) : Prop where
  single : st.activeCount w.journal ≤ 1
  /-- What is sent has been marked by the compare-and-set before, and has the nonce of the row. -/
  marked : ∀ before tx answer after, w.trace = before ++ ⟨.send tx, answer⟩ :: after →
    ⟨.markBroadcasting tx.id, .ok true⟩ ∈ before ∧ st.Passed w.journal tx.id tx.tx.nonce
  once : ∀ id, sends id w.trace ≤ 1
  /-- What is sent in the place of a transaction has the nonce of a row that was marked. -/
  resent : ∀ r answer, ⟨.resend r, answer⟩ ∈ w.trace → st.Passed w.journal r.transactionId r.replacement.nonce
  cancelled : ∀ x ∈ st.lane w.journal, x.state = .cancelled →
    x.nonce = none ∧ marks x.id w.trace = 0 ∧ sends x.id w.trace = 0

theorem laneState_of_inv (h : Inv st w) : LaneState st w where
  single := h.lane.single
  marked := fun before tx answer after heq => h.justified before _ after heq
  once := fun id => (h.once id).1.trans (h.once id).2
  resent := by
    intro r answer ho
    obtain ⟨before, after, heq⟩ := List.append_of_mem ho
    exact h.justified before _ after heq
  cancelled := by
    intro x hx hc
    have hm : marks x.id w.trace = 0 := by
      by_contra hm
      obtain ⟨y, hy, hyi, hp⟩ := h.marked x.id hm
      rw [h.lane.eq_of_id hy hx hyi, hc] at hp
      cases hp
    exact ⟨(h.lane.held x hx).mpr hc, hm, Nat.le_zero.mp (hm ▸ (h.once x.id).1)⟩

/-! ## What a step does -/

/-- The nonce of a transaction that has been handed to the chain. -/
def Occurrence.nonceSent : Occurrence → Option Nat
  | ⟨.send tx, _⟩ => some tx.tx.nonce
  | ⟨.resend r, _⟩ => some r.replacement.nonce
  | _ => none

structure LaneMove (st : Store) (w w' : World) : Prop where
  /-- A transaction is signed and saved only when no row is active. -/
  signed : ∀ a answer, w'.trace = w.trace ++ [⟨.prepare a, answer⟩] → Idle st w
  saved : ∀ y ∈ st.lane w'.journal, (∀ x ∈ st.lane w.journal, x.id ≠ y.id) → Idle st w ∧ y.state = .prepared ∧
    ∃ a tx answer, w'.trace = w.trace ++ [⟨.save a tx, answer⟩] ∧ y.Carries tx
  /-- What is handed to the chain is what the row has, which is broadcasting. -/
  sent : ∀ tx answer, w'.trace = w.trace ++ [⟨.send tx, answer⟩] →
    ∃ x ∈ st.lane w.journal, x.id = tx.id ∧ x.state = .broadcasting ∧ x.Carries tx.tx
  resent : ∀ r answer, w'.trace = w.trace ++ [⟨.resend r, answer⟩] →
    ∃ x ∈ st.lane w.journal, x.id = r.transactionId ∧ x.state = .unknown ∧ x.Carries r.replacement
  /-- A replacement is saved only with the nonce of the row it is for. -/
  replacement : ∀ r ∈ w'.journal.recoveries, ∀ y ∈ st.lane w'.journal, y.id = r.transactionId →
    (∃ r₀ ∈ w.journal.recoveries, SameRecovery r₀ r) ∨ y.state.sent = true ∧ y.nonce = some r.replacement.nonce
  compareAndSet : ∀ id, w'.trace = w.trace ++ [⟨.markBroadcasting id, .ok true⟩] →
    ∃ x ∈ st.lane w.journal, x.id = id ∧ x.state = .prepared ∧ ∃ y ∈ st.lane w'.journal, y.id = id ∧
      y.state = .broadcasting
  /-- A row that is broadcasting or unknown stays so unless it is finished. -/
  left : ∀ x ∈ st.lane w.journal, x.state.sent = true → ∃ y ∈ st.lane w'.journal, y.id = x.id ∧
    (y.state.sent = true ∨ ∃ r hash answer, w'.trace = w.trace ++ [⟨.finish x.id r hash, answer⟩] ∧
      (hash = x.txHash ∨ hash ∈ w.journal.replacedHashes x.id) ∧ Final w.trace r hash)
  /-- The nonce of a row that is cancelled has not been sent, and is free again. -/
  cancelled : ∀ x ∈ st.lane w.journal, x.state ≠ .cancelled → ∀ y ∈ st.lane w'.journal, y.id = x.id →
    y.state = .cancelled → x.state = .prepared ∧ sends x.id w'.trace = 0 ∧ ∀ n, x.nonce = some n →
      (∀ z ∈ st.lane w'.journal, z.nonce ≠ some n) ∧ ∀ o ∈ w'.trace, o.nonceSent ≠ some n

/-- What does not touch the lane is such a step. -/
theorem LaneMove.of_others (h : Inv st w) (ho : Others st w w') : LaneMove st w w' where
  signed := by
    intro a answer ht
    rw [ho.trace] at ht
    simp at ht
  saved := by
    intro y hy hne
    rw [ho.lane] at hy
    exact absurd rfl (hne y hy)
  sent := by
    intro tx answer ht
    rw [ho.trace] at ht
    simp at ht
  resent := by
    intro r answer ht
    rw [ho.trace] at ht
    simp at ht
  replacement := by
    intro r hr y hy hid
    rw [ho.lane] at hy
    refine .inl ⟨r, ?_, .refl r⟩
    have hr' : r ∈ w'.journal.recoveries.filter fun r => r.transactionId = y.id :=
      List.mem_filter.mpr ⟨hr, decide_eq_true hid.symm⟩
    rw [ho.recoveries y hy] at hr'
    exact List.mem_of_mem_filter hr'
  compareAndSet := by
    intro id ht
    rw [ho.trace] at ht
    simp at ht
  left := by
    intro x hx hs
    exact ⟨x, ho.lane ▸ hx, rfl, .inl hs⟩
  cancelled := by
    intro x hx hc y hy hid hyc
    rw [ho.lane] at hy
    rw [h.lane.eq_of_id hy hx hid] at hyc
    exact absurd hyc hc

theorem append_inj {tr : List Occurrence} {o o' : Occurrence} (h : tr ++ [o] = tr ++ [o']) : o = o' :=
  List.singleton_inj.mp (List.append_cancel_left h)

/-- What has been sent with a nonce is a row that has passed. -/
theorem Inv.nonceSent (h : Inv st w) {o : Occurrence} (ho : o ∈ w.trace) {n : Nat} (hn : o.nonceSent = some n) :
    ∃ x ∈ st.lane w.journal, x.nonce = some n ∧ x.state.passed = true := by
  obtain ⟨before, after, heq⟩ := List.append_of_mem ho
  have hj := h.justified before o after heq
  obtain ⟨c, a⟩ := o
  cases c with
  | send tx =>
    cases hn
    obtain ⟨-, x, hx, -, hxn, hp⟩ := hj
    exact ⟨x, hx, hxn, hp⟩
  | resend r =>
    cases hn
    obtain ⟨x, hx, -, hxn, hp⟩ := hj
    exact ⟨x, hx, hxn, hp⟩
  | _ => cases hn

section

variable {keccak256 : Bytes → Bytes32} {c : Await} {a : Except WorkerErr (Reply c)}

/-- A row of the lane after an await is new or comes from one before it. -/
theorem lane_cases (hc : (∃ a tx new, c = .save a tx ∧ w'.journal.rows = w.journal.rows ++ [new] ∧
    Saved st w.journal a tx new) ∨ InPlace w.journal c w'.journal.rows) {y : Row} (hy : y ∈ st.lane w'.journal) :
    (∃ x ∈ st.lane w.journal, RowChange w.journal c x y) ∨
      (∃ a tx, c = .save a tx ∧ y.Carries tx) ∧ y.state = .prepared ∧ ∀ x ∈ st.lane w.journal, x.id ≠ y.id := by
  rcases hc with ⟨a, tx, new, rfl, hrows, hs⟩ | hin
  · obtain ⟨hy, ho⟩ := mem_lane.mp hy
    rw [hrows] at hy
    rcases List.mem_append.mp hy with hy | hy
    · exact .inl ⟨y, mem_lane.mpr ⟨hy, ho⟩, .refl y⟩
    · rw [List.mem_singleton.mp hy]
      exact .inr ⟨⟨a, tx, rfl, hs.nonce, hs.hash, hs.raw⟩, hs.state, fun x hx => hs.fresh x (mem_lane.mp hx).1⟩
  · exact .inl (hin.mem_lane.1 y hy)

/-- A row of the lane before an await is there after it. -/
theorem lane_kept (hc : (∃ a tx new, c = .save a tx ∧ w'.journal.rows = w.journal.rows ++ [new] ∧
    Saved st w.journal a tx new) ∨ InPlace w.journal c w'.journal.rows) {x : Row} (hx : x ∈ st.lane w.journal) :
    ∃ y ∈ st.lane w'.journal, RowChange w.journal c x y := by
  rcases hc with ⟨a, tx, new, -, hrows, -⟩ | hin
  · obtain ⟨hx, ho⟩ := mem_lane.mp hx
    refine ⟨x, mem_lane.mpr ⟨?_, ho⟩, .refl x⟩
    rw [hrows]
    exact List.mem_append_left _ hx
  · exact hin.mem_lane.2 x hx

theorem RowChange.cancelled {j : Journal} {x y : Row} (h : RowChange j c x y) (hx : x.state ≠ .cancelled)
    (hy : y.state = .cancelled) : c = .cancelPrepared x.id ∧ x.state = .prepared ∧ y.nonce = none := by
  cases h with
  | same _ hs _ => exact absurd (hs ▸ hy) hx
  | cancel _ hb _ hn => exact ⟨rfl, hb, hn⟩
  | mark _ _ hs _ =>
    rw [hs] at hy
    cases hy
  | unknown _ _ hs _ =>
    rw [hs] at hy
    cases hy
  | finish _ _ hs _ =>
    rw [hs] at hy
    split at hy <;> cases hy
  | replace _ _ hs _ =>
    rw [hs] at hy
    cases hy

/-- The nonce of a row that has just been cancelled is that of no row, and nothing has been sent with it. -/
theorem Inv.nonce_free (h : Inv st w) (hl : LaneOk st w'.journal) (htrace : w'.trace = w.trace ++ [⟨c, a⟩])
    (hin : InPlace w.journal c w'.journal.rows) {x y : Row} (hx : x ∈ st.lane w.journal) (hy : y ∈ st.lane w'.journal)
    (hid : y.id = x.id) (hc : c = .cancelPrepared x.id) (hs : x.state = .prepared) (hyn : y.nonce = none) {n : Nat}
    (hn : x.nonce = some n) :
    (∀ z ∈ st.lane w'.journal, z.nonce ≠ some n) ∧ ∀ o ∈ w'.trace, o.nonceSent ≠ some n := by
  have hne : x.nonce ≠ none := hn ▸ Option.some_ne_none n
  subst hc
  constructor
  · intro z hz hzn
    obtain ⟨x', hx', hxz⟩ := hin.mem_lane.1 z hz
    have hn' : x'.nonce = x.nonce := by rw [← hxz.nonce (hzn ▸ Option.some_ne_none n), hzn, hn]
    have hid' : x'.id = x.id := h.lane.nonces x' hx' x hx hn' (hn' ▸ hne)
    rw [hl.eq_of_id hz hy ((hxz.owned.id.trans hid').trans hid.symm), hyn] at hzn
    cases hzn
  · intro o ho hon
    rw [htrace] at ho
    rcases List.mem_append.mp ho with ho | ho
    · obtain ⟨x', hx', hn', hp⟩ := h.nonceSent ho hon
      have hid' : x'.id = x.id := h.lane.nonces x' hx' x hx (hn'.trans hn.symm) (hn' ▸ Option.some_ne_none n)
      rw [h.lane.eq_of_id hx' hx hid', hs] at hp
      cases hp
    · rw [List.mem_singleton.mp ho] at hon
      cases hon

/-- An allowed await is such a step. -/
theorem LaneMove.of_performs (h : Inv st w) (ha : Allowed st w c) (hp : Performs st keccak256 c w a w') :
    LaneMove st w w' := by
  obtain ⟨htrace, he⟩ := hp
  have hchange := he.change h.lane.ids
  have hl : LaneOk st w'.journal := LaneOk.step h ha hchange
  refine ⟨?_, ?_, ?_, ?_, ?_, ?_, ?_, ?_⟩
  · intro b answer ht
    cases append_inj (htrace.symm.trans ht)
    exact ha
  · intro y hy hne
    rcases lane_cases hchange hy with ⟨x, hx, hxy⟩ | ⟨⟨b, tx, rfl, hcarries⟩, hst, -⟩
    · exact absurd hxy.owned.id.symm (hne x hx)
    · exact ⟨ha, hst, b, tx, a, htrace, hcarries⟩
  · intro tx answer ht
    cases append_inj (htrace.symm.trans ht)
    exact ha.2.2
  · intro r answer ht
    cases append_inj (htrace.symm.trans ht)
    exact ha
  · intro r hr y hy hid
    rcases he.recoveries hr with hold | ⟨-, hrows, x, hx, hof⟩
    · exact .inl hold
    · have hx' : x ∈ st.lane w'.journal := by rwa [Store.lane, hrows]
      rw [hl.eq_of_id hy hx' (hid.trans hof.id.symm)]
      exact .inr ⟨hof.state, hof.nonce⟩
  · intro id ht
    cases append_inj (htrace.symm.trans ht)
    obtain ⟨x, hx, hi⟩ := ha
    exact ⟨x, hx, hi, JournalEffect.marked h.lane.ids he hx hi⟩
  · intro x hx hs
    obtain ⟨y, hy, hxy⟩ := lane_kept hchange hx
    refine ⟨y, hy, hxy.owned.id, ?_⟩
    cases hxy with
    | same _ hst _ => exact .inl (by rwa [hst])
    | mark _ hb _ _ =>
      rw [hb] at hs
      cases hs
    | cancel _ hb _ _ =>
      rw [hb] at hs
      cases hs
    | unknown _ _ hst _ =>
      left
      rw [hst]
      rfl
    | @finish _ _ r hash _ hreg _ _ => exact .inr ⟨r, hash, a, htrace, hreg, ha.2⟩
    | replace _ _ hst _ =>
      left
      rw [hst]
      rfl
  · intro x hx hc y hy hid hyc
    rcases lane_cases hchange hy with ⟨x', hx', hxy⟩ | ⟨-, hst, -⟩
    · obtain rfl := h.lane.eq_of_id hx' hx (hxy.owned.id.symm.trans hid)
      obtain ⟨hcmd, hs, hyn⟩ := hxy.cancelled hc hyc
      have hin : InPlace w.journal c w'.journal.rows := by
        rcases hchange with ⟨b, tx, new, hsave, -, -⟩ | hin
        · rw [hsave] at hcmd
          cases hcmd
        · exact hin
      refine ⟨hs, ?_, fun n hn => h.nonce_free hl htrace hin hx hy hid hcmd hs hyn hn⟩
      have hm := (h.once x'.id).1
      rw [h.marks_zero hx rfl hs] at hm
      subst hcmd
      rw [htrace, sends_append]
      simp only [Occurrence.sends, Bool.false_eq_true, if_false]
      omega
    · rw [hyc] at hst
      cases hst

end

/-- A step of the system from a state with the invariant. -/
theorem LaneMove.of_step (h : s.Sound W st) (hs : System.Step W st s s') : LaneMove st s.world s'.world := by
  cases hs with
  | start => exact .of_others h.inv (.refl _)
  | stop => exact .of_others h.inv (.refl _)
  | others ho => exact .of_others h.inv ho
  | @move w w' p p' hstep =>
    have hp := h.continues p rfl
    cases hstep with
    | @call c k _ _ r he =>
      have ha : Allowed st w c := Safe.allowed (A := fun c w => Allowed st w c) Others.refl hp
      exact .of_performs h.inv ha he
    | others ho => exact .of_others h.inv ho

/-- The lane of a signer, in every state that ticks reach and in every step from it. -/
theorem signer_lane (h : Reachable W st s) :
    LaneState st s.world ∧ ∀ s', System.Step W st s s' → LaneMove st s.world s'.world := by
  have hs := reachable_sound h
  exact ⟨laneState_of_inv hs.inv, fun s' hstep => .of_step hs hstep⟩

/-! ## A tick that sends a transaction -/

namespace Sample

def store : Store := ⟨1, "deployment", addr 7⟩

def worker : Worker := ⟨100, 1, 100, false, fun _ => 5, fun _ => "", fun _ => false⟩

def payout : Action := ⟨"winner:1", addr 1, "winner", addr 2, [], false, none, none⟩

def signed : Prepared := ⟨[1], 5, 0, 10⟩

def record : Record := ⟨1, payout, signed, .prepared⟩

/-- The answers up to that of the node. -/
def answers : List Occurrence :=
  [⟨.auditCanonical, .ok []⟩, ⟨.pending, .ok []⟩, ⟨.nextCandidate, .ok (some payout)⟩, ⟨.eligible payout, .ok true⟩,
    ⟨.balance, .ok 50⟩, ⟨.submissionReady, .ok true⟩, ⟨.prepare payout, .ok signed⟩, ⟨.spentToday none, .ok 0⟩,
    ⟨.balance, .ok 50⟩, ⟨.save payout signed, .ok record⟩, ⟨.validate record, .ok ()⟩, ⟨.spentToday (some 1), .ok 0⟩,
    ⟨.balance, .ok 50⟩, ⟨.validation record false, .ok ()⟩, ⟨.markBroadcasting 1, .ok true⟩, ⟨.send record, .ok 5⟩]

def saved : Journal := ⟨[store.preparedRow 0 payout signed 1], []⟩

/-- The row of the transaction is broadcasting. -/
def marked : World := ⟨(saved.markBroadcasting 0 1).1, answers.take 15⟩

def sent : World := ⟨marked.journal, answers⟩

theorem next_await {n : Nat} {j t : Journal} {c : Await} {k : Except WorkerErr (Reply c) → Work Unit}
    {r : Except WorkerErr (Reply c)} (h : Reachable worker store ⟨⟨j, answers.take n⟩, some (.call c k)⟩)
    (he : JournalEffect store worker.keccak256 ⟨j, answers.take n⟩ ⟨t, answers.take (n + 1)⟩ c r)
    (ht : answers.take (n + 1) = answers.take n ++ [⟨c, r⟩]) :
    Reachable worker store ⟨⟨t, answers.take (n + 1)⟩, some (k r)⟩ := h.next (.move (.call ⟨ht, he⟩))

theorem marked_reachable : ∃ k, Reachable worker store ⟨marked, some (.call (.send record) k)⟩ := by
  have hi : Reachable worker store System.initial := Reach.Reachable.start rfl
  have h₀ : Reachable worker store ⟨⟨⟨[], []⟩, answers.take 0⟩, some worker.tick⟩ := hi.next System.Step.start
  have h₁ := next_await (r := .ok []) h₀ ⟨⟨none, fun _ => none, fun _ => none⟩, 0, .inl ⟨[], rfl, .inl rfl⟩⟩ rfl
  have h₂ := next_await (t := ⟨[], []⟩) (r := .ok []) h₁ ⟨rfl, fun _ he => by cases he; rfl⟩ rfl
  have h₃ := next_await (r := .ok (some payout)) h₂ rfl rfl
  have h₄ := next_await (r := .ok true) h₃ rfl rfl
  have h₅ := next_await (r := .ok (50 : Nat)) h₄ rfl rfl
  have h₆ := next_await (r := .ok true) h₅ rfl rfl
  have h₇ := next_await (r := .ok signed) h₆ rfl rfl
  have h₈ := next_await (r := .ok (0 : Nat)) h₇ rfl rfl
  have h₉ := next_await (r := .ok (50 : Nat)) h₈ rfl rfl
  have h₁₀ := next_await (t := saved) (r := .ok record) h₉ ⟨0, 1, true, .inl ⟨record, rfl, .inl rfl⟩⟩ rfl
  -- the broadcast
  have h₁₁ := next_await (r := .ok ()) h₁₀ rfl rfl
  have h₁₂ := next_await (r := .ok (0 : Nat)) h₁₁ rfl rfl
  have h₁₃ := next_await (r := .ok (50 : Nat)) h₁₂ rfl rfl
  have h₁₄ := next_await (r := .ok ()) h₁₃ rfl rfl
  have h₁₅ := next_await (t := marked.journal) (r := .ok true) h₁₄ ⟨0, .inl ⟨true, rfl, .inl rfl⟩⟩ rfl
  exact ⟨_, h₁₅⟩

end Sample

/-- The transaction that is sent is that of the row, which has been marked. -/
theorem signer_lane_sent :
    ∃ p p', Reachable Sample.worker Sample.store ⟨Sample.marked, some p⟩ ∧
      System.Step Sample.worker Sample.store ⟨Sample.marked, some p⟩ ⟨Sample.sent, some p'⟩ ∧
      LaneMove Sample.store Sample.marked Sample.sent ∧ LaneState Sample.store Sample.sent ∧
      sends 1 Sample.sent.trace = 1 := by
  obtain ⟨k, h⟩ := Sample.marked_reachable
  have hstep : System.Step Sample.worker Sample.store ⟨Sample.marked, some (.call (.send Sample.record) k)⟩
      ⟨Sample.sent, some (k (.ok (5 : Bytes32)))⟩ := .move (.call ⟨rfl, rfl⟩)
  exact ⟨_, _, h, hstep, (signer_lane h).2 _ hstep, (signer_lane (h.next hstep)).1, rfl⟩

end Cpredict.Automation
