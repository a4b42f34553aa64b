import Cpredict.Operations.Quota

/-!
# The quotas of the rows that are loaded

Admission checks the quotas of the rows in its window, not of all that were ever stored. What lies outside counts
for none of the calendars, and matters only as the final operation whose nonce makes a cancelled one free. When
every operation is admitted for a nonce that no operation of the account has been executed with, a cancelled
operation is older than the final one with its nonce, and both are loaded together (`assertQuota_loaded`). Otherwise
the final one may be missing (`assertQuota_misses`).
-/

namespace Cpredict.Operations

open Outcome

section

variable {rows l : Rows} {instant : Nat} {p : StoredOperation → Bool} {o : Operation} {v : StoredOperation}

/-! ## What is loaded -/

/-- What is not loaded has none of the properties of what is. -/
theorem Loaded.filter_perm (h : Loaded rows instant l) (hp : ∀ v ∈ rows, p v = true →
    inWindow (quotaHistoryStart instant) v = true) :
    (l.filter p).Perm (rows.filter p) := by
  have hsame : (rows.filter (inWindow (quotaHistoryStart instant))).filter p = rows.filter p := by
    rw [List.filter_filter]
    refine List.filter_congr fun v hv => ?_
    cases hpv : p v with
    | false => rfl
    | true => rw [hp v hv hpv, Bool.true_and]
  exact hsame ▸ h.filter p

theorem Loaded.mem (h : Loaded rows instant l) (hv : v ∈ l) :
    v ∈ rows ∧ inWindow (quotaHistoryStart instant) v = true :=
  List.mem_filter.mp (h.subset hv)

theorem Loaded.mem_of (h : Loaded rows instant l) (hv : v ∈ rows)
    (hw : inWindow (quotaHistoryStart instant) v = true) : v ∈ l :=
  h.symm.subset (List.mem_filter.mpr ⟨hv, hw⟩)

/-- One row at most has the property. -/
theorem find?_perm {l' : Rows} (hp : (l.filter p).Perm (l'.filter p)) (h₁ : (l'.filter p).length ≤ 1) :
    l.find? p = l'.find? p := by
  rw [← List.head?_filter, ← List.head?_filter]
  match hf : l'.filter p with
  | [] => rw [hf] at hp; rw [hp.eq_nil]
  | [x] => rw [hf] at hp; rw [List.perm_singleton.mp hp]
  | x :: y :: rest =>
    rw [hf] at h₁
    simp at h₁

/-! ## The calendars -/

theorem historyStart_le (instant : Nat) : quotaHistoryStart instant ≤ (weeklyBudgetWindow instant).start ∧
    quotaHistoryStart instant ≤ (dateOf instant * DAY : Nat) ∧
      quotaHistoryStart instant ≤ (instant : Int) - FAUCET_COOLDOWN_MS := by
  unfold quotaHistoryStart
  omega

theorem inWindow_of_created (h : quotaHistoryStart instant ≤ v.operation.createdAt) :
    inWindow (quotaHistoryStart instant) v = true := by
  simp [inWindow, h]

theorem inWindow_of_updated (h : quotaHistoryStart instant ≤ v.operation.updatedAt) :
    inWindow (quotaHistoryStart instant) v = true := by
  simp [inWindow, h]

theorem inWindow_of_unresolved {start : Int}
    (h : (isRecoverable v.operation.state || decide (v.operation.state = .preparing) ||
    decide (v.operation.state = .awaitingSignature)) = true) : inWindow start v = true := by
  cases hs : v.operation.state <;> simp_all [inWindow, isRecoverable]

theorem inWindow_of_day (h : dateOf v.operation.createdAt = dateOf instant) :
    inWindow (quotaHistoryStart instant) v = true := by
  refine inWindow_of_created ((historyStart_le instant).2.1.trans ?_)
  have hle : dateOf v.operation.createdAt * DAY ≤ v.operation.createdAt := Nat.div_mul_le_self _ _
  rw [← h]
  exact_mod_cast hle

/-- An operation that is settled in a week has been changed since. -/
theorem inWindow_of_week (hs : ∀ t ∈ v.operation.gasSettledAt, t ≤ v.operation.updatedAt)
    (h : countsTowardWeek v.operation (weeklyBudgetWindow instant) = true) :
    inWindow (quotaHistoryStart instant) v = true := by
  have hstart := (historyStart_le instant).1
  unfold countsTowardWeek at h
  rcases Bool.or_eq_true_iff.mp h with h | h
  · have hc := of_decide_eq_true h
    exact inWindow_of_created (hstart.trans hc.1)
  · obtain ⟨-, h⟩ := Bool.and_eq_true_iff.mp h
    rcases Bool.or_eq_true_iff.mp h with h | h
    · exact inWindow_of_unresolved h
    · have hsettled := of_decide_eq_true h
      refine inWindow_of_updated ?_
      cases ht : v.operation.gasSettledAt with
      | none =>
        rw [ht] at hsettled
        exact hstart.trans hsettled
      | some t =>
        have hle := hs t (by rw [ht]; rfl)
        rw [ht] at hsettled
        simp only [Option.getD_some] at hsettled
        omega

theorem inWindow_of_unfinished {start : Int} (h : isUnfinished o v = true) : inWindow start v = true := by
  obtain ⟨-, h⟩ := Bool.and_eq_true_iff.mp h
  refine inWindow_of_unresolved ?_
  cases hs : v.operation.state <;> simp_all [isRecoverable]

theorem inWindow_of_faucet (h : usesFaucet o v = true) : inWindow (quotaHistoryStart o.createdAt) v = true := by
  obtain ⟨-, h⟩ := Bool.and_eq_true_iff.mp h
  have hlt := of_decide_eq_true h
  have hstart := (historyStart_le o.createdAt).2.2
  exact inWindow_of_created (by omega)

end

/-! ## Rows whose nonces are used one after the other -/

/-- Of one account and nonce. -/
def SameNonce (x y : Operation) : Prop := x.account = y.account ∧ x.nonce = y.nonce

/-- At most one operation of an account with a nonce is not cancelled; it is admitted after the others were. -/
structure Sequential (rows : Rows) : Prop where
  keyed : rows.Keyed
  settled : ∀ v ∈ rows, ∀ t ∈ v.operation.gasSettledAt, t ≤ v.operation.updatedAt
  apart : ∀ v ∈ rows, ∀ w ∈ rows, SameNonce v.operation w.operation → v.operation.state ≠ .cancelled →
    w.operation.state ≠ .cancelled →
    v = w
  ordered : ∀ c ∈ rows, ∀ v ∈ rows, SameNonce c.operation v.operation → c.operation.state = .cancelled →
    v.operation.state ≠ .cancelled → c.operation.createdAt ≤ v.operation.createdAt ∧
      c.operation.updatedAt ≤ v.operation.createdAt

section

variable {rows l : Rows} {instant : Nat} {v c : StoredOperation}

theorem hasFinalGas_state {o : Operation} (h : hasFinalGas o = true) : o.state = .confirmed ∨ o.state = .reverted := by
  unfold hasFinalGas at h
  simp only [Bool.and_eq_true, decide_eq_true_eq] at h
  simpa using h.1.1.1.1.1.1

/-- A cancelled operation that is loaded is loaded with the final one that has its nonce. -/
theorem Sequential.final_loaded (hs : Sequential rows) (h : Loaded rows instant l) (hc : c ∈ l)
    (hcs : c.operation.state = .cancelled)
    (hv : v ∈ rows) (hf : hasFinalGas v.operation = true) (hn : SameNonce c.operation v.operation) : v ∈ l := by
  obtain ⟨hcr, hcw⟩ := h.mem hc
  have hvs : v.operation.state ≠ .cancelled := by
    rcases hasFinalGas_state hf with hv | hv <;> rw [hv] <;> nofun
  obtain ⟨h₁, h₂⟩ := hs.ordered c hcr v hv hn hcs hvs
  refine h.mem_of hv (inWindow_of_created ?_)
  have hwindow : quotaHistoryStart instant ≤ c.operation.createdAt ∨
    quotaHistoryStart instant ≤ c.operation.updatedAt := by
    simpa [inWindow, hcs] using hcw
  omega

/-- What is loaded is charged as it is by all rows. -/
theorem Sequential.charge_loaded (hs : Sequential rows) (h : Loaded rows instant l) (hc : c ∈ l) :
    charge (finalNonces (l.map StoredOperation.operation)) c.operation =
      charge (finalNonces (rows.map StoredOperation.operation)) c.operation := by
  have hmem : ∀ k : Rows, nonceKey c.operation ∈ finalNonces (k.map StoredOperation.operation) ↔
      ∃ v ∈ k, hasFinalGas v.operation = true ∧ nonceKey v.operation = nonceKey c.operation := by
    intro k
    simp only [finalNonces, List.mem_map, List.mem_filter]
    constructor
    · rintro ⟨_, ⟨⟨v, hv, rfl⟩, hf⟩, hn⟩
      exact ⟨v, hv, hf, hn⟩
    · rintro ⟨v, hv, hf, hn⟩
      exact ⟨_, ⟨⟨v, hv, rfl⟩, hf⟩, hn⟩
  have hiff : Withdrawn c.operation → (nonceKey c.operation ∈ finalNonces (l.map StoredOperation.operation) ↔
      nonceKey c.operation ∈ finalNonces (rows.map StoredOperation.operation)) := by
    intro hw
    rw [hmem, hmem]
    constructor
    · rintro ⟨v, hv, hf⟩
      exact ⟨v, (h.mem hv).1, hf⟩
    · rintro ⟨v, hv, hf, hn⟩
      have hsame : SameNonce c.operation v.operation := by
        simp only [nonceKey, Prod.mk.injEq] at hn
        exact ⟨hn.2.1.symm, hn.2.2.symm⟩
      exact ⟨v, hs.final_loaded h hc hw.1 hv hf hsame, hf, hn⟩
  unfold charge
  by_cases hw : Withdrawn c.operation
  · simp only [hiff hw]
  · simp only [hw, false_and]

theorem Sequential.chargesOf_eq {records records' : Rows} (hs : Sequential rows) (h : Loaded rows instant l)
    (hl : ∀ v ∈ records, v ∈ l)
    (hp : records.Perm records') : chargesOf l records = chargesOf rows records' := by
  unfold chargesOf
  rw [List.map_congr_left fun v hv => hs.charge_loaded h (hl v hv)]
  exact (hp.map _).sum_eq

end

/-! ## Histories -/

/-- One transaction of admission, of an operation that `register` makes, or of a transition. What an operation may
be admitted for, and which changes are made when, are left open. -/
inductive Step (Admits : Rows → Operation → Prop) (Changes : Operation → Change → Nat → Prop) : Rows → Rows → Prop
  | admission {cfg : ServiceConfig} {input : RegisterInput} {prepared : Prepared} {id now : Nat}
      {limits : SponsorConfig}
      {sessions : List StoredSession} {rows rows' : Rows} {value x : StoredOperation} {l : Rows} :
      value.operation = newOperation cfg input prepared id now → Admits rows value.operation → Loaded rows now l →
      assertQuota l value limits = .ok () → admitOperation sessions rows value = .ok (rows', x) →
        Step Admits Changes rows rows'
  | transition {rows rows' : Rows} {id at' : Nat} {c : Change} {b : Bool} {old x : StoredOperation} :
      rows.find id = some old →
      Changes old.operation c at' → transition id c at' rows = .ok (rows', b, x) → Step Admits Changes rows rows'

/-- The rows of a history. -/
abbrev StoredRows (Admits : Rows → Operation → Prop) (Changes : Operation → Change → Nat → Prop) : Rows → Prop :=
  Reach.Reachable (· = []) (Step Admits Changes)

/-- A change is made no earlier than the last one of the operation, and a settlement no earlier than the gas was
settled. -/
def ClockForward (o : Operation) (c : Change) (at' : Nat) : Prop := o.updatedAt ≤ at' ∧
    ∀ t ∈ (c.patch at').gasSettledAt, t ≤ at'

/-- The nonce is not used by an operation of the account that is final. -/
def Unfinalised (rows : Rows) (o : Operation) : Prop :=
  ∀ r ∈ rows, SameNonce r.operation o → hasFinalGas r.operation = false

/-- The operations of the account with the nonce were last changed before. -/
def AdmittedLater (rows : Rows) (o : Operation) : Prop :=
  ∀ r ∈ rows, SameNonce r.operation o → r.operation.createdAt ≤ o.createdAt ∧ r.operation.updatedAt ≤ o.createdAt

/-- No operation of the account is on record as executed with the nonce, final or not. -/
def Unexecuted (rows : Rows) (o : Operation) : Prop :=
  ∀ r ∈ rows, SameNonce r.operation o → r.operation.state ≠ .confirmed ∧ r.operation.state ≠ .reverted

instance (x y : Operation) : Decidable (SameNonce x y) := inferInstanceAs (Decidable (_ ∧ _))

instance (o : Operation) (c : Change) (at' : Nat) : Decidable (ClockForward o c at') :=
  inferInstanceAs (Decidable (_ ∧ _))

instance (rows : Rows) (o : Operation) : Decidable (Unfinalised rows o) :=
  inferInstanceAs (Decidable (∀ r ∈ rows, _ → _))

instance (rows : Rows) (o : Operation) : Decidable (AdmittedLater rows o) :=
  inferInstanceAs (Decidable (∀ r ∈ rows, _ → _))

instance (rows : Rows) (o : Operation) : Decidable (Unexecuted rows o) :=
  inferInstanceAs (Decidable (∀ r ∈ rows, _ → _))

section

variable {rows rows' l : Rows} {instant : Nat} {v x : StoredOperation} {o : Operation}

theorem next_createdAt (c : Change) (at' : Nat) (o : Operation) : (c.next at' o).createdAt = o.createdAt := by
  rw [next_eq]
  rfl

theorem next_updatedAt (c : Change) (at' : Nat) (o : Operation) : (c.next at' o).updatedAt = at' := by
  rw [next_eq]
  cases c <;> rfl

theorem next_gasSettledAt (c : Change) (at' : Nat) (o : Operation) :
    (c.next at' o).gasSettledAt = ((c.patch at').gasSettledAt <|> o.gasSettledAt) := by
  rw [next_eq]
  rfl

/-- A cancelled operation is not changed. -/
theorem cancelled_not_source (c : Change) : OperationState.cancelled ∉ c.source := by
  cases c <;> simp [Change.source]

theorem sameNonce_next {c : Change} {at' : Nat} {y : Operation} : SameNonce (c.next at' o) y ↔ SameNonce o y := by
  have ha := next_admission c at' o
  unfold SameNonce
  rw [ha.account, ha.nonce]

theorem SameNonce.symm {x y : Operation} (h : SameNonce x y) : SameNonce y x := ⟨h.1.symm, h.2.symm⟩

theorem sequential_nil : Sequential [] where
  keyed := List.nodup_nil
  settled := by simp
  apart := by simp
  ordered := by simp

/-- The quota of an operation passes only if none of the account with its nonce is pending. -/
theorem Loaded.no_unfinished (h : Loaded rows instant l) {limits : SponsorConfig} {next : StoredOperation}
    (hq : assertQuota l next limits = .ok ()) (hv : v ∈ rows) : isUnfinished next.operation v = false := by
  cases hu : isUnfinished next.operation v with
  | false => rfl
  | true =>
    unfold assertQuota at hq
    dsimp only at hq
    have hsome := List.find?_isSome.mpr ⟨v, h.mem_of hv (inWindow_of_unfinished hu), hu⟩
    obtain ⟨w, hw⟩ := Option.isSome_iff_exists.mp hsome
    rw [hw] at hq
    cases hq

theorem cancelled_of_finished (hu : isUnfinished o v = false) (hn : SameNonce v.operation o)
    (he : v.operation.state ≠ .confirmed ∧ v.operation.state ≠ .reverted) : v.operation.state = .cancelled := by
  unfold isUnfinished at hu
  rw [decide_eq_true hn.1, decide_eq_true hn.2] at hu
  cases hs : v.operation.state <;> rw [hs] at hu he <;> simp [isRecoverable] at hu he ⊢

/-- An operation is admitted when all others of the account with its nonce are cancelled. -/
theorem Sequential.admission (hs : Sequential rows) (hv : v.operation.gasSettledAt = none)
    (hcancelled : ∀ r ∈ rows, SameNonce r.operation v.operation → r.operation.state = .cancelled)
    (hid : ∀ r ∈ rows, r.operation.id ≠ v.operation.id) (hlater : AdmittedLater rows v.operation)
    (hstate : v.operation.state ≠ .cancelled) : Sequential (rows ++ [v]) where
  keyed := by
    unfold Rows.Keyed
    rw [List.map_append, List.nodup_append]
    refine ⟨hs.keyed, List.nodup_singleton _, ?_⟩
    rintro a ha b hb rfl
    obtain ⟨r, hr, hra⟩ := List.mem_map.mp ha
    rw [List.map_singleton, List.mem_singleton] at hb
    exact hid r hr (hra.trans hb)
  settled := by
    intro w hw t ht
    rcases List.mem_append.mp hw with hw | hw
    · exact hs.settled w hw t ht
    · rw [List.mem_singleton.mp hw, hv] at ht
      cases ht
  apart := by
    intro a ha b hb hn hsa hsb
    rcases List.mem_append.mp ha with ha' | ha' <;> rcases List.mem_append.mp hb with hb' | hb'
    · exact hs.apart a ha' b hb' hn hsa hsb
    · rw [List.mem_singleton.mp hb'] at hn
      exact absurd (hcancelled a ha' hn) hsa
    · rw [List.mem_singleton.mp ha'] at hn
      exact absurd (hcancelled b hb' hn.symm) hsb
    · rw [List.mem_singleton.mp ha', List.mem_singleton.mp hb']
  ordered := by
    intro c hc w hw hn hcs hws
    rcases List.mem_append.mp hc with hc' | hc'
    · rcases List.mem_append.mp hw with hw' | hw'
      · exact hs.ordered c hc' w hw' hn hcs hws
      · rw [List.mem_singleton.mp hw'] at hn ⊢
        exact hlater c hc' hn
    · rw [List.mem_singleton.mp hc'] at hcs
      exact absurd hcs hstate

/-- A change keeps the order: it makes the only one that is not cancelled later, or cancels it. -/
theorem Sequential.change (hs : Sequential rows) (hx : x ∈ rows) {c : Change} {at' : Nat}
    (hsource : x.operation.state ∈ c.source)
    (hclock : ClockForward x.operation c at') : Sequential (rows.set x.operation.id (c.next at' x.operation)) := by
  have hstate : x.operation.state ≠ .cancelled := by
    rintro h
    rw [h] at hsource
    exact cancelled_not_source c hsource
  have horigin : ∀ w ∈ rows.set x.operation.id (c.next at' x.operation),
    w = { x with operation := c.next at' x.operation } ∨
      w ∈ rows ∧ w.operation.id ≠ x.operation.id := by
    intro w hw
    rcases mem_set hw with ⟨r, hr, hi, rfl⟩ | hw
    · rw [hs.keyed.eq hr hx hi]
      exact .inl rfl
    · exact .inr hw
  have hadm := next_admission c at' x.operation
  refine ⟨keyed_set hs.keyed hadm.id, ?_, ?_, ?_⟩
  · intro w hw t ht
    rcases horigin w hw with rfl | ⟨hw, -⟩
    · simp only [next_updatedAt, next_gasSettledAt] at ht ⊢
      cases hg : (c.patch at').gasSettledAt with
      | some u =>
        rw [hg] at ht
        exact hclock.2 t (hg ▸ ht)
      | none =>
        rw [hg] at ht
        exact (hs.settled x hx t ht).trans hclock.1
    · exact hs.settled w hw t ht
  · intro a ha b hb hn hsa hsb
    rcases horigin a ha with rfl | ⟨ha, hai⟩ <;> rcases horigin b hb with rfl | ⟨hb, hbi⟩
    · rfl
    · have hsame := hs.apart x hx b hb (sameNonce_next.mp hn) hstate hsb
      exact absurd (congrArg (fun r => r.operation.id) hsame).symm hbi
    · have hsame := hs.apart a ha x hx (sameNonce_next.mp hn.symm).symm hsa hstate
      exact absurd (congrArg (fun r => r.operation.id) hsame) hai
    · exact hs.apart a ha b hb hn hsa hsb
  · intro k hk w hw hn hks hws
    rcases horigin k hk with rfl | ⟨hk, hki⟩ <;> rcases horigin w hw with rfl | ⟨hw, hwi⟩
    · exact absurd hks hws
    · -- the only one of the nonce that was not cancelled is `x`
      have hsame := hs.apart x hx w hw (sameNonce_next.mp hn) hstate hws
      exact absurd (congrArg (fun r => r.operation.id) hsame).symm hwi
    · have h := hs.ordered k hk x hx (sameNonce_next.mp hn.symm).symm hks hstate
      simpa only [next_createdAt] using h
    · exact hs.ordered k hk w hw hn hks hws

theorem Step.sequential (hs : Sequential rows)
    (h : Step (fun rows o => Unexecuted rows o ∧ AdmittedLater rows o) ClockForward rows rows') : Sequential rows' := by
  cases h with
  | @admission cfg input prepared id now limits sessions _ _ value x l hvalue hadmits hl hq hadmit =>
    obtain ⟨hunexecuted, hlater⟩ := hadmits
    unfold admitOperation at hadmit
    split at hadmit
    · split at hadmit
      · cases hadmit
      · obtain ⟨rfl, -⟩ := Prod.mk.inj (Except.ok.inj hadmit)
        exact hs
    · obtain ⟨_, -, hadmit⟩ := bind_eq_ok.mp hadmit
      obtain ⟨_, hid, hadmit⟩ := bind_eq_ok.mp hadmit
      obtain ⟨rfl, -⟩ := Prod.mk.inj (Except.ok.inj hadmit)
      have hid := revertIf_eq_ok.mp hid
      refine hs.admission (by rw [hvalue]; rfl) (fun r hr hn => ?_) (fun r hr he => hid ⟨r, hr, he⟩) hlater
        (by rw [hvalue]; nofun)
      have hl : Loaded rows now l := hl
      exact cancelled_of_finished (hl.no_unfinished hq hr) hn (hunexecuted r hr hn)
  | @transition _ _ id at' c b old x hfind hclock ht =>
    obtain ⟨old', hfind', hcases⟩ := transition_ok ht
    rw [hfind] at hfind'
    obtain rfl := Option.some.inj hfind'
    rcases hcases with ⟨-, hsource, rfl, -⟩ | ⟨-, -, rfl, -⟩
    · obtain ⟨hmem, rfl⟩ := mem_of_find hfind
      exact hs.change hmem hsource hclock
    · exact hs

theorem StoredRows.sequential
    (h : StoredRows (fun rows o => Unexecuted rows o ∧ AdmittedLater rows o) ClockForward rows) : Sequential rows :=
  h.invariant (by rintro _ rfl; exact sequential_nil) fun _ _ _ hs hstep => hstep.sequential hs

/-! ## The quotas -/

/-- Elements that are all one. -/
theorem length_le_one_of_eq {α : Type} {k : List α} (hn : k.Nodup) (h : ∀ a ∈ k, ∀ b ∈ k, a = b) : k.length ≤ 1 := by
  match k with
  | [] => exact Nat.zero_le 1
  | [a] => exact Nat.le_refl 1
  | a :: b :: rest =>
    obtain rfl := h a (by simp) b (by simp)
    simp at hn

theorem Sequential.unfinished_eq (hs : Sequential rows) (h : Loaded rows instant l) (o : Operation) :
    l.find? (isUnfinished o) = rows.find? (isUnfinished o) := by
  refine find?_perm (h.filter_perm fun v _ => inWindow_of_unfinished)
    (length_le_one_of_eq ((hs.keyed.of_map _).filter _) ?_)
  intro a ha b hb
  obtain ⟨ha, hua⟩ := List.mem_filter.mp ha
  obtain ⟨hb, hub⟩ := List.mem_filter.mp hb
  simp only [isUnfinished, Bool.and_eq_true, decide_eq_true_eq] at hua hub
  refine hs.apart a ha b hb ⟨hua.1.1.trans hub.1.1.symm, hua.1.2.trans hub.1.2.symm⟩ (fun he => ?_) fun he => ?_
  · rw [he] at hua
    simp [isRecoverable] at hua
  · rw [he] at hub
    simp [isRecoverable] at hub

theorem Loaded.faucet_eq (h : Loaded rows o.createdAt l) : l.any (usesFaucet o) = rows.any (usesFaucet o) := by
  rw [Bool.eq_iff_iff, List.any_eq_true, List.any_eq_true]
  constructor
  · rintro ⟨v, hv, hu⟩
    exact ⟨v, (h.mem hv).1, hu⟩
  · rintro ⟨v, hv, hu⟩
    exact ⟨v, h.mem_of hv (inWindow_of_faucet hu), hu⟩

theorem Loaded.sameDay_perm (h : Loaded rows o.createdAt l) : (sameDay l o).Perm (sameDay rows o) := by
  unfold sameDay sponsored
  rw [List.filter_filter, List.filter_filter]
  refine h.filter_perm fun v _ hv => ?_
  simp only [Bool.and_eq_true, decide_eq_true_eq] at hv
  exact inWindow_of_day hv.1.1

theorem Sequential.sameWeek_perm (hs : Sequential rows) (h : Loaded rows o.createdAt l) :
    (sameWeek l o).Perm (sameWeek rows o) := by
  unfold sameWeek sponsored
  rw [List.filter_filter, List.filter_filter]
  refine h.filter_perm fun v hv hw => ?_
  simp only [Bool.and_eq_true, decide_eq_true_eq] at hw
  exact inWindow_of_week (hs.settled v hv) hw.1.2

theorem mem_sameDay (h : v ∈ sameDay l o) : v ∈ l := (List.mem_filter.mp (List.mem_filter.mp h).1).1

theorem mem_sameWeek (h : v ∈ sameWeek l o) : v ∈ l := (List.mem_filter.mp (List.mem_filter.mp h).1).1

/-- A limit of the day, of some of the operations. -/
theorem Sequential.withinLimit_eq (hs : Sequential rows) (h : Loaded rows o.createdAt l) (p : StoredOperation → Bool)
    (reserved cost count : Nat) : withinLimit l reserved ((sameDay l o).filter p) cost count =
      withinLimit rows reserved ((sameDay rows o).filter p) cost count := by
  have hp := h.sameDay_perm.filter p
  unfold withinLimit
  rw [hp.length_eq, hs.chargesOf_eq h (fun v hv => mem_sameDay (List.mem_filter.mp hv).1) hp]

/-- Admission by the loaded rows is admission by all. -/
theorem Sequential.assertQuota_eq (hs : Sequential rows) {next : StoredOperation}
    (h : Loaded rows next.operation.createdAt l)
    (limits : SponsorConfig) : assertQuota l next limits = assertQuota rows next limits := by
  have hday : ∀ p : StoredOperation → Bool, ((sameDay l next.operation).filter p).length =
      ((sameDay rows next.operation).filter p).length := fun p => (h.sameDay_perm.filter p).length_eq
  have hall : ∀ reserved cost count, withinLimit l reserved (sameDay l next.operation) cost count =
      withinLimit rows reserved (sameDay rows next.operation) cost count := by
    intro reserved cost count
    simpa using hs.withinLimit_eq h (fun _ => true) reserved cost count
  have hweek : chargesOf l (sameWeek l next.operation) = chargesOf rows (sameWeek rows next.operation) :=
    hs.chargesOf_eq h (fun _ => mem_sameWeek) (hs.sameWeek_perm h)
  unfold assertQuota
  simp only [hs.unfinished_eq h, h.faucet_eq, hweek, hall, hs.withinLimit_eq h, hday]

theorem filter_operations {α β : Type} (f : α → β) {p q r s : β → Bool} (hs : ∀ b, s b = (q b && r b)) (k : List α) :
    (((k.map f).filter p).filter q).filter r = ((k.filter fun a => p (f a)).filter fun a => s (f a)).map f := by
  simp only [List.filter_map, List.filter_filter]
  apply congrArg (List.map f)
  apply List.filter_congr
  intro a _
  simp only [Function.comp_apply, hs]
  cases p (f a) <;> cases q (f a) <;> cases r (f a) <;> rfl

/-- A report of the budget is of the totals that admission compares. -/
theorem budgetTotals_eq (existing : Rows) (o : Operation) :
    budgetTotals (existing.map StoredOperation.operation) o.createdAt o.lane =
      ⟨chargesOf existing (sameDay existing o), (sameDay existing o).length,
        chargesOf existing (sameWeek existing o)⟩ := by
  have hdaily := filter_operations StoredOperation.operation (p := fun x => decide (x.gasPayment ≠ some .selfFunded))
    (q := fun x => decide (x.lane = o.lane)) (r := fun x => decide (dateOf x.createdAt = dateOf o.createdAt))
    (s := fun x => decide (dateOf x.createdAt = dateOf o.createdAt) && decide (x.lane = o.lane))
    (fun x => Bool.and_comm _ _) existing
  have hweekly := filter_operations StoredOperation.operation (p := fun x => decide (x.gasPayment ≠ some .selfFunded))
    (q := fun x => decide (x.lane = o.lane)) (r := fun x => countsTowardWeek x (weeklyBudgetWindow o.createdAt))
    (s := fun x => decide (x.lane = o.lane) && countsTowardWeek x (weeklyBudgetWindow o.createdAt))
    (fun x => rfl) existing
  unfold budgetTotals chargesOf sameDay sameWeek sponsored
  simp only [hdaily, hweekly, List.map_map, List.length_map, Function.comp_def]

end

/-- **The quotas of the rows that are loaded are those of all rows ever stored.** In every history in which an
operation is admitted only for a nonce that no operation of the account is on record as executed with, and in which
the clock of the steps on one nonce does not go back, admission accepts or refuses, with the same error, as it would
by all rows; the totals that it compares are those of the reports. -/
theorem assertQuota_loaded {rows : Rows}
    (h : StoredRows (fun rows o => Unexecuted rows o ∧ AdmittedLater rows o) ClockForward rows)
    {next : StoredOperation} {l l' : Rows} (hl : Loaded rows next.operation.createdAt l)
    (hl' : Loaded rows next.operation.createdAt l')
    (limits : SponsorConfig) :
    assertQuota l next limits = assertQuota rows next limits ∧
    budgetTotals (l'.map StoredOperation.operation) next.operation.createdAt next.operation.lane =
      ⟨chargesOf l (sameDay l next.operation), (sameDay l next.operation).length,
        chargesOf l (sameWeek l next.operation)⟩ ∧
    budgetTotals (rows.map StoredOperation.operation) next.operation.createdAt next.operation.lane =
      budgetTotals (l'.map StoredOperation.operation) next.operation.createdAt next.operation.lane := by
  have hs := h.sequential
  have htotals : ∀ k, Loaded rows next.operation.createdAt k →
      budgetTotals (k.map StoredOperation.operation) next.operation.createdAt next.operation.lane =
        budgetTotals (rows.map StoredOperation.operation) next.operation.createdAt next.operation.lane := by
    intro k hk
    rw [budgetTotals_eq, budgetTotals_eq, hs.chargesOf_eq hk (fun _ => mem_sameDay) hk.sameDay_perm,
      hk.sameDay_perm.length_eq,
      hs.chargesOf_eq hk (fun _ => mem_sameWeek) (hs.sameWeek_perm hk)]
  refine ⟨hs.assertQuota_eq hl limits, ?_, (htotals l' hl').symm⟩
  rw [htotals l' hl', ← htotals l hl, budgetTotals_eq]

/-! ## A nonce that is used twice -/

namespace QuotaSample

/-- A Monday in Shanghai begins. -/
def monday : Nat := 316800000

def claiming (nonce id now : Nat) : StoredOperation :=
  ⟨newOperation sampleConfig ⟨7, 1, id, .claimFees, none, none, nonce, [], none, none, none, id⟩
    ⟨addr 7, nonce, [], none, none⟩ id now,
    7, id, id⟩

def lane : LaneLimit := ⟨100000, 100000, 100000, 100, 100, 100⟩

/-- Two operations and a half. -/
def limits : SponsorConfig := ⟨lane, lane, 10, ⟨10000, 2500, by decide⟩⟩

inductive Act
  | admission (nonce id now : Nat)
  | change (id : Nat) (c : Change) (at' : Nat)

def Act.after (rows : Rows) : Act → Rows
  | .admission nonce id now => rows ++ [claiming nonce id now]
  | .change id c at' => (rows.find id).elim rows fun old => rows.set id (c.next at' old.operation)

section

variable (A : Rows → Operation → Prop) [∀ rows o, Decidable (A rows o)]

def Act.legal (rows : Rows) : Act → Bool
  | .admission nonce id now =>
    decide (A rows (claiming nonce id now).operation) &&
      decide (assertQuota (rows.filter (inWindow (quotaHistoryStart now)))
      (claiming nonce id now) limits = .ok ()) && rows.all fun r => decide (r.operation.id ≠ id ∧ r.idempotencyKey ≠ id)
  | .change id c at' => (rows.find id).any fun old => decide (ClockForward old.operation c at') &&
      decide (old.operation.state ∈ c.source)

def play (rows : Rows) : List Act → Rows
  | [] => rows
  | a :: as => play (a.after rows) as

def legal (rows : Rows) : List Act → Bool
  | [] => true
  | a :: as => a.legal A rows && legal (a.after rows) as

variable {A} {rows : Rows}

theorem Act.legal_step {a : Act} (h : a.legal A rows = true) : Step A ClockForward rows (a.after rows) := by
  cases a with
  | admission nonce id now =>
    simp only [Act.legal, Bool.and_eq_true, decide_eq_true_eq, List.all_eq_true] at h
    obtain ⟨⟨hA, hq⟩, hfresh⟩ := h
    have hnone : rows.find? (fun r => r.subject = (claiming nonce id now).subject ∧
        r.idempotencyKey = (claiming nonce id now).idempotencyKey) = none :=
      List.find?_eq_none.mpr fun r hr hp => (hfresh r hr).2 (of_decide_eq_true hp).2
    have hid : ¬∃ r ∈ rows, r.operation.id = (claiming nonce id now).operation.id := by
      rintro ⟨r, hr, he⟩
      exact (hfresh r hr).1 he
    have hadmits : admitOperation [] rows (claiming nonce id now) =
        .ok (rows ++ [claiming nonce id now], claiming nonce id now) := by
      unfold admitOperation
      rw [hnone]
      exact bind_eq_ok.mpr ⟨(), rfl, bind_eq_ok.mpr ⟨(), revertIf_neg _ hid, rfl⟩⟩
    exact Step.admission rfl hA (List.Perm.refl _) hq hadmits
  | change id c at' =>
    cases hold : rows.find id with
    | none =>
      rw [Act.legal, hold] at h
      cases h
    | some old =>
    rw [Act.legal, hold] at h
    obtain ⟨hclock, hsource⟩ := Bool.and_eq_true_iff.mp h
    refine Step.transition hold (of_decide_eq_true hclock) (b := true)
      (x := { old with operation := c.next at' old.operation }) ?_
    unfold transition Act.after
    simp only [hold, if_pos (of_decide_eq_true hsource), Option.elim_some]

theorem legal_reachable {as : List Act} (hr : StoredRows A ClockForward rows) (h : legal A rows as = true) :
    StoredRows A ClockForward (play rows as) := by
  induction as generalizing rows with
  | nil => exact hr
  | cons a as ih =>
    obtain ⟨ha, has⟩ := Bool.and_eq_true_iff.mp h
    exact ih (hr.next (Act.legal_step ha)) has

end

/-- Executed, with what is known of the finality. -/
def outcome (finality : Finality) (settledAt : Option Nat) :
    Change := .settle ⟨.confirmed, finality, 9, 100, 1, 10, settledAt, none⟩

/-- An operation is confirmed, and another with its nonce is admitted before it is final, and cancelled in the next
week. -/
def acts : List Act :=
  [.admission 5 1 (monday - 7200000), .change 1 (.submit 77) (monday - 7199000),
    .change 1 (outcome .applicationConfirmed none) (monday - 7100000),
    .admission 5 2 (monday - 7000000), .change 2 .sponsor (monday - 6990000),
    .change 1 (outcome .finalized (some (monday - 6000000))) (monday - 6000000), .change 2 .cancel (monday + 3600000),
    .admission 6 3 (monday + 32400000)]

/-- An operation is cancelled in the next week; then another with its nonce is admitted, executed and final. -/
def regular : List Act :=
  [.admission 5 1 (monday - 7200000), .change 1 .sponsor (monday - 7100000), .change 1 .cancel (monday + 3600000),
    .admission 5 2 (monday + 7200000), .change 2 (.submit 77) (monday + 7300000),
    .change 2 (outcome .finalized (some (monday + 8000000))) (monday + 8000000), .admission 6 3 (monday + 32400000)]

end QuotaSample

open QuotaSample in
/-- The final operation is not loaded, and the cancelled one with its nonce takes up the budget of the week. -/
theorem assertQuota_misses : ∃ rows l, StoredRows (fun rows o => Unfinalised rows o ∧ AdmittedLater rows o)
    ClockForward rows ∧
    Unfinalised rows (claiming 7 4 (monday + 36000000)).operation ∧ Loaded rows (monday + 36000000) l ∧
    assertQuota l (claiming 7 4 (monday + 36000000)) limits = .error .sponsorshipWeeklyBudgetExhausted ∧
    assertQuota rows (claiming 7 4 (monday + 36000000)) limits = .ok () :=
  ⟨play [] acts, _, legal_reachable (.start rfl) (by decide +kernel), by decide +kernel,
    List.Perm.refl _, by decide +kernel,
    by decide +kernel⟩

open QuotaSample in
/-- The cancelled operation and the final one with its nonce are loaded, and the cancelled one is free. -/
theorem assertQuota_loaded_sample : charge (finalNonces ((play [] regular).map StoredOperation.operation))
      (((play [] regular).map StoredOperation.operation).head?.getD (claiming 5 1 0).operation) = 0 ∧
    assertQuota (play [] regular) (claiming 7 4 (monday + 36000000)) limits = .ok () ∧
    assertQuota ((play [] regular).filter (inWindow (quotaHistoryStart (monday + 36000000))))
      (claiming 7 4 (monday + 36000000)) limits = assertQuota (play [] regular)
      (claiming 7 4 (monday + 36000000)) limits :=
  ⟨by decide +kernel, by decide +kernel,
    (assertQuota_loaded (legal_reachable (.start rfl) (by decide +kernel)) (List.Perm.refl _)
      (List.Perm.refl _) limits).1⟩

end Cpredict.Operations
