import Cpredict.Session.Policy

/-!
# The budget of a session

`Life` is the life of one session, that of an account and a permission: it is installed at most once, spends within
its limits while it is installed and not revoked, and stays revoked. Every run of the policy is a life of every session
(`Run.life`), and a life keeps its budget (`Life.budget`).
-/

namespace Cpredict.Session

open Outcome Abi

/-! ## One session -/

/-- What a call did to a session. -/
inductive Change
  | installed (perOperation total validAfter validUntil : Nat)
  | revoked
  | accepted (amount validationData : Nat)

/-- The changes of a session, and what they make of its state. -/
inductive Advance : SessionState → Change → SessionState → Prop
  | install {s : SessionState} {perOperation total validAfter validUntil : Nat} (hr : s.revoked = false)
      (hi : s.installed = false) (hp : perOperation ≠ 0) (ht : perOperation ≤ total) (ht' : total < 2 ^ 128)
      (hv : validAfter < validUntil) (hv' : validUntil ≤ validAfter + 86400) (hu : validUntil < 2 ^ 48) :
      Advance s (.installed perOperation total validAfter validUntil)
        { s with
          perOperation := perOperation
          total := total
          validAfter := validAfter
          validUntil := validUntil
          installed := true }
  | revoke {s : SessionState} : Advance s .revoked { s with revoked := true }
  | accept {s : SessionState} {amount : Nat} (hi : s.installed = true) (hr : s.revoked = false)
      (hp : amount ≤ s.perOperation) (ht : s.spent + amount ≤ s.total) :
      Advance s (.accepted amount (validityBounds s)) { s with spent := s.spent + amount }

/-- The life of a session: the changes that have led to its state. -/
inductive Life : List Change → SessionState → Prop
  | blank : Life [] .blank
  | tail {h : List Change} {s t : SessionState} {c : Change} (hl : Life h s) (ha : Advance s c t) : Life (h ++ [c]) t

/-- The amounts that have been accepted. -/
def amounts (h : List Change) : List Nat :=
  h.filterMap fun
    | .accepted amount _ => some amount
    | _ => none

/-- The changes that install a session. -/
def Change.isInstalled : Change → Bool
  | .installed .. => true
  | _ => false

theorem amounts_append (h k : List Change) : amounts (h ++ k) = amounts h ++ amounts k := List.filterMap_append

namespace Life

variable {h pre post : List Change} {s : SessionState} {c : Change}

/-- A change of a life, with the states on both sides of it. -/
theorem split (hl : Life h s) (he : h = pre ++ c :: post) : ∃ a b, Life pre a ∧ Advance a c b := by
  induction hl generalizing pre c post with
  | blank => cases pre <;> cases he
  | @tail h s t d hl ha ih =>
    rcases List.eq_nil_or_concat post with hp | ⟨post, e, rfl⟩
    · subst hp
      obtain ⟨hh, hd⟩ := List.append_inj' he rfl
      rw [← hh, ← (List.cons.inj hd).1]
      exact ⟨s, t, hl, ha⟩
    · rw [List.concat_eq_append, ← List.cons_append, ← List.append_assoc] at he
      exact ih (List.append_inj' he rfl).1

/-- A session is installed when it has been. -/
theorem installed_iff (hl : Life h s) : s.installed = true ↔ ∃ c ∈ h, c.isInstalled = true := by
  induction hl with
  | blank => simp [SessionState.blank]
  | tail hl ha ih => cases ha <;> simp_all [Change.isInstalled, or_and_right, exists_or]

/-- A session is revoked when it has been. -/
theorem revoked_iff (hl : Life h s) : s.revoked = true ↔ .revoked ∈ h := by
  induction hl with
  | blank => simp [SessionState.blank]
  | tail hl ha ih => cases ha <;> simp_all

/-- Before its installation nothing is spent. -/
theorem amounts_eq_nil (hl : Life h s) (hi : s.installed = false) : amounts h = [] := by
  induction hl with
  | blank => rfl
  | tail hl ha ih =>
    rw [amounts_append]
    cases ha with
    | install => cases hi
    | revoke => rw [ih hi]; rfl
    | accept hi' => rw [hi'] at hi; cases hi

/-- The limits of an installed session. -/
theorem limits (hl : Life h s) (hi : s.installed = true) :
    s.validAfter < s.validUntil ∧ s.validUntil ≤ s.validAfter + 86400 ∧ s.validUntil < 2 ^ 48 := by
  induction hl with
  | blank => cases hi
  | tail hl ha ih =>
    cases ha with
    | install _ _ _ _ _ hv hv' hu => exact ⟨hv, hv', hu⟩
    | revoke => exact ih hi
    | accept => exact ih hi

theorem total_bounds (hl : Life h s) : s.perOperation ≤ s.total ∧ s.total < 2 ^ 128 := by
  induction hl with
  | blank => decide
  | tail hl ha ih =>
    cases ha with
    | install _ _ _ ht ht' => exact ⟨ht, ht'⟩
    | revoke => exact ih
    | accept => exact ih

/-- What has been spent is the sum of what has been accepted. -/
theorem spent_eq (hl : Life h s) : s.spent = (amounts h).sum := by
  induction hl with
  | blank => rfl
  | tail hl ha ih =>
    rw [amounts_append, List.sum_append, ← ih]
    cases ha <;> simp [amounts]

theorem spent_le (hl : Life h s) : s.spent ≤ s.total := by
  induction hl with
  | blank => exact Nat.le_refl 0
  | tail hl ha ih =>
    cases ha with
    | install _ hi =>
      have hs := hl.spent_eq
      rw [hl.amounts_eq_nil hi] at hs
      exact hs.trans_le (Nat.zero_le _)
    | revoke => exact ih
    | accept _ _ _ ht => exact ht

theorem le_perOperation (hl : Life h s) : ∀ a ∈ amounts h, a ≤ s.perOperation := by
  induction hl with
  | blank => intro a ha; cases ha
  | tail hl ha ih =>
    intro a hm
    rw [amounts_append, List.mem_append] at hm
    cases ha with
    | install _ hi =>
      rw [hl.amounts_eq_nil hi] at hm
      rcases hm with hm | hm <;> cases hm
    | revoke =>
      rcases hm with hm | hm
      · exact ih a hm
      · cases hm
    | accept _ _ hp =>
      rcases hm with hm | hm
      · exact ih a hm
      · obtain rfl := List.mem_singleton.mp hm
        exact hp

/-- The limits stay those of the installation. -/
theorem limits_of_mem (hl : Life h s) {p t a u : Nat} (hm : .installed p t a u ∈ h) :
    s.perOperation = p ∧ s.total = t ∧ s.validAfter = a ∧ s.validUntil = u := by
  induction hl with
  | blank => cases hm
  | tail hl ha ih =>
    rw [List.mem_append, List.mem_singleton] at hm
    cases ha with
    | install _ hi =>
      rcases hm with hm | hm
      · have := hl.installed_iff.mpr ⟨_, hm, rfl⟩
        rw [hi] at this
        cases this
      · cases hm
        exact ⟨rfl, rfl, rfl, rfl⟩
    | revoke =>
      rcases hm with hm | hm
      · exact ih hm
      · cases hm
    | accept =>
      rcases hm with hm | hm
      · exact ih hm
      · cases hm

/-- What is accepted comes after the installation and before every revocation. -/
theorem before_accepted (hl : Life h s) {amount v : Nat} (he : h = pre ++ .accepted amount v :: post) :
    (∃ c ∈ pre, c.isInstalled = true) ∧ .revoked ∉ pre := by
  obtain ⟨a, b, hl', ha⟩ := hl.split he
  cases ha with
  | accept hi hr =>
    refine ⟨hl'.installed_iff.mp hi, ?_⟩
    intro hm
    rw [hl'.revoked_iff.mpr hm] at hr
    cases hr

/-- A session is installed once, and not after a revocation. -/
theorem before_installed (hl : Life h s) (hc : c.isInstalled = true) (he : h = pre ++ c :: post) :
    (∀ d ∈ pre, d.isInstalled = false) ∧ .revoked ∉ pre := by
  obtain ⟨a, b, hl', ha⟩ := hl.split he
  cases ha with
  | install hr hi =>
    constructor
    · intro d hd
      by_contra hn
      rw [hl'.installed_iff.mpr ⟨d, hd, by simpa using hn⟩] at hi
      cases hi
    · intro hm
      rw [hl'.revoked_iff.mpr hm] at hr
      cases hr
  | revoke => cases hc
  | accept => cases hc

/-- The word that is returned holds the bounds of the session. -/
theorem validityBounds_eq {s : SessionState} (hu : s.validUntil < 2 ^ 48) :
    validityBounds s = 2 ^ 160 * (s.validUntil + 2 ^ 48 * s.validAfter) := by
  have hlt : s.validUntil <<< 160 < 2 ^ 208 := by
    rw [Nat.shiftLeft_eq]
    omega
  unfold validityBounds
  rw [Nat.or_comm, ← Nat.shiftLeft_add_eq_or_of_lt hlt, Nat.shiftLeft_eq, Nat.shiftLeft_eq]
  ring

theorem bounds_of_mem (hl : Life h s) {amount v : Nat} (hm : .accepted amount v ∈ h) :
    v % 2 ^ 160 = 0 ∧ v / 2 ^ 160 % 2 ^ 48 = s.validUntil ∧ v / 2 ^ 208 = s.validAfter := by
  induction hl with
  | blank => cases hm
  | tail hl ha ih =>
    rw [List.mem_append, List.mem_singleton] at hm
    cases ha with
    | install _ hi =>
      rcases hm with hm | hm
      · obtain ⟨pre, post, he⟩ := List.append_of_mem hm
        obtain ⟨⟨c, hc, hc'⟩, -⟩ := hl.before_accepted he
        rw [hl.installed_iff.mpr ⟨c, he ▸ List.mem_append_left _ hc, hc'⟩] at hi
        cases hi
      · cases hm
    | revoke =>
      rcases hm with hm | hm
      · exact ih hm
      · cases hm
    | accept hi =>
      rcases hm with hm | hm
      · exact ih hm
      · cases hm
        have hu := (hl.limits hi).2.2
        rw [validityBounds_eq hu]
        simp only
        omega

end Life

/-- The budget of a session with the changes `h` and the state `s`. -/
structure Budget (h : List Change) (s : SessionState) : Prop where
  /-- What is spent is the sum of what has been accepted, within limits of 128 bits. -/
  spent : s.spent = (amounts h).sum
  spent_le : s.spent ≤ s.total
  total : s.perOperation ≤ s.total ∧ s.total < 2 ^ 128
  each : ∀ a ∈ amounts h, a ≤ s.perOperation
  /-- An operation is accepted after an installation and not after a revocation. -/
  accepted : ∀ pre amount v post, h = pre ++ .accepted amount v :: post →
    (∃ c ∈ pre, c.isInstalled = true) ∧ .revoked ∉ pre
  /-- There is one installation, not after a revocation, and its limits stay. -/
  installed : ∀ pre p t a u post, h = pre ++ .installed p t a u :: post →
    s.perOperation = p ∧ s.total = t ∧ s.validAfter = a ∧ s.validUntil = u ∧ a < u ∧ u ≤ a + 86400 ∧
      (∀ c ∈ pre ++ post, c.isInstalled = false) ∧ .revoked ∉ pre
  /-- An accepted operation gets the bounds of the session. -/
  bounds : ∀ amount v, .accepted amount v ∈ h →
    v % 2 ^ 160 = 0 ∧ v / 2 ^ 160 % 2 ^ 48 = s.validUntil ∧ v / 2 ^ 208 = s.validAfter

theorem Life.budget {h : List Change} {s : SessionState} (hl : Life h s) : Budget h s where
  spent := hl.spent_eq
  spent_le := hl.spent_le
  total := hl.total_bounds
  each := hl.le_perOperation
  accepted pre amount v post he := hl.before_accepted he
  installed pre p t a u post he := by
    have hm : Change.installed p t a u ∈ h := by rw [he]; simp
    obtain ⟨hp, ht, ha, hu⟩ := hl.limits_of_mem hm
    obtain ⟨hv, hv', -⟩ := hl.limits (hl.installed_iff.mpr ⟨_, hm, rfl⟩)
    obtain ⟨hpre, hr⟩ := hl.before_installed (c := .installed p t a u) rfl he
    refine ⟨hp, ht, ha, hu, ?_, ?_, ?_, hr⟩
    · rwa [← ha, ← hu]
    · rwa [← ha, ← hu]
    · intro c hc
      rcases List.mem_append.mp hc with hc | hc
      · exact hpre c hc
      · -- a later installation would come after this one
        by_contra hn
        obtain ⟨mid, post', rfl⟩ := List.append_of_mem hc
        have he' : h = (pre ++ .installed p t a u :: mid) ++ c :: post' := by rw [he]; simp
        have := (hl.before_installed (by simpa using hn) he').1 (.installed p t a u) (by simp)
        cases this
  bounds amount v hm := hl.bounds_of_mem hm

/-! ## The policy -/

/-- The permission that a call names. -/
def PolicyCall.id : PolicyCall → Option Bytes32
  | .onInstall data => if data.length = 0 then none else some (ofBytes (data.take 32))
  | .onUninstall data => if data.length = 0 then none else some (ofBytes (data.take 32))
  | .revoke id => some id
  | .checkUserOpPolicy id _ => some id

/-- The permission that a call has touched, and what it did to its session. -/
def Done.change : Done → Option (Bytes32 × Change)
  | .hook => none
  | .installed id perOperation total validAfter validUntil =>
      some (id, .installed perOperation total validAfter validUntil)
  | .revoked id => some (id, .revoked)
  | .accepted id amount validationData => some (id, .accepted amount validationData)

/-- Only the session of `id` and `account` has changed, by `c`. -/
structure Changed (S : Sessions) (id : Bytes32) (account : Address) (c : Change) (S' : Sessions) : Prop where
  advance : Advance (S.sessionState id account) c (S'.sessionState id account)
  frame : ∀ id' account', id' ≠ id ∨ account' ≠ account → S'.sessionState id' account' = S.sessionState id' account'

variable {P : Policy} {X : Chain} {S S' : Sessions} {caller : Address} {d : Done}

@[simp] theorem Sessions.set_emit_sessionState (id : Bytes32) (account : Address) (s : SessionState)
    (e : SessionEvent) :
    ((S.set id account s).emit e).sessionState = (S.set id account s).sessionState := rfl

theorem Sessions.set_self (id : Bytes32) (account : Address) (s : SessionState) :
    (S.set id account s).sessionState id account = s := by simp [Sessions.set]

theorem Sessions.set_frame {id id' : Bytes32} {account account' : Address} (s : SessionState)
    (h : id' ≠ id ∨ account' ≠ account) :
    (S.set id account s).sessionState id' account' = S.sessionState id' account' := by
  unfold Sessions.set
  by_cases hi : id' = id
  · subst hi
    rcases h with h | h
    · exact absurd rfl h
    · simp [Function.update_of_ne h]
  · simp [Function.update_of_ne hi]

/-- The storage of one session is written. -/
theorem Changed.set {id : Bytes32} {account : Address} {c : Change} {s : SessionState}
    (ha : Advance (S.sessionState id account) c s) (hs : S'.sessionState = (S.set id account s).sessionState) :
    Changed S id account c S' where
  advance := by rw [hs, Sessions.set_self]; exact ha
  frame id' account' h := by rw [hs, Sessions.set_frame s h]

theorem decodeLimits_lt {b : Bytes} {p t a u : Nat} (h : decodeLimits b = some (p, t, a, u)) :
    p < 2 ^ 128 ∧ t < 2 ^ 128 ∧ a < 2 ^ 48 ∧ u < 2 ^ 48 := by
  simp only [decodeLimits, Option.bind_eq_bind, Option.bind_eq_some_iff, Option.guard_eq_some', Option.some.injEq,
    Prod.mk.injEq] at h
  obtain ⟨_, -, _, -, _, -, _, -, _, hlt, rfl, rfl, rfl, rfl⟩ := h
  exact hlt

theorem onInstall_changed {data : Bytes} (h : onInstall S caller data = .ok (S', d)) :
    (d = .hook ∧ S' = S ∧ data.length = 0) ∨
      ∃ c, d.change = some (ofBytes (data.take 32), c) ∧ data.length ≠ 0 ∧
        Changed S (ofBytes (data.take 32)) caller c S' := by
  unfold onInstall at h
  split at h
  case isTrue h0 =>
    cases h
    exact .inl ⟨rfl, rfl, h0⟩
  case isFalse h0 =>
    simp only [bind_eq_ok, revertIf_eq_ok] at h
    obtain ⟨-, hlen, ⟨p, t, a, u⟩, hl, -, hg, -, hs, h⟩ := h
    cases hd : decodeLimits (data.drop 32) with
    | none => rw [hd] at hl; cases hl
    | some l =>
      rw [hd] at hl
      cases hl
      cases h
      obtain ⟨-, ht', -, hu⟩ := decodeLimits_lt hd
      simp only [not_or, Bool.not_eq_true] at hg hs
      obtain ⟨hp, ht, hv, hspan⟩ := hg
      refine .inr ⟨_, rfl, h0, Changed.set ?_ rfl⟩
      exact .install hs.1 hs.2 hp (Nat.not_lt.mp ht) ht' (Nat.not_le.mp hv)
        (Nat.sub_le_iff_le_add'.mp (Nat.not_lt.mp hspan)) hu

theorem revoke_changed (S : Sessions) (caller : Address) (id : Bytes32) :
    Changed S id caller .revoked (revoke S caller id) := Changed.set .revoke rfl

theorem onUninstall_changed {data : Bytes} (h : onUninstall S caller data = .ok (S', d)) :
    (d = .hook ∧ S' = S ∧ data.length = 0) ∨
      ∃ c, d.change = some (ofBytes (data.take 32), c) ∧ data.length ≠ 0 ∧
        Changed S (ofBytes (data.take 32)) caller c S' := by
  unfold onUninstall at h
  split at h
  case isTrue h0 =>
    cases h
    exact .inl ⟨rfl, rfl, h0⟩
  case isFalse h0 =>
    simp only [bind_eq_ok, revertIf_eq_ok] at h
    obtain ⟨-, -, h⟩ := h
    cases h
    exact .inr ⟨_, rfl, h0, revoke_changed S caller _⟩

/-- An accepted operation is charged in full: the cast to 128 bits drops nothing. -/
theorem checkUserOpPolicy_changed {id : Bytes32} {op : UserOp} (hb : (S.sessionState id caller).perOperation < 2 ^ 128)
    (h : checkUserOpPolicy P X S caller id op = .ok (S', d)) :
    ∃ c, d.change = some (id, c) ∧ Changed S id caller c S' := by
  unfold checkUserOpPolicy at h
  simp only [bind_eq_ok, revertIf_eq_ok] at h
  obtain ⟨-, hs, -, -, -, -, calls, -, amount, -, -, hg, -, -, h⟩ := h
  simp only [not_or, Bool.not_eq_false, Bool.not_eq_true] at hs hg
  have hmod : amount % 2 ^ 128 = amount := Nat.mod_eq_of_lt (by omega)
  rw [hmod] at h
  cases h
  refine ⟨_, rfl, Changed.set (.accept hs.2.1 hs.2.2 (by omega) (by omega)) ?_⟩
  split <;> rfl

/-- A call changes the session that it names, of its caller, and no other. -/
theorem exec_changed {c : PolicyCall} (hb : ∀ id account, (S.sessionState id account).perOperation < 2 ^ 128)
    (h : exec P X S caller c = .ok (S', d)) :
    (d.change = none ∧ S' = S) ∨ ∃ id ch, d.change = some (id, ch) ∧ c.id = some id ∧ Changed S id caller ch S' := by
  cases c with
  | onInstall data =>
    rcases onInstall_changed h with ⟨rfl, rfl, -⟩ | ⟨ch, hd, h0, hc⟩
    · exact .inl ⟨rfl, rfl⟩
    · exact .inr ⟨_, ch, hd, if_neg h0, hc⟩
  | onUninstall data =>
    rcases onUninstall_changed h with ⟨rfl, rfl, -⟩ | ⟨ch, hd, h0, hc⟩
    · exact .inl ⟨rfl, rfl⟩
    · exact .inr ⟨_, ch, hd, if_neg h0, hc⟩
  | revoke id =>
    cases h
    exact .inr ⟨id, _, rfl, rfl, revoke_changed S caller id⟩
  | checkUserOpPolicy id op =>
    obtain ⟨ch, hd, hc⟩ := checkUserOpPolicy_changed (hb id caller) h
    exact .inr ⟨id, ch, hd, rfl, hc⟩

/-! ## Runs -/

/-- The successful calls of the policy since its deployment, with what each has done. What other contracts say (`X`) may
differ from call to call. -/
inductive Run (P : Policy) : List (Address × Done) → Sessions → Prop
  | deployed : Run P [] .deployed
  | call {tr : List (Address × Done)} {S S' : Sessions} {X : Chain} {caller : Address} {c : PolicyCall} {d : Done}
      (hr : Run P tr S) (h : exec P X S caller c = .ok (S', d)) : Run P (tr ++ [(caller, d)]) S'

/-- What a call has done to the session of `id` and `account`. -/
def changeOf (id : Bytes32) (account : Address) (e : Address × Done) : Option Change :=
  e.2.change.bind fun x => if x.1 = id ∧ e.1 = account then some x.2 else none

/-- The changes of one session in a run. -/
def history (id : Bytes32) (account : Address) (tr : List (Address × Done)) : List Change :=
  tr.filterMap (changeOf id account)

theorem history_concat (id : Bytes32) (account : Address) (tr : List (Address × Done)) (e : Address × Done) :
    history id account (tr ++ [e]) = history id account tr ++ (changeOf id account e).toList := by
  unfold history
  rw [List.filterMap_append]
  cases h : changeOf id account e <;> simp [h]

variable {tr : List (Address × Done)}

/-- Every run is a life of every session. -/
theorem Run.life (h : Run P tr S) (id : Bytes32) (account : Address) :
    Life (history id account tr) (S.sessionState id account) := by
  induction h generalizing id account with
  | deployed => exact .blank
  | @call tr S S' X caller c d hr h ih =>
    have hb : ∀ id account, (S.sessionState id account).perOperation < 2 ^ 128 := by
      intro id account
      obtain ⟨hp, ht⟩ := (ih id account).total_bounds
      exact hp.trans_lt ht
    rw [history_concat]
    rcases exec_changed hb h with ⟨hd, rfl⟩ | ⟨id', ch, hd, -, hc⟩
    · have hn : changeOf id account (caller, d) = none := by simp [changeOf, hd]
      rw [hn, Option.toList_none, List.append_nil]
      exact ih id account
    · by_cases he : id' = id ∧ caller = account
      · obtain ⟨rfl, rfl⟩ := he
        have hs : changeOf id' caller (caller, d) = some ch := by simp [changeOf, hd]
        rw [hs]
        exact .tail (ih id' caller) hc.advance
      · have hn : changeOf id account (caller, d) = none := by simp [changeOf, hd, he]
        have hf : id ≠ id' ∨ account ≠ caller := by
          rcases not_and_or.mp he with h | h
          · exact .inl (Ne.symm h)
          · exact .inr (Ne.symm h)
        rw [hn, Option.toList_none, List.append_nil, hc.frame id account hf]
        exact ih id account

theorem Run.perOperation_lt (h : Run P tr S) (id : Bytes32) (account : Address) :
    (S.sessionState id account).perOperation < 2 ^ 128 := by
  obtain ⟨hp, ht⟩ := (h.life id account).total_bounds
  exact hp.trans_lt ht

/-- In every run every session keeps its budget, and the calls of other accounts or for other permissions leave it
alone. -/
theorem session_budget (h : Run P tr S) (id : Bytes32) (account : Address) :
    Budget (history id account tr) (S.sessionState id account) ∧
      ∀ X caller c S' d, exec P X S caller c = .ok (S', d) → caller ≠ account ∨ c.id ≠ some id →
        S'.sessionState id account = S.sessionState id account := by
  refine ⟨(h.life id account).budget, ?_⟩
  intro X caller c S' d hx hne
  rcases exec_changed h.perOperation_lt hx with ⟨-, rfl⟩ | ⟨id', ch, -, hid, hc⟩
  · rfl
  · apply hc.frame
    rcases hne with hne | hne
    · exact .inr (Ne.symm hne)
    · left
      rintro rfl
      exact hne hid

/-! ## Calls in a row -/

/-- Some calls in a row, of any accounts, with what each has done. -/
def execAll (P : Policy) (X : Chain) : Sessions → List (Address × PolicyCall) →
    Except SessionErr (Sessions × List (Address × Done))
  | S, [] => .ok (S, [])
  | S, (caller, c) :: cs => do
    let (S', d) ← exec P X S caller c
    let (S'', ds) ← execAll P X S' cs
    .ok (S'', (caller, d) :: ds)

theorem Run.execAll (h : Run P tr S) {cs : List (Address × PolicyCall)} {ds : List (Address × Done)}
    (hx : execAll P X S cs = .ok (S', ds)) : Run P (tr ++ ds) S' := by
  induction cs generalizing S tr ds with
  | nil =>
    cases hx
    rwa [List.append_nil]
  | cons c cs ih =>
    obtain ⟨caller, c⟩ := c
    simp only [Session.execAll, bind_eq_ok] at hx
    obtain ⟨⟨S₁, d⟩, h₁, ⟨S₂, ds₂⟩, h₂, hx⟩ := hx
    cases hx
    have := ih (h.call h₁) h₂
    rwa [List.append_assoc] at this

/-- The parts of the sample: the contracts, a session with the limits `10` and `25`, and an operation that buys for
`6`. -/
def samplePolicy : Policy := ⟨addr 1, addr 2, addr 3, addr 4, addr 5, addr 6⟩

def sampleChain : Chain := ⟨fun _ => true, fun _ => .blank, fun _ => ⟨addr 0, 0, false⟩⟩

def sampleInstall : Bytes := word 7 ++ (word 10 ++ (word 25 ++ (word 100 ++ word 200)))

def samplePurchase : List Call :=
  [⟨addr 3, 0, encodeCall APPROVE [8, 0]⟩, ⟨addr 3, 0, encodeCall APPROVE [8, 6]⟩,
    ⟨addr 8, 0, encodeCall BUY [0, 5, 5, 6, 150]⟩, ⟨addr 3, 0, encodeCall APPROVE [8, 0]⟩]

def sampleOp : UserOp where
  sender := addr 9
  callData := EXECUTE_USER_OP ++ encodeExecute BATCH (encodeCalls samplePurchase)
  paymasterAndData := (word 6).drop 12 ++ word 0

theorem session_budget_sample :
    ∃ S : Sessions, Budget (history 7 (addr 9)
        [(addr 9, .installed 7 10 25 100 200), (addr 9, .accepted 7 6 (2 ^ 160 * (200 + 2 ^ 48 * 100))),
          (addr 9, .revoked 7)])
      (S.sessionState 7 (addr 9)) ∧ (S.sessionState 7 (addr 9)).spent = 6 := by
  have hx : (execAll samplePolicy sampleChain .deployed
      [(addr 9, .onInstall sampleInstall), (addr 9, .checkUserOpPolicy 7 sampleOp), (addr 9, .revoke 7)]).map Prod.snd =
        .ok [(addr 9, .installed 7 10 25 100 200), (addr 9, .accepted 7 6 (2 ^ 160 * (200 + 2 ^ 48 * 100))),
          (addr 9, .revoked 7)] := by decide +kernel
  cases he : execAll samplePolicy sampleChain .deployed
      [(addr 9, .onInstall sampleInstall), (addr 9, .checkUserOpPolicy 7 sampleOp), (addr 9, .revoke 7)] with
  | error e =>
    rw [he] at hx
    cases hx
  | ok r =>
    obtain ⟨S, ds⟩ := r
    rw [he] at hx
    cases hx
    have hb := (session_budget (Run.deployed.execAll he) 7 (addr 9)).1
    exact ⟨S, hb, hb.spent⟩

end Cpredict.Session
