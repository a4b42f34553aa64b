import Cpredict.Lib.Tally
import Cpredict.Operations.Charges
import Cpredict.Operations.Spending
import Cpredict.Session.Budget

/-!
# Reservations of trading sessions

An admission reserves what its intent spends of the budget of its session, until it is cancelled without a hash.
What the policy has charged on the chain is charged for operations that have been sent, so that the reservations
cover it (`session_reservation`).
-/

namespace Cpredict.Operations

open Program Outcome

/-! ## What the table reserves -/

/-- What an operation reserves of the budget of a session. -/
def reservation (sessionId : Nat) (o : Operation) : Nat :=
  if o.sessionId = some sessionId ∧ reserves o = true then sessionSpend o.intent else 0

theorem reserved_eq (ops : List Operation) (sessionId : Nat) :
    reserved ops sessionId = (ops.map (reservation sessionId)).sum := by
  unfold reserved
  induction ops with
  | nil => rfl
  | cons o ops ih =>
    rw [List.map_cons, List.sum_cons, ← ih, reservation]
    by_cases h : o.sessionId = some sessionId ∧ reserves o = true
    · rw [List.filter_cons_of_pos (by simpa using h), if_pos h]
      rfl
    · rw [List.filter_cons_of_neg (by simpa using h), if_neg h, Nat.zero_add]

theorem reserved_filter (ops : List Operation) (sessionId : Nat) :
    reserved (ops.filter fun o => decide (o.sessionId = some sessionId)) sessionId = reserved ops sessionId := by
  unfold reserved
  rw [List.filter_filter]
  congr 3
  funext o
  cases decide (o.sessionId = some sessionId) <;> simp

/-- An operation that has a hash keeps its reservation. -/
theorem reserves_of_hash {o : Operation} (h : o.userOperationHash ≠ none) : reserves o = true := by
  simp [reserves, Option.isSome_iff_ne_none, h]

/-- A change reserves nothing. -/
theorem reservation_next_le {c : Change} {at' sessionId : Nat} {o : Operation} (hs : o.state ∈ c.source) :
    reservation sessionId (c.next at' o) ≤ reservation sessionId o := by
  have hadm := next_admission c at' o
  have ho : reserves o = true := by simp [reserves, source_not_cancelled hs]
  unfold reservation
  rw [hadm.sessionId, hadm.intent, ho]
  by_cases h : o.sessionId = some sessionId ∧ reserves (c.next at' o) = true
  · rw [if_pos h, if_pos ⟨h.1, rfl⟩]
  · rw [if_neg h]
    exact Nat.zero_le _

/-- An admission that a session signs is within what is left of its budget. -/
theorem sessionQuota_ok {sessions : List StoredSession} {rows : Rows} {value : StoredOperation}
    (h : sessionQuota sessions rows value = .ok ()) (hm : value.operation.signingMode = some .session) :
    ∃ s ∈ sessions, some s.session.id = value.operation.sessionId ∧
      sessionSpend value.operation.intent ≤ s.session.perOperation ∧
      reserved (rows.map StoredOperation.operation) s.session.id + sessionSpend value.operation.intent ≤
        s.session.total := by
  unfold sessionQuota at h
  rw [if_pos hm] at h
  unfold assertTradingSessionQuota at h
  simp only [bind_eq_ok, revertIf_eq_ok] at h
  obtain ⟨session, hfind, -, -, hbudget⟩ := h
  cases hs : sessions.find? fun s => some s.session.id = value.operation.sessionId ∧ s.subject = value.subject with
  | none =>
    rw [hs] at hfind
    cases hfind
  | some s =>
    rw [hs] at hfind
    obtain rfl : s.session = session := Except.ok.inj hfind
    have hp := List.find?_some hs
    have hid : some s.session.id = value.operation.sessionId := (of_decide_eq_true hp).1
    rw [← hid, reserved_filter] at hbudget
    exact ⟨s, List.mem_of_find?_eq_some hs, hid, by omega, by omega⟩

/-- The session has these limits, as far as it is stored when something is awaited. -/
def Limited (tr : List Occurrence) (sessionId perOperation total : Nat) : Prop :=
  ∀ o ∈ tr, ∀ s ∈ o.before.sessions, s.session.id = sessionId →
    s.session.perOperation = perOperation ∧ s.session.total = total

theorem Limited.mono {s t : List Occurrence} {sessionId perOperation total : Nat}
    (h : Limited (s ++ t) sessionId perOperation total) :
    Limited s sessionId perOperation total := fun o ho => h o (List.mem_append_left t ho)

/-- The operations of a session keep its limits. -/
structure Budgeted (sessionId perOperation total : Nat) (ops : List Operation) : Prop where
  within : reserved ops sessionId ≤ total
  each : ∀ o ∈ ops, o.sessionId = some sessionId → sessionSpend o.intent ≤ perOperation

section

variable {cfg : ServiceConfig} {X Y : Recorded} {sessionId perOperation total : Nat}

theorem Budgeted.transition {id at' : Nat} {c : Change} {old : StoredOperation}
    (h : Budgeted sessionId perOperation total (operations X)) (ho : Orderly X.state.rows)
    (hf : X.state.rows.find id = some old)
    (hs : old.operation.state ∈ c.source) (hrows : Y.state.rows = X.state.rows.set id (c.next at' old.operation)) :
    Budgeted sessionId perOperation total (operations Y) where
  within := by
    refine le_trans ?_ h.within
    rw [reserved_eq, reserved_eq, operations, operations, hrows, Rows.set, List.map_map, List.map_map, List.map_map]
    refine List.sum_le_sum ?_
    intro r hr
    dsimp only [Function.comp_apply]
    split
    · rename_i hid
      obtain rfl : r = old := by
        have hfind := ho.keyed.find hr
        rw [hid, hf] at hfind
        exact (Option.some.inj hfind).symm
      exact reservation_next_le hs
    · exact le_rfl
  each := by
    intro o hmem hsession
    obtain ⟨x, hx, rfl⟩ := List.mem_map.mp hmem
    rw [hrows] at hx
    rcases mem_set hx with ⟨y, hy, -, rfl⟩ | ⟨hx, -⟩
    · have hadm := next_admission c at' old.operation
      have hsession' : (c.next at' old.operation).sessionId = some sessionId := hsession
      rw [hadm.sessionId] at hsession'
      change sessionSpend (c.next at' old.operation).intent ≤ perOperation
      rw [hadm.intent]
      exact h.each _ (List.mem_map_of_mem (mem_of_find hf).1) hsession'
    · exact h.each _ (List.mem_map_of_mem hx) hsession

theorem Budgeted.admitOperation {value : StoredOperation} (h : Budgeted sessionId perOperation total (operations X))
    (hfresh : Fresh cfg value.operation) (hrows : Y.state.rows = X.state.rows ++ [value])
    (hq : sessionQuota X.state.sessions X.state.rows value = .ok ())
    (hl : ∀ s ∈ X.state.sessions, s.session.id = sessionId → s.session.perOperation = perOperation ∧
      s.session.total = total) :
    Budgeted sessionId perOperation total (operations Y) := by
  have hops : operations Y = operations X ++ [value.operation] := by simp [operations, hrows]
  by_cases hv : value.operation.sessionId = some sessionId
  · have hmode := hfresh.session.mpr (by rw [hv]; rfl)
    obtain ⟨s, hs, hid, hone, hall⟩ := sessionQuota_ok hq hmode
    obtain hid : s.session.id = sessionId := Option.some.inj (hid.trans hv)
    obtain ⟨hp, ht⟩ := hl s hs hid
    rw [hid, ht] at hall
    refine ⟨?_, ?_⟩
    · rw [hops, reserved_eq, List.map_append, List.sum_append, ← reserved_eq]
      have hle : reservation sessionId value.operation ≤ sessionSpend value.operation.intent := by
        unfold reservation
        split
        · exact le_rfl
        · exact Nat.zero_le _
      have hsum : ([value.operation].map (reservation sessionId)).sum = reservation sessionId value.operation := by simp
      rw [hsum]
      exact (Nat.add_le_add_left hle _).trans hall
    · intro o ho hsession
      rw [hops] at ho
      rcases List.mem_append.mp ho with ho | ho
      · exact h.each o ho hsession
      · obtain rfl := List.mem_singleton.mp ho
        exact hp ▸ hone
  · refine ⟨?_, ?_⟩
    · rw [hops, reserved_eq, List.map_append, List.sum_append, ← reserved_eq]
      have hzero : reservation sessionId value.operation = 0 := if_neg fun hc => hv hc.1
      simpa [hzero] using h.within
    · intro o ho hsession
      rw [hops] at ho
      rcases List.mem_append.mp ho with ho | ho
      · exact h.each o ho hsession
      · obtain rfl := List.mem_singleton.mp ho
        exact absurd hsession hv

/-- **The operations of a session keep its limits, over every run.** -/
theorem Legal.Reachable.budgeted (h : Legal.Reachable cfg X) (hl : Limited X.trace sessionId perOperation total) :
    Budgeted sessionId perOperation total (operations X) := by
  refine Reach.Reachable.invariant (I := fun X => Limited X.trace sessionId perOperation total →
    Budgeted sessionId perOperation total (operations X)) ?_ ?_ h hl
  · rintro X ⟨⟨hrows, -⟩, -⟩ -
    have hops : operations X = [] := by simp [operations, hrows]
    rw [hops]
    exact ⟨Nat.zero_le _, fun _ ho => absurd ho List.not_mem_nil⟩
  · intro X Y hX ih hs hl
    obtain ⟨t, ht⟩ := Recorded.trace_le (Relation.ReflTransGen.single hs)
    have hb := ih (Limited.mono (ht ▸ hl))
    cases hs.moves with
    | same hsame =>
      rw [operations, hsame]
      exact hb
    | transition _ _ hf hsource hrows => exact hb.transition (Legal.Reachable.orderly hX) hf hsource hrows
    | admitOperation hp htr hrows _ hq =>
      refine hb.admitOperation hp hrows hq ?_
      exact hl _ (htr ▸ List.mem_append_right _ (List.mem_singleton_self _))

end

/-! ## What the policy has charged -/

/-- A call of the policy that is on the chain, and the user operation that it is made for. -/
structure PolicyEntry where
  caller : Address
  nonce : Nat
  userOpHash : Bytes32
  call : Session.PolicyCall
  done : Session.Done

/-- The calls of the policy since its deployment. -/
inductive PolicyHistory (P : Session.Policy) : List PolicyEntry → Session.Sessions → Prop
  | deployed : PolicyHistory P [] .deployed
  | call {h : List PolicyEntry} {S S' : Session.Sessions} {C : Session.Chain} {e : PolicyEntry}
      (hh : PolicyHistory P h S)
      (he : Session.exec P C S e.caller e.call = .ok (S', e.done)) : PolicyHistory P (h ++ [e]) S'

section

variable (permissionId : Bytes32) (account : Address)

/-- Whether a user operation of the permission is validated. -/
def PolicyEntry.validates (e : PolicyEntry) : Bool :=
  decide (e.caller = account) && match e.call with
    | .checkUserOpPolicy id _ => decide (id = permissionId)
    | _ => false

/-- What the permission is charged. -/
def PolicyEntry.charged (e : PolicyEntry) : Nat :=
  match e.done with
  | .accepted id amount _ => if id = permissionId ∧ e.caller = account then amount else 0
  | _ => 0

end

section

variable {P : Session.Policy} {h : List PolicyEntry} {S S' : Session.Sessions} {C : Session.Chain}
  {permissionId : Bytes32}
  {account : Address} {e : PolicyEntry}

theorem PolicyHistory.run (hh : PolicyHistory P h S) : Session.Run P (h.map fun e => (e.caller, e.done)) S := by
  induction hh with
  | deployed => exact .deployed
  | call _ he ih =>
    rw [List.map_append]
    exact ih.call he

/-- The calls come one after the other. -/
theorem PolicyHistory.mem (hh : PolicyHistory P h S) (hm : e ∈ h) :
    ∃ C T T', Session.exec P C T e.caller e.call = .ok (T', e.done) := by
  induction hh with
  | deployed => cases hm
  | call _ he ih =>
    rcases List.mem_append.mp hm with hm | hm
    · exact ih hm
    · obtain rfl := List.mem_singleton.mp hm
      exact ⟨_, _, _, he⟩

/-- What has been charged was charged for a batch. -/
theorem PolicyHistory.charged (hh : PolicyHistory P h S) (hm : e ∈ h) (hc : e.charged permissionId account ≠ 0) :
    e.caller = account ∧ ∃ op calls C, e.call = .checkUserOpPolicy permissionId op ∧
      Session.decode (op.callData.drop 4) = .ok calls ∧
      Session.check P C false account calls = .ok (e.charged permissionId account) := by
  obtain ⟨C, T, T', he⟩ := hh.mem hm
  unfold PolicyEntry.charged at hc ⊢
  split at hc
  · rename_i id amount v hd
    split at hc
    · rename_i hid
      obtain ⟨rfl, rfl⟩ := hid
      rw [hd] at he
      obtain ⟨op, calls, hcall, hdecode, hcheck⟩ := Session.exec_accepted he
      refine ⟨rfl, op, calls, C, hcall, hdecode, ?_⟩
      simpa using hcheck
    · exact absurd rfl hc
  · exact absurd rfl hc

theorem validates_iff : e.validates permissionId account = true ↔
    e.caller = account ∧ ∃ op, e.call = .checkUserOpPolicy permissionId op := by
  unfold PolicyEntry.validates
  cases e.call with
  | checkUserOpPolicy id op => simp
  | _ => simp

/-- Only validations are charged. -/
theorem PolicyHistory.tally_validations (hh : PolicyHistory P h S) :
    Tally.tally (PolicyEntry.charged permissionId account) (h.filter fun e => e.validates permissionId account) =
      Tally.tally (PolicyEntry.charged permissionId account) h := by
  refine Tally.tally_filter ?_
  intro e hm hv
  by_contra hc
  obtain ⟨hcaller, op, -, -, hcall, -⟩ := hh.charged hm hc
  rw [validates_iff.mpr ⟨hcaller, op, hcall⟩] at hv
  cases hv

/-- What is spent is what has been charged. -/
theorem PolicyHistory.spent_eq (hh : PolicyHistory P h S) :
    (S.sessionState permissionId account).spent = Tally.tally (PolicyEntry.charged permissionId account) h := by
  rw [(hh.run.life permissionId account).spent_eq]
  clear hh
  induction h using List.reverseRecOn with
  | nil => rfl
  | append_singleton h e ih =>
    rw [List.map_append, List.map_singleton, Session.history_concat, Session.amounts_append, List.sum_append, ih,
      Tally.tally_append]
    congr 1
    obtain ⟨caller, nonce, userOpHash, c, done⟩ := e
    cases done with
    | accepted id amount v =>
      by_cases hid : id = permissionId ∧ caller = account
      · simp [Session.changeOf, Session.Done.change, Session.amounts, PolicyEntry.charged, Tally.tally, hid]
      · simp [Session.changeOf, Session.Done.change, Session.amounts, PolicyEntry.charged, Tally.tally, hid]
    | hook => simp [Session.changeOf, Session.Done.change, Session.amounts, PolicyEntry.charged, Tally.tally]
    | installed id p t a u =>
      by_cases hid : id = permissionId ∧ caller = account
      · simp [Session.changeOf, Session.Done.change, Session.amounts, PolicyEntry.charged, Tally.tally, hid]
      · simp [Session.changeOf, Session.Done.change, Session.amounts, PolicyEntry.charged, Tally.tally, hid]
    | revoked id =>
      by_cases hid : id = permissionId ∧ caller = account
      · simp [Session.changeOf, Session.Done.change, Session.amounts, PolicyEntry.charged, Tally.tally, hid]
      · simp [Session.changeOf, Session.Done.change, Session.amounts, PolicyEntry.charged, Tally.tally, hid]

end

/-! ## What reaches the EntryPoint -/

/-- The calls of the policy that are on the chain: the EntryPoint has executed the user operations of the permission
that were validated, and the service has sent them for operations of the session. -/
structure OnChain (cfg : ServiceConfig) (P : Session.Policy) (X : Recorded) (sessionId perOperation total : Nat)
    (permissionId : Bytes32) (account : Address) (h : List PolicyEntry) (S : Session.Sessions) : Prop where
  history : PolicyHistory P h S
  executed : ((h.filter fun e => e.validates permissionId account).map fun e => (e.caller, e.nonce)).Sublist
    (X.state.chain.executed.map fun e => (e.sender, e.nonce))
  submitted : ∀ e ∈ h, ∀ op, e.caller = account → e.call = .checkUserOpPolicy permissionId op → ∃ o ∈ X.trace, ∃ id u r,
    o.event.cmd = .sendUserOperation id u ∧ X.state.rows.find id = some r ∧ r.operation.sessionId = some sessionId ∧
    u.sender = account ∧ u.nonce = e.nonce ∧ u.callData = op.callData ∧ cfg.getUserOperationHash u = e.userOpHash
  limits : (S.sessionState permissionId account).installed = true →
    (S.sessionState permissionId account).perOperation = perOperation ∧
    (S.sessionState permissionId account).total = total

/-- The policy decodes the calls that were encoded for a session. -/
def Encodes (cfg : ServiceConfig) (sessionId : Nat) : Prop :=
  ∀ account order nowSeconds intent calls decoded, callsOf cfg.deployment account order nowSeconds intent = .ok calls →
    Session.decode ((cfg.encodeCalls (some sessionId) (calls.map withoutValue)).drop 4) = .ok decoded →
    decoded = calls.map withoutValue

/-- The calls of an operation that a session signs are those of its intent. -/
def Built (cfg : ServiceConfig) (o : Operation) : Prop :=
  o.sessionId.isSome = true → ∃ order nowSeconds calls,
    callsOf cfg.deployment o.account order nowSeconds o.intent = .ok calls ∧
    o.callData = cfg.encodeCalls o.sessionId (calls.map withoutValue)

theorem Built.next {cfg : ServiceConfig} {x y : Operation} (h : Built cfg x) (hxy : SameAdmission x y) :
    Built cfg y := by
  intro hs
  rw [hxy.sessionId] at hs
  obtain ⟨order, nowSeconds, calls, hc, hd⟩ := h hs
  refine ⟨order, nowSeconds, calls, ?_, ?_⟩
  · rw [hxy.account, hxy.intent]
    exact hc
  · rw [hxy.callData, hxy.sessionId]
    exact hd

section

variable {cfg : ServiceConfig} {X : Recorded} {sessionId perOperation total : Nat} {P : Session.Policy}
  {permissionId : Bytes32}
  {account : Address} {h : List PolicyEntry} {S : Session.Sessions} {o : Operation}

theorem Legal.Reachable.built (hX : Legal.Reachable cfg X) {id : Nat} {r : StoredOperation}
    (hr : X.state.rows.find id = some r) :
    Built cfg r.operation := by
  refine Reach.Reachable.invariant (I := fun X => ∀ r, X.state.rows.find id = some r →
    Built cfg r.operation) ?_ ?_ hX r hr
  · rintro X ⟨⟨hrows, -⟩, -⟩ r hr
    rw [hrows] at hr
    cases hr
  · intro X Y hX ih hs r hr
    rcases hs.moves.origin (Legal.Reachable.orderly hX) hr with hold | ⟨i, c, at', x, old, -, -, hf, -,
      rfl⟩ | ⟨-, hfresh⟩
    · exact ih r hold
    · exact (ih old hf).next (next_admission c at' old.operation)
    · exact hfresh.calls

/-- What the policy charges for the calls of an operation is what the operation reserves. -/
theorem check_reservation (he : Encodes cfg sessionId) (hb : Built cfg o) (hs : o.sessionId = some sessionId)
    {C : Session.Chain} {calls : List Session.Call} {amount : Nat} {account : Address}
    (hd : Session.decode (o.callData.drop 4) = .ok calls) (hc : Session.check P C false account calls = .ok amount) :
    amount = sessionSpend o.intent := by
  obtain ⟨order, nowSeconds, built, hcalls, hdata⟩ := hb (by rw [hs]; rfl)
  rw [hdata, hs] at hd
  obtain rfl := he _ _ _ _ _ _ hcalls hd
  exact check_spends hcalls hc

/-- What has been sent binds the record. -/
theorem send_binding (hX : Legal.Reachable cfg X) {g : Occurrence} (hg : g ∈ X.trace) {id : Nat} {u : WireUserOperation}
    (hu : g.event.cmd = .sendUserOperation id u) {r : StoredOperation} (hr : X.state.rows.find id = some r) :
    r.operation.account = u.sender ∧ r.operation.nonce = u.nonce ∧ r.operation.callData = u.callData ∧
      r.operation.userOperationHash = some (cfg.getUserOperationHash u) := by
  obtain ⟨s, t, ht⟩ := List.append_of_mem hg
  obtain ⟨a, k, b, r₀, request, rfl, -, -, hm, hreq, hid⟩ := send_mark hX ht hu
  obtain ⟨r₁, hr₁, hhash⟩ := mark_stored hX (k := k) (by simp [ht]) hm
  rw [hr] at hr₁
  obtain rfl := Option.some.inj hr₁
  have hread : ⟨.operation request, .ok (some r₀)⟩ ∈ own g.thread X.trace := by
    rw [ht, List.append_assoc, own_append]
    exact List.mem_append_left _ hreq.operation
  obtain ⟨hrid, r₂, hr₂, hl⟩ := hX.read_operation hread
  rw [← hrid, hid, hr] at hr₂
  obtain rfl := Option.some.inj hr₂
  have hbind := hreq.binding
  unfold assertOperationBinding at hbind
  split at hbind
  · cases hbind
  · rename_i hno
    simp only [not_or, not_not] at hno
    obtain ⟨hsender, hnonce, hdata, -⟩ := hno
    exact ⟨hl.admission.account.trans hsender, hl.admission.nonce.trans hnonce, hl.admission.callData.trans hdata,
      hhash⟩

/-- The operations that the policy has charged cover what is spent. -/
theorem OnChain.spent_le (hX : Legal.Reachable cfg X)
    (hs : OnChain cfg P X sessionId perOperation total permissionId account h S)
    (he : Encodes cfg sessionId) {ops : List Operation}
    (hops : ∀ o ∈ operations X, (∃ e ∈ h, o.userOperationHash = some e.userOpHash) → o ∈ ops) :
    (S.sessionState permissionId account).spent ≤ (ops.map (reservation sessionId)).sum := by
  rw [hs.history.spent_eq, ← hs.history.tally_validations]
  refine Tally.tally_le_of_covered (fun e : PolicyEntry => (e.caller, e.nonce)) (fun o => (o.account, o.nonce)) ?_ ?_
  · exact (hs.executed.nodup (hX.valid).once)
  · intro e hmem
    obtain ⟨hmem, hv⟩ := List.mem_filter.mp hmem
    obtain ⟨hcaller, op, hcall⟩ := validates_iff.mp hv
    obtain ⟨g, hg, id, u, r, hcmd, hr, hsession, hsender, hnonce, hdata, hhash⟩ := hs.submitted e hmem op hcaller hcall
    obtain ⟨hacc, hn, hd, hstored⟩ := send_binding hX hg hcmd hr
    have hmemops : r.operation ∈ operations X := List.mem_map_of_mem (mem_of_find hr).1
    refine ⟨r.operation, hops _ hmemops ⟨e, hmem, hhash ▸ hstored⟩, ?_, ?_⟩
    · rw [hacc, hn, hsender, hnonce, hcaller]
    · by_cases hc : e.charged permissionId account = 0
      · rw [hc]
        exact Nat.zero_le _
      · obtain ⟨-, op', calls, C, hcall', hdecode, hcheck⟩ := hs.history.charged hmem hc
        obtain rfl : op = op' := (Session.PolicyCall.checkUserOpPolicy.inj (hcall.symm.trans hcall')).2
        rw [← hdata, ← hd] at hdecode
        have hamount := check_reservation he (hX.built hr) hsession hdecode hcheck
        have hkeeps : reserves r.operation = true := reserves_of_hash (by rw [hstored]; nofun)
        rw [hamount, reservation, if_pos ⟨hsession, hkeeps⟩]

end

/-- **Reservations bound what a session spends.** In every run in which the user operations of a session reach the
EntryPoint only when the service has sent them, the policy has charged at most what the operations of the session
reserve, and they reserve at most its total; so the policy does not refuse for the budget an operation that keeps
its reservation and has not been charged. -/
theorem session_reservation {cfg : ServiceConfig} {X : Threads} (hX : Service.Reachable cfg X)
    {sessionId perOperation total : Nat} (hl : Limited X.recorded.trace sessionId perOperation total)
    (he : Encodes cfg sessionId) {P : Session.Policy} {permissionId : Bytes32} {account : Address}
    {h : List PolicyEntry}
    {S : Session.Sessions} (hs : OnChain cfg P X.recorded sessionId perOperation total permissionId account h S) :
    (S.sessionState permissionId account).spent ≤ reserved (operations X.recorded) sessionId ∧
    reserved (operations X.recorded) sessionId ≤ total ∧
    ∀ o ∈ operations X.recorded, o.sessionId = some sessionId → reserves o = true →
      (∀ e ∈ h, o.userOperationHash ≠ some e.userOpHash) → ∀ (C : Session.Chain) (op : Session.UserOp),
        op.callData = o.callData → Session.checkUserOpPolicy P C S account permissionId op ≠ .error
          .BudgetExceeded := by
  have hb : Budgeted sessionId perOperation total (operations X.recorded) := Legal.Reachable.budgeted hX.legal hl
  refine ⟨?_, hb.within, ?_⟩
  · rw [reserved_eq]
    exact hs.spent_le hX.legal he fun o ho _ => ho
  · intro o ho hsession hkeeps hnew C op hdata hex
    obtain ⟨hinstalled, calls, amount, hdecode, hcheck, hbudget⟩ := Session.budgetExceeded hex
    obtain ⟨hper, htotal⟩ := hs.limits hinstalled
    obtain ⟨r, hr, rfl⟩ := row_of_operation hX.legal ho
    rw [hdata] at hdecode
    have hamount := check_reservation he (Legal.Reachable.built hX.legal hr) hsession hdecode hcheck
    have hone : amount ≤ perOperation := hamount ▸ hb.each _ ho hsession
    -- what is spent was reserved by other operations
    have hothers : (S.sessionState permissionId account).spent ≤
        (((operations X.recorded).erase r.operation).map (reservation sessionId)).sum := by
      refine hs.spent_le hX.legal he ?_
      rintro o' ho' ⟨e, hmem, hhash⟩
      refine (List.mem_erase_of_ne ?_).mpr ho'
      rintro rfl
      exact hnew e hmem hhash
    have hsum : ((operations X.recorded).map (reservation sessionId)).sum = reservation sessionId r.operation +
        (((operations X.recorded).erase r.operation).map (reservation sessionId)).sum :=
      ((List.perm_cons_erase ho).map (reservation sessionId)).sum_eq
    have hwithin := hb.within
    have hres : reservation sessionId r.operation = amount := by rw [reservation, if_pos ⟨hsession, hkeeps⟩, hamount]
    rw [reserved_eq, hsum, hres] at hwithin
    omega

/-! A session that buys. -/

/-- The calls of a purchase, for at most 6. -/
def purchaseCalls : List Session.Call :=
  [⟨addr 1, 0, Session.encodeCall Session.APPROVE [8, 0]⟩, ⟨addr 1, 0, Session.encodeCall Session.APPROVE [8, 6]⟩,
    ⟨addr 8, 0, Session.encodeCall Session.BUY [0, 5, 5, 6, 150]⟩,
      ⟨addr 1, 0, Session.encodeCall Session.APPROVE [8, 0]⟩]

def purchaseData : Bytes :=
  Session.EXECUTE_USER_OP ++ Session.encodeExecute Session.BATCH (Session.encodeCalls purchaseCalls)

/-- A service that knows the encoding of the purchase. -/
def sessionConfig : ServiceConfig :=
  { sampleConfig with encodeCalls := fun _ calls => if calls = purchaseCalls then purchaseData else [] }

def sessionPolicy : Session.Policy := ⟨addr 9, addr 2, addr 1, addr 3, addr 4, addr 5⟩

def storedSession : StoredSession := ⟨⟨7, 1, addr 7, 7, 10, 25, 1000, .active⟩, 1⟩

def purchaseInput : RegisterInput :=
  { sampleInput with
    intent := .buy (addr 8) 0 5 5 6 150
    signingMode := some .session
    sessionId := some 7
    callData := purchaseData }

/-- The purchase is registered, sent and executed. -/
def purchasing : List Action :=
  [.start 0 (register sessionConfig purchaseInput 1), .run 0 20,
    .start 1 (serve sessionConfig 1 (.sendUserOperation { sampleUserOperation with callData := purchaseData }
      ENTRY_POINT)), .run 1 20,
    withChain (sampleChain 1)]

def purchased : Threads := sampleResponder.play purchasing (beginning emptyChain [storedSession])

theorem purchased_reachable : Service.Reachable sessionConfig purchased := by
  refine sampleResponder.reachable emptyChain_valid ⟨⟨rfl, .register _ _⟩, trivial, ⟨?_, .serve _ _⟩,
    trivial, ?_, trivial⟩
  · exact Option.isNone_iff_eq_none.mp (by decide +kernel)
  · refine withChain_valid (sampleChain_valid 1) ?_
    simp only [Program.Threads.play, Responder.advance_chain]
    exact ⟨Nat.zero_le 1, fun _ hb => absurd hb List.not_mem_nil⟩

theorem sessionConfig_encodes : Encodes sessionConfig 7 := by
  intro account order nowSeconds intent calls decoded _ hd
  by_cases hc : calls.map withoutValue = purchaseCalls
  · rw [hc] at hd ⊢
    have hdecode : Session.decode ((sessionConfig.encodeCalls (some 7) purchaseCalls).drop 4) = .ok purchaseCalls := by
      decide +kernel
    exact Except.ok.inj (hd.symm.trans hdecode)
  · have hnone : sessionConfig.encodeCalls (some 7) (calls.map withoutValue) = [] := if_neg hc
    rw [hnone] at hd
    cases hd

/-- What is seen of the run. -/
theorem purchased_facts : purchased.recorded.trace.all (fun o => decide (o.before.sessions = [storedSession])) = true ∧
    purchased.recorded.trace.any (fun o => decide (o.event.cmd =
      .sendUserOperation 1 { sampleUserOperation with callData := purchaseData })) = true ∧
    (purchased.recorded.state.rows.find 1).map (fun r => r.operation.sessionId) = some (some 7) ∧
    purchased.recorded.state.chain.executed.map (fun e => (e.sender, e.nonce)) = [(addr 7, 5)] := by
  decide +kernel

theorem purchased_limited : Limited purchased.recorded.trace 7 10 25 := by
  intro o ho s hs _
  rw [of_decide_eq_true (List.all_eq_true.mp purchased_facts.1 o ho)] at hs
  obtain rfl := List.mem_singleton.mp hs
  exact ⟨rfl, rfl⟩

/-- The user operation of the purchase, as the policy sees it. -/
def purchaseOp : Session.UserOp := ⟨addr 7, purchaseData, (Abi.word 5).drop 12 ++ Abi.word 0⟩

/-- The session is installed, and its purchase is validated. -/
def purchaseEntries : List PolicyEntry :=
  [⟨addr 7, 0, 0, .onInstall Session.sampleInstall, .installed 7 10 25 100 200⟩,
    ⟨addr 7, 5, 5, .checkUserOpPolicy 7 purchaseOp, .accepted 7 6 (2 ^ 160 * (200 + 2 ^ 48 * 100))⟩]

theorem purchase_history : ∃ S, PolicyHistory sessionPolicy purchaseEntries S ∧
    (S.sessionState 7 (addr 7)).perOperation = 10 ∧ (S.sessionState 7 (addr 7)).total = 25 ∧
    (S.sessionState 7 (addr 7)).spent = 6 := by
  have hx : (Session.execAll sessionPolicy Session.sampleChain .deployed (purchaseEntries.map fun e =>
    (e.caller, e.call))).map
      (fun r => (r.2, (r.1.sessionState 7 (addr 7)).perOperation, (r.1.sessionState 7 (addr 7)).total,
        (r.1.sessionState 7 (addr 7)).spent)) =
      .ok (purchaseEntries.map fun e => (e.caller, e.done), 10, 25, 6) := by decide +kernel
  cases he : Session.execAll sessionPolicy Session.sampleChain .deployed (purchaseEntries.map fun e =>
    (e.caller, e.call)) with
  | error e =>
    rw [he] at hx
    cases hx
  | ok r =>
    rw [he] at hx
    obtain ⟨hdone, hlimits⟩ := Prod.mk.inj (Except.ok.inj hx)
    obtain ⟨hp, hrest⟩ := Prod.mk.inj hlimits
    obtain ⟨ht, hspent⟩ := Prod.mk.inj hrest
    simp only [purchaseEntries, List.map_cons, List.map_nil, Session.execAll, bind_eq_ok] at he
    obtain ⟨⟨S₁, d₁⟩, h₁, ⟨S', ds⟩, ⟨⟨S₂, d₂⟩, h₂, ⟨S₃, ds'⟩, h₃, he⟩, he'⟩ := he
    cases h₃
    cases he
    cases he'
    simp only [purchaseEntries, List.map_cons, List.map_nil, List.cons.injEq, Prod.mk.injEq, true_and,
      and_true] at hdone
    obtain ⟨rfl, rfl⟩ := hdone
    have h := (PolicyHistory.deployed (P := sessionPolicy)).call
      (e := ⟨addr 7, 0, 0, .onInstall Session.sampleInstall, .installed 7 10 25 100 200⟩) h₁
    exact ⟨S₂, h.call
      (e := ⟨addr 7, 5, 5, .checkUserOpPolicy 7 purchaseOp, .accepted 7 6 (2 ^ 160 * (200 + 2 ^ 48 * 100))⟩) h₂,
      hp, ht, hspent⟩

theorem purchase_onChain {S : Session.Sessions} (hh : PolicyHistory sessionPolicy purchaseEntries S)
    (hp : (S.sessionState 7 (addr 7)).perOperation = 10) (ht : (S.sessionState 7 (addr 7)).total = 25) :
    OnChain sessionConfig sessionPolicy purchased.recorded 7 10 25 7 (addr 7) purchaseEntries S where
  history := hh
  executed := by
    rw [purchased_facts.2.2.2]
    exact .refl _
  submitted := by
    intro e he op _ hcall
    obtain ⟨-, hsent, hrow, -⟩ := purchased_facts
    obtain ⟨o, ho, hcmd⟩ := List.any_eq_true.mp hsent
    obtain ⟨r, hr, hsession⟩ := Option.map_eq_some_iff.mp hrow
    simp only [purchaseEntries, List.mem_cons, List.not_mem_nil, or_false] at he
    rcases he with rfl | rfl
    · cases hcall
    · obtain ⟨-, rfl⟩ := Session.PolicyCall.checkUserOpPolicy.inj hcall
      exact ⟨o, ho, 1, _, r, of_decide_eq_true hcmd, hr, hsession, rfl, rfl, rfl, rfl⟩
  limits _ := ⟨hp, ht⟩

theorem session_reservation_sample : ∃ S, PolicyHistory sessionPolicy purchaseEntries S ∧
    (S.sessionState 7 (addr 7)).spent = 6 ∧ 6 ≤ reserved (operations purchased.recorded) 7 ∧
    reserved (operations purchased.recorded) 7 ≤ 25 := by
  obtain ⟨S, hh, hp, ht, hspent⟩ := purchase_history
  obtain ⟨hcovered, hwithin, -⟩ := session_reservation purchased_reachable purchased_limited sessionConfig_encodes
    (purchase_onChain hh hp ht)
  exact ⟨S, hh, hspent, hspent ▸ hcovered, hwithin⟩

end Cpredict.Operations
