import Cpredict.Lib.Table
import Cpredict.Operations.Finality
import Cpredict.Operations.QuotaWindow

/-!
# Deposits

A deposit is an authorization that is to be transferred by one operation. The transactions of the database on deposits
are made one after the other, but each takes the time that its caller has read before it got the lock.
`createDeposit` refuses a deposit while another of the account is active. That does not keep two from being active at
once: an operation may be admitted for a deposit that has expired in the meantime, and a refresh may put an operation
that had been executed back to an unknown result (`deposits_overlap`). Without these, one is (`deposits_exclusive`).
-/

namespace Cpredict.Operations

open Outcome

inductive DepositState
  | awaitingAuthorization
  | expired
  | operation (s : OperationState)
deriving DecidableEq

structure Deposit where
  id : Nat
  environment : Nat
  deploymentId : Nat
  accountId : Nat
  account : Address
  /-- `domain.verifyingContract` -/
  token : Address
  authorization : ReceiveAuthorization
  state : DepositState
  operationId : Option Nat
  userOperationHash : Option Bytes32
  transactionHash : Option Bytes32
  blockNumber : Option Nat
  blockHash : Option Bytes32
  actualGasCost : Option Nat
  finality : Finality
  createdAt : Nat
  updatedAt : Nat
  expiresAt : Nat
  reason : Option String
deriving DecidableEq

structure StoredDeposit where
  deposit : Deposit
  subject : Nat
  idempotencyKey : Nat
  requestHash : Bytes32
deriving DecidableEq

/-- The rows of `app_deposits`. The columns are those of the record. -/
abbrev Deposits := List StoredDeposit

def StoredDeposit.key (x : StoredDeposit) : Nat := x.deposit.id

/-! ## What is shown -/

def depositView (d : Deposit) (operation : Option Operation) (now : Nat) : Deposit :=
  match operation with
  | some o =>
    { d with
      state := .operation o.state
      operationId := some o.id
      userOperationHash := o.userOperationHash
      transactionHash := o.transactionHash
      blockNumber := o.blockNumber
      blockHash := o.blockHash
      actualGasCost := o.actualGasCost
      finality := o.finality
      reason := o.reason
      updatedAt := o.updatedAt }
  | none =>
    if d.state = .awaitingAuthorization ∧ d.expiresAt ≤ now then
      { d with state := .expired, reason := some "deposit_authorization_expired" }
    else d

def depositActive (d : Deposit) : Bool :=
  decide (d.state ∈ [DepositState.awaitingAuthorization, .operation .preparing, .operation .awaitingSignature,
    .operation .submitted, .operation .confirming, .operation .unknown]) ||
  (decide (d.state = .operation .reverted) && decide (d.finality ≠ .finalized))

/-- The operation of a deposit, by `LEFT JOIN app_operations`. -/
def operationOf (rows : Rows) (d : Deposit) : Option Operation :=
  d.operationId.bind fun id => (rows.find id).map StoredOperation.operation

def fromDepositRow (x : StoredDeposit) (operation : Option Operation) (now : Nat) : StoredDeposit :=
  { x with deposit := depositView x.deposit operation now }

/-- `o.state IN (..) OR (o.state='reverted' AND coalesce(o.record->>'finality','pending') <> 'finalized')` -/
def pendingState (o : Operation) : Bool :=
  decide (o.state ∈ [OperationState.preparing, .awaitingSignature, .submitted, .confirming, .unknown]) ||
    (decide (o.state = .reverted) && decide (o.finality ≠ .finalized))

/-- The condition of the queries for active deposits: `d.operation_id IS NULL AND d.state='awaiting-authorization' AND
d.expires_at > ${now}`, or that of the operation. -/
def activeRow (rows : Rows) (now : Nat) (x : StoredDeposit) : Bool :=
  (decide (x.deposit.operationId = none) && decide (x.deposit.state = .awaitingAuthorization) &&
    decide (now < x.deposit.expiresAt)) ||
  (operationOf rows x.deposit).any pendingState

/-! ## Transactions -/

/-- The deposit that `prepare` makes. -/
def newDeposit (id environment deploymentId accountId : Nat) (account token source : Address) (amount timestamp : Nat)
    (nonce : Bytes32) (now : Nat) : Deposit where
  id := id
  environment := environment
  deploymentId := deploymentId
  accountId := accountId
  account := account
  token := token
  authorization := ⟨source, account, amount, 0, timestamp + 600, nonce⟩
  state := .awaitingAuthorization
  operationId := none
  userOperationHash := none
  transactionHash := none
  blockNumber := none
  blockHash := none
  actualGasCost := none
  finality := .pending
  createdAt := now
  updatedAt := now
  expiresAt := (timestamp + 600) * 1000
  reason := none

/-- `UNIQUE(token, source, authorization_nonce)` -/
def SameAuthorization (x y : Deposit) : Prop :=
  x.token = y.token ∧ x.authorization.source = y.authorization.source ∧ x.authorization.nonce = y.authorization.nonce

instance (x y : Deposit) : Decidable (SameAuthorization x y) := inferInstanceAs (Decidable (_ ∧ _))

def createDeposit (rows : Rows) (deposits : Deposits) (value : StoredDeposit) :
    Except AppErr (Deposits × StoredDeposit) :=
  match deposits.find? fun x => x.subject = value.subject ∧ x.idempotencyKey = value.idempotencyKey with
  | some prior =>
    if prior.requestHash ≠ value.requestHash then .error .idempotencyConflict
    else .ok (deposits, fromDepositRow prior (operationOf rows prior.deposit) value.deposit.createdAt)
  | none =>
    -- `LIMIT 1`, in the order of insertion
    match deposits.find? fun x => x.deposit.accountId = value.deposit.accountId ∧
        activeRow rows value.deposit.createdAt x = true with
    | some pending => .error (.depositInProgress pending.deposit.operationId)
    | none => do
      -- the primary key, and the authorization
      revertIf (∃ x ∈ deposits, x.deposit.id = value.deposit.id ∨ SameAuthorization x.deposit value.deposit)
        .unavailable
      .ok (deposits ++ [value], value)

/-- The deposit, cancelled. -/
def StoredDeposit.cancel (now : Nat) (x : StoredDeposit) : StoredDeposit :=
  { x with
    deposit := { x.deposit with
      state := .operation .cancelled
      updatedAt := now
      reason := some "user_cancelled_before_submission" } }

def cancelDeposit (deposits : Deposits) (id subject now : Nat) : Except AppErr (Deposits × StoredDeposit) :=
  match deposits.find? fun x => x.deposit.id = id ∧ x.subject = subject with
  | none => .error .depositNotFound
  | some row =>
    let stored := fromDepositRow row none now
    match stored.deposit.operationId with
    | some o => .error (.depositAlreadyRegistered o)
    | none =>
      if stored.deposit.state ≠ .awaitingAuthorization then .ok (deposits, stored)
      else .ok (Table.update StoredDeposit.key id (StoredDeposit.cancel now) deposits, stored.cancel now)

/-- `assertDepositRegistration`, of an operation with the intent of a deposit. -/
def assertDepositRegistration (d : Option StoredDeposit) (value : StoredOperation)
    (authorization : ReceiveAuthorization) : Except AppErr Unit := do
  let o := value.operation
  let d ← d.elim (.error .depositNotFound) .ok
  revertIf (d.subject ≠ value.subject ∨ d.deposit.accountId ≠ o.accountId ∨ d.deposit.environment ≠ o.environment ∨
    d.deposit.deploymentId ≠ o.deploymentId) .depositNotFound
  d.deposit.operationId.elim (.ok ()) fun id => .error (.depositAlreadyRegistered id)
  revertIf (d.deposit.state ≠ .awaitingAuthorization ∨ d.deposit.expiresAt ≤ o.createdAt) .depositAuthorizationExpired
  revertIf (d.deposit.authorization ≠ authorization) .depositAuthorizationMismatch

/-- The deposit, linked to an operation. -/
def StoredDeposit.link (o : Operation) (x : StoredDeposit) : StoredDeposit :=
  { x with
    deposit := { x.deposit with
      operationId := some o.id
      state := .operation .awaitingSignature
      updatedAt := o.updatedAt } }

/-- `admit`, with the rows that are loaded for the quotas, whose errors are not read here. -/
def admitDeposit (sessions : List StoredSession) (loaded : Rows) (limits : SponsorConfig) (rows : Rows)
    (deposits : Deposits) (value : StoredOperation) : Except AppErr (Rows × Deposits × StoredOperation) :=
  match rows.find? fun r => r.subject = value.subject ∧ r.idempotencyKey = value.idempotencyKey with
  | some prior => if prior.requestHash ≠ value.requestHash then .error .idempotencyConflict
    else .ok (rows, deposits, prior)
  | none =>
    match value.operation.intent with
    | .depositUsdc id authorization => do
      assertDepositRegistration ((Table.find StoredDeposit.key id deposits).map fun x =>
        fromDepositRow x none value.operation.createdAt) value authorization
      (assertQuota loaded value limits).mapError fun _ => .refused
      let (rows', stored) ← admitOperation sessions rows value
      .ok (rows', Table.update StoredDeposit.key id (StoredDeposit.link value.operation) deposits, stored)
    | _ => do
      (assertQuota loaded value limits).mapError fun _ => .refused
      let (rows', stored) ← admitOperation sessions rows value
      .ok (rows', deposits, stored)

/-! ## The listing -/

/-- The conditions of `readDeposits`, with the cursor that has been read. -/
structure DepositQuery where
  subject : Option Nat
  accountId : Option Nat
  start : Option Nat
  endAt : Option Nat
  source : Option Address
  id : Option Nat
  before : Option (Nat × Nat)

def DepositQuery.selects (q : DepositQuery) (x : StoredDeposit) : Bool :=
  let d := x.deposit
  q.subject.all (fun s => decide (x.subject = s)) && q.accountId.all (fun a => decide (d.accountId = a)) &&
    q.start.all (fun t => decide (t ≤ d.createdAt)) && q.endAt.all (fun t => decide (d.createdAt < t)) &&
    q.source.all (fun s => decide (d.authorization.source = s)) && q.id.all (fun i => decide (d.id = i)) &&
    q.before.all fun c => decide (d.createdAt < c.1 ∨ d.createdAt = c.1 ∧ d.id < c.2)

/-- The page, and the cursor of the next one. -/
def readDeposits (rows : Rows) (deposits : Deposits) (q : DepositQuery) (now limit : Nat) (activeOnly : Bool) :
    List Deposit × Option (Nat × Nat) :=
  let selected := ((deposits.filter fun x => q.selects x && (!activeOnly || activeRow rows now x)).insertionSort
    fun x y => y.deposit.createdAt < x.deposit.createdAt ∨
      y.deposit.createdAt = x.deposit.createdAt ∧ y.deposit.id ≤ x.deposit.id).take (limit + 1)
  let items := (selected.take limit).map fun x => (fromDepositRow x (operationOf rows x.deposit) now).deposit
  (items, if limit < selected.length then items.getLast?.map fun d => (d.createdAt, d.id) else none)

/-! ## Runs -/

structure DepositWorld where
  rows : Rows
  deposits : Deposits
  now : Nat

/-- The deposit is active at this moment. -/
def DepositWorld.active (w : DepositWorld) (x : StoredDeposit) : Bool :=
  depositActive (fromDepositRow x (operationOf w.rows x.deposit) w.now).deposit

inductive DepositAct
  | create (value : StoredDeposit)
  | cancel (id subject at' : Nat)
  | admission (value : StoredOperation)
  | transition (id : Nat) (c : Change) (at' : Nat)
  | tick (now : Nat)

/-- A transaction that is committed, or time passing. The times of the callers are of before. -/
inductive DepositStep : DepositWorld → DepositAct → DepositWorld → Prop
  | create {w : DepositWorld} {value x : StoredDeposit} {deposits' : Deposits}
      {id environment deploymentId accountId amount timestamp createdAt : Nat} {account token source : Address}
      {nonce : Bytes32} :
      value.deposit = newDeposit id environment deploymentId accountId account token source amount timestamp nonce
        createdAt →
      createdAt ≤ w.now → createDeposit w.rows w.deposits value = .ok (deposits', x) →
        DepositStep w (.create value) { w with deposits := deposits' }
  | cancel {w : DepositWorld} {id subject at' : Nat} {x : StoredDeposit} {deposits' : Deposits} :
      at' ≤ w.now → cancelDeposit w.deposits id subject at' = .ok (deposits', x) →
        DepositStep w (.cancel id subject at') { w with deposits := deposits' }
  | admission {w : DepositWorld} {cfg : ServiceConfig} {input : RegisterInput} {prepared : Prepared}
      {id createdAt : Nat} {sessions : List StoredSession} {loaded rows' : Rows} {limits : SponsorConfig}
      {deposits' : Deposits}
      {value x : StoredOperation} :
      value.operation = newOperation cfg input prepared id createdAt → createdAt ≤ w.now →
      Loaded w.rows createdAt loaded →
      admitDeposit sessions loaded limits w.rows w.deposits value = .ok (rows', deposits', x) →
        DepositStep w (.admission value) { w with rows := rows', deposits := deposits' }
  | transition {w : DepositWorld} {id at' : Nat} {c : Change} {rows' : Rows} {b : Bool} {x : StoredOperation} :
      at' ≤ w.now → transition id c at' w.rows = .ok (rows', b, x) →
        DepositStep w (.transition id c at') { w with rows := rows' }
  | tick {w : DepositWorld} {now : Nat} : w.now ≤ now → DepositStep w (.tick now) { w with now := now }

structure DepositMove where
  before : DepositWorld
  act : DepositAct
  after : DepositWorld

/-- The moves of a run from an empty database, and the state that it has come to. -/
inductive DepositRun : List DepositMove → DepositWorld → Prop
  | start (now : Nat) : DepositRun [] ⟨[], [], now⟩
  | next {tr : List DepositMove} {w w' : DepositWorld} {act : DepositAct} :
      DepositRun tr w → DepositStep w act w' → DepositRun (tr ++ [⟨w, act, w'⟩]) w'

/-- The move links a deposit to an operation. -/
def DepositMove.Links (m : DepositMove) (x : StoredDeposit) : Prop :=
  x ∈ m.before.deposits ∧ x.deposit.operationId = none ∧
    ∃ y ∈ m.after.deposits, y.key = x.key ∧ y.deposit.operationId ≠ none

/-- The admission is committed when the deposit has expired. -/
def DepositMove.LinksLate (m : DepositMove) (id : Nat) : Prop :=
  ∃ x ∈ m.before.deposits, m.Links x ∧ x.key = id ∧ x.deposit.expiresAt ≤ m.before.now

/-- A refresh puts the operation of the deposit, which was executed, back to a state that is pending. -/
def DepositMove.Revives (m : DepositMove) (id : Nat) : Prop :=
  ∃ x ∈ m.before.deposits, x.key = id ∧ ∃ o c at', m.act = .transition o c at' ∧ c.isOutcome = true ∧
    x.deposit.operationId = some o ∧ (∃ r ∈ m.before.rows, r.operation.id = o ∧
      (r.operation.state = .confirmed ∨ r.operation.state = .reverted)) ∧
    m.before.active x = false ∧ m.after.active x = true

/-- At most one deposit of an account is active. -/
def DepositWorld.OneActive (w : DepositWorld) : Prop :=
  ∀ x ∈ w.deposits, ∀ y ∈ w.deposits, x.deposit.accountId = y.deposit.accountId → w.active x = true →
    w.active y = true → x = y

instance (m : DepositMove) (x : StoredDeposit) : Decidable (m.Links x) := inferInstanceAs (Decidable (_ ∧ _ ∧ _))

instance (m : DepositMove) (id : Nat) : Decidable (m.LinksLate id) :=
  inferInstanceAs (Decidable (∃ x ∈ m.before.deposits, _))

instance (w : DepositWorld) : Decidable w.OneActive := inferInstanceAs (Decidable (∀ x ∈ w.deposits, _))

/-- What stays of a deposit. -/
structure StoredDeposit.Since (x y : StoredDeposit) : Prop where
  key : y.key = x.key
  accountId : y.deposit.accountId = x.deposit.accountId
  token : y.deposit.token = x.deposit.token
  authorization : y.deposit.authorization = x.deposit.authorization
  expiresAt : y.deposit.expiresAt = x.deposit.expiresAt
  /-- The link does not change. -/
  linked : ∀ id, x.deposit.operationId = some id → y.deposit.operationId = some id
  /-- What is cancelled stays cancelled, and is not linked. -/
  cancelled : x.deposit.operationId = none → x.deposit.state = .operation .cancelled → y = x

/-- What holds of a run: the deposits of an account do not overlap, but for those that were linked late or revived;
each is linked to one operation at most, by an admission of before it expired. -/
structure Exclusive (tr : List DepositMove) (w : DepositWorld) : Prop where
  single : ∀ x ∈ w.deposits, ∀ y ∈ w.deposits, x.deposit.accountId = y.deposit.accountId → w.active x = true →
    w.active y = true → x = y ∨ ∃ m ∈ tr, ∃ z ∈ [x, y], m.LinksLate z.key ∨ m.Revives z.key
  since : ∀ m ∈ tr, ∀ x ∈ m.before.deposits, ∃ y ∈ w.deposits, x.Since y
  links : ∀ m ∈ tr, ∀ x, m.Links x → x.deposit.state = .awaitingAuthorization ∧
    ∃ value, m.act = .admission value ∧ value.operation.intent = .depositUsdc x.key x.deposit.authorization ∧
      value.operation.createdAt < x.deposit.expiresAt
  /-- An operation with a deposit carries the authorization of the deposit that is linked to it. -/
  carried : ∀ r ∈ w.rows, ∀ i a, r.operation.intent = .depositUsdc i a → ∃ x ∈ w.deposits, x.key = i ∧
    x.deposit.authorization = a ∧ x.deposit.operationId = some r.operation.id
  once : ∀ x ∈ w.deposits, ∀ y ∈ w.deposits, ∀ r ∈ w.rows, ∀ s ∈ w.rows,
    x.deposit.operationId = some r.operation.id → y.deposit.operationId = some s.operation.id →
    SameAuthorization x.deposit y.deposit → r = s
  listing : ∀ q now limit, readDeposits w.rows w.deposits q now limit true =
    readDeposits w.rows (w.deposits.filter fun x =>
      depositActive (fromDepositRow x (operationOf w.rows x.deposit) now).deposit) q now limit false

/-! ## What a step does -/

/-- What holds in every state: the keys, and what deposits and operations are to each other. -/
structure Coherent (w : DepositWorld) : Prop where
  keyed : w.rows.Keyed
  ids : (w.deposits.map StoredDeposit.key).Nodup
  apart : ∀ x ∈ w.deposits, ∀ y ∈ w.deposits, SameAuthorization x.deposit y.deposit → x = y
  unlinked : ∀ x ∈ w.deposits, x.deposit.operationId = none →
    x.deposit.state = .awaitingAuthorization ∨ x.deposit.state = .operation .cancelled
  linked : ∀ x ∈ w.deposits, ∀ id, x.deposit.operationId = some id → ∃ r ∈ w.rows, r.operation.id = id
  carried : ∀ r ∈ w.rows, ∀ i a, r.operation.intent = .depositUsdc i a → ∃ x ∈ w.deposits, x.key = i ∧
    x.deposit.authorization = a ∧ x.deposit.operationId = some r.operation.id

/-- What a step does to the tables. -/
inductive DepositEffect (w : DepositWorld) : DepositAct → DepositWorld → Prop
  | idle {act : DepositAct} {now : Nat} : w.now ≤ now → DepositEffect w act { w with now := now }
  | created {value : StoredDeposit} {t : Nat} : t ≤ w.now → value.deposit.state = .awaitingAuthorization →
      value.deposit.operationId = none →
      (∀ x ∈ w.deposits, x.deposit.accountId = value.deposit.accountId → activeRow w.rows t x = false) →
      (∀ x ∈ w.deposits, x.key ≠ value.key ∧ ¬SameAuthorization x.deposit value.deposit) →
        DepositEffect w (.create value) { w with deposits := w.deposits ++ [value] }
  | cancelled {act : DepositAct} {x : StoredDeposit} {at' : Nat} : x ∈ w.deposits → x.deposit.operationId = none →
      x.deposit.state = .awaitingAuthorization →
        DepositEffect w act
          { w with deposits := Table.update StoredDeposit.key x.key (StoredDeposit.cancel at') w.deposits }
  | admitted {act : DepositAct} {value : StoredOperation} : (∀ r ∈ w.rows, r.operation.id ≠ value.operation.id) →
      (∀ i a, value.operation.intent ≠ .depositUsdc i a) → DepositEffect w act { w with rows := w.rows ++ [value] }
  | linked {value : StoredOperation} {x : StoredDeposit} : (∀ r ∈ w.rows, r.operation.id ≠ value.operation.id) →
      value.operation.intent = .depositUsdc x.key x.deposit.authorization → x ∈ w.deposits →
      x.deposit.operationId = none → x.deposit.state = .awaitingAuthorization →
      value.operation.createdAt < x.deposit.expiresAt →
        DepositEffect w (.admission value)
          { w with
            rows := w.rows ++ [value]
            deposits := Table.update StoredDeposit.key x.key (StoredDeposit.link value.operation) w.deposits }
  | changed {r : StoredOperation} {c : Change} {at' : Nat} : r ∈ w.rows → r.operation.state ∈ c.source →
        DepositEffect w (.transition r.operation.id c at')
          { w with rows := w.rows.set r.operation.id (c.next at' r.operation) }

section

variable {rows rows' : Rows} {deposits deposits' : Deposits} {x y : StoredDeposit} {value r : StoredOperation}

theorem createDeposit_ok {value : StoredDeposit} (h : createDeposit rows deposits value = .ok (deposits', x)) :
    deposits' = deposits ∨ deposits' = deposits ++ [value] ∧
      (∀ y ∈ deposits, y.deposit.accountId = value.deposit.accountId →
        activeRow rows value.deposit.createdAt y = false) ∧
      ∀ y ∈ deposits, y.key ≠ value.key ∧ ¬SameAuthorization y.deposit value.deposit := by
  unfold createDeposit at h
  split at h
  · split at h
    · cases h
    · obtain ⟨rfl, -⟩ := Prod.mk.inj (Except.ok.inj h)
      exact .inl rfl
  · cases hp : deposits.find? fun x => decide (x.deposit.accountId = value.deposit.accountId ∧
      activeRow rows value.deposit.createdAt x = true) with
    | some pending =>
      rw [hp] at h
      cases h
    | none =>
      rw [hp] at h
      obtain ⟨_, hu, h⟩ := bind_eq_ok.mp h
      obtain ⟨rfl, -⟩ := Prod.mk.inj (Except.ok.inj h)
      have hfree := revertIf_eq_ok.mp hu
      refine .inr ⟨rfl, fun y hy ha => ?_, fun y hy => ⟨fun hk => hfree ⟨y, hy, .inl hk⟩,
        fun hs => hfree ⟨y, hy, .inr hs⟩⟩⟩
      have hnone := List.find?_eq_none.mp hp y hy
      simpa [ha] using hnone

theorem fromDepositRow_operationId (x : StoredDeposit) (now : Nat) :
    (fromDepositRow x none now).deposit.operationId = x.deposit.operationId := by
  unfold fromDepositRow depositView
  dsimp only
  split <;> rfl

theorem fromDepositRow_authorization (x : StoredDeposit) (now : Nat) :
    (fromDepositRow x none now).deposit.authorization = x.deposit.authorization := by
  unfold fromDepositRow depositView
  dsimp only
  split <;> rfl

/-- A deposit without operation that is shown as awaiting its authorization has not expired. -/
theorem awaiting_of_view {now : Nat} (h : (fromDepositRow x none now).deposit.state = .awaitingAuthorization) :
    x.deposit.state = .awaitingAuthorization ∧ now < x.deposit.expiresAt := by
  unfold fromDepositRow depositView at h
  dsimp only at h
  split at h
  · cases h
  · rename_i hex
    refine ⟨h, ?_⟩
    by_contra hle
    exact hex ⟨h, by omega⟩

theorem cancelDeposit_ok {id subject now : Nat} (h : cancelDeposit deposits id subject now = .ok (deposits', x)) :
    deposits' = deposits ∨ ∃ y ∈ deposits, y.key = id ∧ y.deposit.operationId = none ∧
      y.deposit.state = .awaitingAuthorization ∧
        deposits' = Table.update StoredDeposit.key id (StoredDeposit.cancel now) deposits := by
  unfold cancelDeposit at h
  cases hf : deposits.find? fun x => decide (x.deposit.id = id ∧ x.subject = subject) with
  | none =>
    rw [hf] at h
    cases h
  | some row =>
    rw [hf] at h
    have hrow : row.deposit.id = id ∧ row.subject = subject := by simpa using List.find?_some hf
    dsimp only at h
    rw [fromDepositRow_operationId] at h
    cases hop : row.deposit.operationId with
    | some o =>
      rw [hop] at h
      cases h
    | none =>
      rw [hop] at h
      dsimp only at h
      by_cases hs : (fromDepositRow row none now).deposit.state = .awaitingAuthorization
      · rw [if_neg (not_not.mpr hs)] at h
        obtain ⟨rfl, -⟩ := Prod.mk.inj (Except.ok.inj h)
        exact .inr ⟨row, List.mem_of_find?_eq_some hf, hrow.1, hop, (awaiting_of_view hs).1, rfl⟩
      · rw [if_pos hs] at h
        obtain ⟨rfl, -⟩ := Prod.mk.inj (Except.ok.inj h)
        exact .inl rfl

/-- An operation that is not on record is admitted as a new row. -/
theorem admitOperation_new {sessions : List StoredSession}
    (hnone : (rows.find? fun r => r.subject = value.subject ∧ r.idempotencyKey = value.idempotencyKey) = none)
    (h : admitOperation sessions rows value = .ok (rows', r)) :
    rows' = rows ++ [value] ∧ ∀ r ∈ rows, r.operation.id ≠ value.operation.id := by
  unfold admitOperation at h
  rw [hnone] at h
  obtain ⟨_, -, h⟩ := bind_eq_ok.mp h
  obtain ⟨_, hid, h⟩ := bind_eq_ok.mp h
  obtain ⟨rfl, -⟩ := Prod.mk.inj (Except.ok.inj h)
  exact ⟨rfl, fun r hr he => revertIf_eq_ok.mp hid ⟨r, hr, he⟩⟩

/-- The registration of a deposit that is on record, unlinked, and had not expired. -/
theorem assertDepositRegistration_ok {authorization : ReceiveAuthorization} {d : Option StoredDeposit} {u : Unit}
    (h : assertDepositRegistration d value authorization = .ok u) : ∃ x, d = some x ∧ x.deposit.operationId = none ∧
      x.deposit.state = .awaitingAuthorization ∧ value.operation.createdAt < x.deposit.expiresAt ∧
        x.deposit.authorization = authorization := by
  unfold assertDepositRegistration at h
  cases d with
  | none => cases h
  | some x =>
    obtain ⟨d, hd, h⟩ := bind_eq_ok.mp h
    obtain rfl : x = d := Except.ok.inj hd
    obtain ⟨_, -, h⟩ := bind_eq_ok.mp h
    obtain ⟨_, hlink, h⟩ := bind_eq_ok.mp h
    obtain ⟨_, hstate, h⟩ := bind_eq_ok.mp h
    have hstate := revertIf_eq_ok.mp hstate
    have hauth := revertIf_eq_ok.mp h
    push Not at hstate hauth
    refine ⟨x, rfl, ?_, hstate.1, hstate.2, hauth⟩
    cases hop : x.deposit.operationId with
    | none => rfl
    | some id =>
      rw [hop] at hlink
      cases hlink

theorem admitDeposit_ok {sessions : List StoredSession} {loaded : Rows} {limits : SponsorConfig}
    (h : admitDeposit sessions loaded limits rows deposits value = .ok (rows', deposits', r)) :
    rows' = rows ∧ deposits' = deposits ∨
      rows' = rows ++ [value] ∧ (∀ r ∈ rows, r.operation.id ≠ value.operation.id) ∧
        ((∀ i a, value.operation.intent ≠ .depositUsdc i a) ∧ deposits' = deposits ∨
          ∃ x ∈ deposits, value.operation.intent = .depositUsdc x.key x.deposit.authorization ∧
            x.deposit.operationId = none ∧ x.deposit.state = .awaitingAuthorization ∧
            value.operation.createdAt < x.deposit.expiresAt ∧
            deposits' = Table.update StoredDeposit.key x.key (StoredDeposit.link value.operation) deposits) := by
  unfold admitDeposit at h
  cases hp : rows.find? fun r => decide (r.subject = value.subject ∧ r.idempotencyKey = value.idempotencyKey) with
  | some prior =>
    rw [hp] at h
    dsimp only at h
    split at h
    · cases h
    · simp only [Except.ok.injEq, Prod.mk.injEq] at h
      exact .inl ⟨h.1.symm, h.2.1.symm⟩
  | none =>
    rw [hp] at h
    dsimp only at h
    refine .inr ?_
    cases hi : value.operation.intent with
    | depositUsdc id authorization =>
      rw [hi] at h
      obtain ⟨_, hreg, h⟩ := bind_eq_ok.mp h
      obtain ⟨_, -, h⟩ := bind_eq_ok.mp h
      obtain ⟨⟨rows₁, stored⟩, hadmit, h⟩ := bind_eq_ok.mp h
      simp only [Except.ok.injEq, Prod.mk.injEq] at h
      obtain ⟨rfl, rfl, -⟩ := h
      obtain ⟨hrows, hid⟩ := admitOperation_new hp hadmit
      obtain ⟨v, hv, hlink, hstate, -, hauth⟩ := assertDepositRegistration_ok hreg
      obtain ⟨x, hx, rfl⟩ := Option.map_eq_some_iff.mp hv
      obtain ⟨hmem, rfl⟩ := Table.mem_of_find hx
      obtain ⟨hawaiting, hexpires⟩ := awaiting_of_view hstate
      refine ⟨hrows, hid, .inr ⟨x, hmem, ?_, ?_, hawaiting, hexpires, rfl⟩⟩
      · rw [← hauth, fromDepositRow_authorization]
      · rwa [fromDepositRow_operationId] at hlink
    | _ =>
      rw [hi] at h
      obtain ⟨_, -, h⟩ := bind_eq_ok.mp h
      obtain ⟨⟨rows₁, stored⟩, hadmit, h⟩ := bind_eq_ok.mp h
      simp only [Except.ok.injEq, Prod.mk.injEq] at h
      obtain ⟨rfl, rfl, -⟩ := h
      obtain ⟨hrows, hid⟩ := admitOperation_new hp hadmit
      exact ⟨hrows, hid, .inl ⟨nofun, rfl⟩⟩

end

section

variable {w w' : DepositWorld} {act : DepositAct} {x y : StoredDeposit}

theorem DepositStep.effect (h : DepositStep w act w') : DepositEffect w act w' := by
  have idle : ∀ act, DepositEffect w act w := fun act => .idle (Nat.le_refl _)
  cases h with
  | create hv ht hok =>
    rcases createDeposit_ok hok with rfl | ⟨rfl, hinactive, hfree⟩
    · exact idle _
    · exact .created (by rw [hv]; exact ht) (by rw [hv]; rfl) (by rw [hv]; rfl) hinactive hfree
  | cancel ht hok =>
    rcases cancelDeposit_ok hok with rfl | ⟨y, hy, rfl, hlink, hstate, rfl⟩
    · exact idle _
    · exact .cancelled hy hlink hstate
  | admission hv ht hl hok =>
    rcases admitDeposit_ok hok with ⟨rfl, rfl⟩ | ⟨rfl, hid, ⟨hi, rfl⟩ | ⟨x, hx, hi, hlink, hstate, hexpires, rfl⟩⟩
    · exact idle _
    · exact .admitted hid hi
    · exact .linked hid hi hx hlink hstate hexpires
  | transition ht hok =>
    obtain ⟨old, hfind, ⟨-, hsource, rfl, -⟩ | ⟨-, -, rfl, -⟩⟩ := transition_ok hok
    · obtain ⟨hmem, rfl⟩ := mem_of_find hfind
      exact .changed hmem hsource
    · exact idle _
  | tick ht => exact .idle ht

/-! ## Every state is coherent -/

theorem Coherent.eq (hc : Coherent w) (hx : x ∈ w.deposits) (hy : y ∈ w.deposits) (h : x.key = y.key) : x = y :=
  List.inj_on_of_nodup_map hc.ids hx hy h

/-- A row after an update is the row with the key, changed, or one with another key. -/
theorem mem_update {deposits : Deposits} {k : Nat} {f : StoredDeposit → StoredDeposit}
    (h : y ∈ Table.update StoredDeposit.key k f deposits) :
    (∃ q ∈ deposits, q.key = k ∧ y = f q) ∨ y ∈ deposits ∧ y.key ≠ k := by
  obtain ⟨q, hq, rfl⟩ := Table.mem_update.mp h
  by_cases hk : q.key = k
  · rw [if_pos hk]
    exact .inl ⟨q, hq, hk, rfl⟩
  · rw [if_neg hk]
    exact .inr ⟨hq, hk⟩

theorem mem_update_of_ne {deposits : Deposits} {k : Nat} {f : StoredDeposit → StoredDeposit} (h : y ∈ deposits)
    (hk : y.key ≠ k) : y ∈ Table.update StoredDeposit.key k f deposits :=
  Table.mem_update.mpr ⟨y, h, (if_neg hk).symm⟩

theorem mem_update_self {deposits : Deposits} {f : StoredDeposit → StoredDeposit} (h : y ∈ deposits) :
    f y ∈ Table.update StoredDeposit.key y.key f deposits := Table.mem_update.mpr ⟨y, h, (if_pos rfl).symm⟩

/-- The deposit of an operation is not one without operation. -/
theorem ne_key_of_linked (hc : Coherent w) (hx : x ∈ w.deposits) (hy : y ∈ w.deposits) {id : Nat}
    (hlink : x.deposit.operationId = none) (hop : y.deposit.operationId = some id) : y.key ≠ x.key := by
  intro he
  rw [hc.eq hy hx he, hlink] at hop
  cases hop

/-- An update that keeps the key and the authorization keeps deposits apart. -/
theorem Coherent.apart_update (hc : Coherent w) {k : Nat} {f : StoredDeposit → StoredDeposit}
    (hf : ∀ q : StoredDeposit, (f q).deposit.token = q.deposit.token ∧
      (f q).deposit.authorization = q.deposit.authorization) :
    ∀ x ∈ Table.update StoredDeposit.key k f w.deposits, ∀ y ∈ Table.update StoredDeposit.key k f w.deposits,
      SameAuthorization x.deposit y.deposit → x = y := by
  intro x hx y hy hs
  obtain ⟨p, hp, rfl⟩ := Table.mem_update.mp hx
  obtain ⟨q, hq, rfl⟩ := Table.mem_update.mp hy
  have hkeep : ∀ z : StoredDeposit, (if z.key = k then f z else z).deposit.token = z.deposit.token ∧
      (if z.key = k then f z else z).deposit.authorization = z.deposit.authorization := by
    intro z
    by_cases hz : z.key = k
    · rw [if_pos hz]
      exact hf z
    · rw [if_neg hz]
      exact ⟨rfl, rfl⟩
  unfold SameAuthorization at hs
  rw [(hkeep p).1, (hkeep p).2, (hkeep q).1, (hkeep q).2] at hs
  rw [hc.apart p hp q hq hs]

theorem Coherent.ids_update (hc : Coherent w) {k : Nat} {f : StoredDeposit → StoredDeposit}
    (hf : ∀ q : StoredDeposit, (f q).key = q.key) :
    ((Table.update StoredDeposit.key k f w.deposits).map StoredDeposit.key).Nodup := by
  rw [Table.map_key_update StoredDeposit.key hf]
  exact hc.ids

theorem keyed_append {rows : Rows} {value : StoredOperation} (h : rows.Keyed)
    (hid : ∀ r ∈ rows, r.operation.id ≠ value.operation.id) : Rows.Keyed (rows ++ [value]) := by
  unfold Rows.Keyed
  rw [List.map_append, List.nodup_append]
  refine ⟨h, List.nodup_singleton _, ?_⟩
  rintro a ha b hb rfl
  obtain ⟨r, hr, hra⟩ := List.mem_map.mp ha
  rw [List.map_singleton, List.mem_singleton] at hb
  exact hid r hr (hra.trans hb)

theorem Coherent.cancelled (hc : Coherent w) (hx : x ∈ w.deposits) (hlink : x.deposit.operationId = none)
    (at' : Nat) :
    Coherent { w with deposits := Table.update StoredDeposit.key x.key (StoredDeposit.cancel at') w.deposits } where
  keyed := hc.keyed
  ids := hc.ids_update fun _ => rfl
  apart := hc.apart_update fun _ => ⟨rfl, rfl⟩
  unlinked := by
    intro y hy hop
    rcases mem_update hy with ⟨q, -, -, rfl⟩ | ⟨hy, -⟩
    · exact .inr rfl
    · exact hc.unlinked y hy hop
  linked := by
    intro y hy id hop
    rcases mem_update hy with ⟨q, hq, -, rfl⟩ | ⟨hy, -⟩
    · exact hc.linked q hq id hop
    · exact hc.linked y hy id hop
  carried := by
    intro r hr i a hi
    obtain ⟨y, hy, hk, ha, hop⟩ := hc.carried r hr i a hi
    exact ⟨y, mem_update_of_ne hy (ne_key_of_linked hc hx hy hlink hop), hk, ha, hop⟩

theorem Coherent.linked_new (hc : Coherent w) {value : StoredOperation} (hx : x ∈ w.deposits)
    (hlink : x.deposit.operationId = none) (hid : ∀ r ∈ w.rows, r.operation.id ≠ value.operation.id)
    (hi : value.operation.intent = .depositUsdc x.key x.deposit.authorization) :
    Coherent { w with
      rows := w.rows ++ [value]
      deposits := Table.update StoredDeposit.key x.key (StoredDeposit.link value.operation) w.deposits } where
  keyed := keyed_append hc.keyed hid
  ids := hc.ids_update fun _ => rfl
  apart := hc.apart_update fun _ => ⟨rfl, rfl⟩
  unlinked := by
    intro y hy hop
    rcases mem_update hy with ⟨q, -, -, rfl⟩ | ⟨hy, -⟩
    · cases hop
    · exact hc.unlinked y hy hop
  linked := by
    intro y hy id hop
    rcases mem_update hy with ⟨q, -, -, rfl⟩ | ⟨hy, -⟩
    · exact ⟨value, List.mem_append_right _ (List.mem_singleton_self _), Option.some.inj hop⟩
    · obtain ⟨r, hr, hri⟩ := hc.linked y hy id hop
      exact ⟨r, List.mem_append_left _ hr, hri⟩
  carried := by
    intro r hr i a hri
    rcases List.mem_append.mp hr with hr | hr
    · obtain ⟨y, hy, hk, ha, hop⟩ := hc.carried r hr i a hri
      exact ⟨y, mem_update_of_ne hy (ne_key_of_linked hc hx hy hlink hop), hk, ha, hop⟩
    · obtain rfl := List.mem_singleton.mp hr
      rw [hi] at hri
      obtain ⟨rfl, rfl⟩ : x.key = i ∧ x.deposit.authorization = a := by simpa using hri
      exact ⟨x.link r.operation, mem_update_self hx, rfl, rfl, rfl⟩

theorem Coherent.effect (hc : Coherent w) (h : DepositEffect w act w') : Coherent w' := by
  cases h with
  | idle => exact ⟨hc.keyed, hc.ids, hc.apart, hc.unlinked, hc.linked, hc.carried⟩
  | @created value t ht hstate hlink _ hfree =>
    refine ⟨hc.keyed, ?_, ?_, ?_, ?_, ?_⟩
    · rw [List.map_append, List.nodup_append]
      refine ⟨hc.ids, List.nodup_singleton _, ?_⟩
      rintro a ha b hb rfl
      obtain ⟨y, hy, hya⟩ := List.mem_map.mp ha
      rw [List.map_singleton, List.mem_singleton] at hb
      exact (hfree y hy).1 (hya.trans hb)
    · intro x hx y hy hs
      rcases List.mem_append.mp hx with hx' | hx' <;> rcases List.mem_append.mp hy with hy' | hy'
      · exact hc.apart x hx' y hy' hs
      · rw [List.mem_singleton.mp hy'] at hs
        exact absurd hs (hfree x hx').2
      · rw [List.mem_singleton.mp hx'] at hs
        exact absurd ⟨hs.1.symm, hs.2.1.symm, hs.2.2.symm⟩ (hfree y hy').2
      · rw [List.mem_singleton.mp hx', List.mem_singleton.mp hy']
    · intro y hy hop
      rcases List.mem_append.mp hy with hy | hy
      · exact hc.unlinked y hy hop
      · rw [List.mem_singleton.mp hy]
        exact .inl hstate
    · intro y hy id hop
      rcases List.mem_append.mp hy with hy | hy
      · exact hc.linked y hy id hop
      · rw [List.mem_singleton.mp hy, hlink] at hop
        cases hop
    · intro r hr i a hi
      obtain ⟨y, hy, h⟩ := hc.carried r hr i a hi
      exact ⟨y, List.mem_append_left _ hy, h⟩
  | cancelled hx hlink _ => exact hc.cancelled hx hlink _
  | @admitted _ value hid hi =>
    refine ⟨keyed_append hc.keyed hid, hc.ids, hc.apart, hc.unlinked, ?_, ?_⟩
    · intro y hy id hop
      obtain ⟨r, hr, hri⟩ := hc.linked y hy id hop
      exact ⟨r, List.mem_append_left _ hr, hri⟩
    · intro r hr i a hri
      rcases List.mem_append.mp hr with hr | hr
      · exact hc.carried r hr i a hri
      · rw [List.mem_singleton.mp hr] at hri
        exact absurd hri (hi i a)
  | linked hid hi hx hlink _ _ => exact hc.linked_new hx hlink hid hi
  | @changed r c at' hr hs =>
    have hadm := next_admission c at' r.operation
    refine ⟨keyed_set hc.keyed hadm.id, hc.ids, hc.apart, hc.unlinked, ?_, ?_⟩
    · intro y hy id hop
      obtain ⟨s, hs, hsi⟩ := hc.linked y hy id hop
      refine ⟨_, List.mem_map_of_mem hs, ?_⟩
      by_cases he : s.operation.id = r.operation.id
      · rw [if_pos he]
        exact hadm.id.trans (he.symm.trans hsi)
      · rw [if_neg he]
        exact hsi
    · intro s hs i a hi
      rcases mem_set hs with ⟨q, hq, hqi, rfl⟩ | ⟨hs, -⟩
      · obtain rfl := hc.keyed.eq hq hr hqi
        rw [hadm.intent] at hi
        obtain ⟨y, hy, hk, ha, hop⟩ := hc.carried q hq i a hi
        exact ⟨y, hy, hk, ha, hop.trans (congrArg some hadm.id.symm)⟩
      · exact hc.carried s hs i a hi

theorem coherent_empty (now : Nat) : Coherent ⟨[], [], now⟩ where
  keyed := List.nodup_nil
  ids := List.nodup_nil
  apart := by simp
  unlinked := by simp
  linked := by simp
  carried := by simp

theorem DepositRun.coherent {tr : List DepositMove} (h : DepositRun tr w) : Coherent w := by
  induction h with
  | start now => exact coherent_empty now
  | next _ hstep ih => exact ih.effect hstep.effect

/-! ## The active deposits -/

theorem depositActive_iff (d : Deposit) : depositActive d = true ↔
    d.state ∈ [DepositState.awaitingAuthorization, .operation .preparing, .operation .awaitingSignature,
      .operation .submitted, .operation .confirming, .operation .unknown] ∨
    d.state = .operation .reverted ∧ d.finality ≠ .finalized := by
  simp [depositActive]

/-- The state of an operation that is pending, as a deposit shows it. -/
theorem depositActive_view (d : Deposit) (o : Operation) (now : Nat) :
    depositActive (depositView d (some o) now) = pendingState o := by
  rw [Bool.eq_iff_iff, depositActive_iff]
  simp [pendingState, depositView]

/-- The condition of the queries is `depositActive` of what is shown. -/
theorem Coherent.activeRow_eq (hc : Coherent w) (hx : x ∈ w.deposits) (now : Nat) :
    depositActive (fromDepositRow x (operationOf w.rows x.deposit) now).deposit = activeRow w.rows now x := by
  unfold activeRow fromDepositRow
  cases hop : x.deposit.operationId with
  | some id =>
    obtain ⟨r, hr, hri⟩ := hc.linked x hx id hop
    have hjoin : operationOf w.rows x.deposit = some r.operation := by
      unfold operationOf
      rw [hop, Option.bind_some, ← hri, hc.keyed.find hr, Option.map_some]
    rw [hjoin]
    simpa using depositActive_view x.deposit r.operation now
  | none =>
    have hjoin : operationOf w.rows x.deposit = none := by
      unfold operationOf
      rw [hop, Option.bind_none]
    rw [hjoin]
    rcases hc.unlinked x hx hop with hs | hs
    · by_cases hle : x.deposit.expiresAt ≤ now
      · simp [depositView, depositActive, hs, hle]
      · simp [depositView, depositActive, hs, hle, Nat.lt_of_not_le hle]
    · simp [depositView, depositActive, hs]

theorem Coherent.active_eq (hc : Coherent w) (hx : x ∈ w.deposits) : w.active x = activeRow w.rows w.now x :=
  hc.activeRow_eq hx w.now

/-- A deposit that is active later has been active before. -/
theorem activeRow_mono {rows : Rows} {t now : Nat} (ht : t ≤ now) (h : activeRow rows now x = true) :
    activeRow rows t x = true := by
  unfold activeRow at h ⊢
  rcases Bool.or_eq_true_iff.mp h with h | h
  · simp only [Bool.and_eq_true, decide_eq_true_eq] at h
    simp [h.1.1, h.1.2, Nat.lt_of_le_of_lt ht h.2]
  · rw [h, Bool.or_true]

/-- Only an outcome makes an operation pending that was not. -/
theorem pendingState_next {c : Change} {at' : Nat} {o : Operation} (hs : o.state ∈ c.source)
    (hp : pendingState (c.next at' o) = true) :
    pendingState o = true ∨ c.isOutcome = true ∧ (o.state = .confirmed ∨ o.state = .reverted) := by
  unfold pendingState at hp ⊢
  rw [next_state, next_finality] at hp
  cases c <;> cases ho : o.state <;> simp_all [Change.source, Change.patch, Change.isOutcome]

/-- The operation of a deposit, after another has been admitted. -/
theorem operationOf_append (hc : Coherent w) (hx : x ∈ w.deposits) (value : StoredOperation) :
    operationOf (w.rows ++ [value]) x.deposit = operationOf w.rows x.deposit := by
  unfold operationOf
  cases hop : x.deposit.operationId with
  | none => rfl
  | some id =>
    obtain ⟨r, hr, rfl⟩ := hc.linked x hx id hop
    rw [Option.bind_some, Option.bind_some, hc.keyed.find hr]
    unfold Rows.find
    rw [List.find?_append]
    have hfind : w.rows.find? (fun s => decide (s.operation.id = r.operation.id)) = some r := hc.keyed.find hr
    rw [hfind]
    rfl

/-- A change makes a deposit active that was not: it is an outcome of its operation, which had been executed. -/
theorem activeRow_set (hc : Coherent w) {r : StoredOperation} {c : Change} {at' now : Nat} (hr : r ∈ w.rows)
    (hs : r.operation.state ∈ c.source) (hbefore : activeRow w.rows now x ≠ true)
    (hafter : activeRow (w.rows.set r.operation.id (c.next at' r.operation)) now x = true) :
    x.deposit.operationId = some r.operation.id ∧ c.isOutcome = true ∧
      (r.operation.state = .confirmed ∨ r.operation.state = .reverted) := by
  have hid : (c.next at' r.operation).id = r.operation.id := (next_admission c at' r.operation).id
  have hfind := hc.keyed.find hr
  unfold activeRow operationOf at hbefore hafter
  cases hop : x.deposit.operationId with
  | none =>
    rw [hop] at hbefore hafter
    exact absurd hafter hbefore
  | some id =>
    rw [hop, Option.bind_some] at hbefore hafter
    by_cases he : id = r.operation.id
    · subst he
      rw [find_set hfind hid] at hafter
      rw [hfind] at hbefore
      simp only [reduceCtorEq, decide_false, Bool.false_and, Bool.false_or, Option.map_some, Option.any_some]
        at hbefore hafter
      exact ⟨rfl, (pendingState_next hs hafter).resolve_left hbefore⟩
    · rw [find_set_other he hid] at hafter
      exact absurd hafter hbefore

/-- What makes a deposit active: it has been, its operation was admitted late or is revived, or it is created when
none of its account is. -/
theorem DepositEffect.active (hc : Coherent w) (h : DepositEffect w act w') (hy : y ∈ w'.deposits)
    (ha : w'.active y = true) :
    (∃ x ∈ w.deposits, x.key = y.key ∧ x.deposit.accountId = y.deposit.accountId ∧ w.active x = true) ∨
      (DepositMove.mk w act w').LinksLate y.key ∨ (DepositMove.mk w act w').Revives y.key ∨
      ∀ x ∈ w'.deposits, x.deposit.accountId = y.deposit.accountId → w'.active x = true → x = y := by
  have hc' := hc.effect h
  have ha' := (hc'.active_eq hy).symm.trans ha
  cases h with
  | idle ht => exact .inl ⟨y, hy, rfl, rfl, (hc.active_eq hy).trans (activeRow_mono ht ha')⟩
  | @created value t ht hstate hlink hinactive hfree =>
    rcases List.mem_append.mp hy with hy' | hy'
    · exact .inl ⟨y, hy', rfl, rfl, (hc.active_eq hy').trans ha'⟩
    · obtain rfl := List.mem_singleton.mp hy'
      refine .inr (.inr (.inr fun x hx hacc hax => ?_))
      rcases List.mem_append.mp hx with hx' | hx'
      · have hbefore := activeRow_mono ht ((hc'.active_eq hx).symm.trans hax)
        rw [hinactive x hx' hacc] at hbefore
        cases hbefore
      · exact List.mem_singleton.mp hx'
  | cancelled hx hlink _ =>
    rcases mem_update hy with ⟨q, hq, hk, rfl⟩ | ⟨hy', -⟩
    · obtain rfl := hc.eq hq hx hk
      simp [activeRow, operationOf, StoredDeposit.cancel, hlink] at ha'
    · exact .inl ⟨y, hy', rfl, rfl, (hc.active_eq hy').trans ha'⟩
  | admitted hid _ =>
    refine .inl ⟨y, hy, rfl, rfl, (hc.active_eq hy).trans ?_⟩
    unfold activeRow at ha' ⊢
    rwa [operationOf_append hc hy] at ha'
  | @linked value x hid hi hx hlink hstate _ =>
    rcases mem_update hy with ⟨q, hq, hk, rfl⟩ | ⟨hy', -⟩
    · obtain rfl := hc.eq hq hx hk
      by_cases hlate : q.deposit.expiresAt ≤ w.now
      · exact .inr (.inl ⟨q, hq, ⟨hq, hlink, _, hy, rfl, nofun⟩, rfl, hlate⟩)
      · refine .inl ⟨q, hq, rfl, rfl, (hc.active_eq hq).trans ?_⟩
        simp [activeRow, hlink, hstate, Nat.lt_of_not_le hlate]
    · refine .inl ⟨y, hy', rfl, rfl, (hc.active_eq hy').trans ?_⟩
      unfold activeRow at ha' ⊢
      rwa [operationOf_append hc hy'] at ha'
  | @changed r c at' hr hs =>
    by_cases hbefore : w.active y = true
    · exact .inl ⟨y, hy, rfl, rfl, hbefore⟩
    · have hrow : activeRow w.rows w.now y ≠ true := fun h => hbefore ((hc.active_eq hy).trans h)
      obtain ⟨hop, hout, hexecuted⟩ := activeRow_set hc hr hs hrow ha'
      exact .inr (.inr (.inl ⟨y, hy, rfl, r.operation.id, c, at', rfl, hout, hop, ⟨r, hr, rfl, hexecuted⟩,
        by simpa using hbefore, ha⟩))

/-! ## What stays of a deposit -/

theorem StoredDeposit.Since.refl (x : StoredDeposit) : x.Since x :=
  ⟨rfl, rfl, rfl, rfl, rfl, fun _ h => h, fun _ _ => rfl⟩

theorem StoredDeposit.Since.trans {z : StoredDeposit} (h : x.Since y) (h' : y.Since z) : x.Since z where
  key := h'.key.trans h.key
  accountId := h'.accountId.trans h.accountId
  token := h'.token.trans h.token
  authorization := h'.authorization.trans h.authorization
  expiresAt := h'.expiresAt.trans h.expiresAt
  linked id hop := h'.linked id (h.linked id hop)
  cancelled hop hs := by
    obtain rfl := h.cancelled hop hs
    exact h'.cancelled hop hs

/-- A deposit that awaits its authorization may be cancelled or linked. -/
theorem since_of_awaiting (hkey : y.key = x.key) (hacc : y.deposit.accountId = x.deposit.accountId)
    (htoken : y.deposit.token = x.deposit.token) (hauth : y.deposit.authorization = x.deposit.authorization)
    (hexpires : y.deposit.expiresAt = x.deposit.expiresAt) (hop : x.deposit.operationId = none)
    (hstate : x.deposit.state = .awaitingAuthorization) : x.Since y where
  key := hkey
  accountId := hacc
  token := htoken
  authorization := hauth
  expiresAt := hexpires
  linked id h := by
    rw [hop] at h
    cases h
  cancelled _ h := by
    rw [hstate] at h
    cases h

theorem DepositEffect.since (hc : Coherent w) (h : DepositEffect w act w') (hx : x ∈ w.deposits) :
    ∃ y ∈ w'.deposits, x.Since y := by
  cases h with
  | idle | admitted | changed => exact ⟨x, hx, .refl x⟩
  | created => exact ⟨x, List.mem_append_left _ hx, .refl x⟩
  | @cancelled _ q at' hq hop hstate =>
    by_cases hk : x.key = q.key
    · obtain rfl := hc.eq hx hq hk
      exact ⟨x.cancel at', mem_update_self hx, since_of_awaiting rfl rfl rfl rfl rfl hop hstate⟩
    · exact ⟨x, mem_update_of_ne hx hk, .refl x⟩
  | @linked value q _ _ hq hop hstate _ =>
    by_cases hk : x.key = q.key
    · obtain rfl := hc.eq hx hq hk
      exact ⟨x.link value.operation, mem_update_self hx, since_of_awaiting rfl rfl rfl rfl rfl hop hstate⟩
    · exact ⟨x, mem_update_of_ne hx hk, .refl x⟩

/-- A deposit is linked by an admission of before it expired. -/
theorem DepositEffect.links (hc : Coherent w) (h : DepositEffect w act w') (hl : (DepositMove.mk w act w').Links x) :
    x.deposit.state = .awaitingAuthorization ∧
      ∃ value, act = .admission value ∧ value.operation.intent = .depositUsdc x.key x.deposit.authorization ∧
        value.operation.createdAt < x.deposit.expiresAt := by
  obtain ⟨hx, hop, y, hy, hk, hne⟩ := hl
  -- a row of before with the key is the unlinked one
  have hsame : y ∉ w.deposits := by
    intro hy'
    rw [hc.eq hy' hx hk] at hne
    exact hne hop
  cases h with
  | idle | admitted | changed => exact absurd hy hsame
  | created _ _ hlink =>
    rcases List.mem_append.mp hy with hy' | hy'
    · exact absurd hy' hsame
    · rw [List.mem_singleton.mp hy'] at hne
      exact absurd hlink hne
  | cancelled hq hlink _ =>
    rcases mem_update hy with ⟨p, hp, hpk, rfl⟩ | ⟨hy', -⟩
    · obtain rfl := hc.eq hp hq hpk
      exact absurd hlink hne
    · exact absurd hy' hsame
  | @linked value q _ hi hq _ hstate hexpires =>
    rcases mem_update hy with ⟨p, hp, hpk, rfl⟩ | ⟨hy', -⟩
    · obtain rfl := hc.eq hp hq hpk
      obtain rfl := hc.eq hp hx hk
      exact ⟨hstate, value, rfl, hi, hexpires⟩
    · exact absurd hy' hsame

/-! ## Whole runs -/

variable {tr : List DepositMove}

theorem DepositRun.since (h : DepositRun tr w) : ∀ m ∈ tr, ∀ x ∈ m.before.deposits, ∃ y ∈ w.deposits, x.Since y := by
  induction h with
  | start => exact fun _ hm => absurd hm List.not_mem_nil
  | @next tr w w' act hrun hstep ih =>
    intro m hm x hx
    have hnow : ∃ z ∈ w.deposits, x.Since z := by
      rcases List.mem_append.mp hm with hm | hm
      · exact ih m hm x hx
      · rw [List.mem_singleton.mp hm] at hx
        exact ⟨x, hx, .refl x⟩
    obtain ⟨z, hz, hxz⟩ := hnow
    obtain ⟨y, hy, hzy⟩ := hstep.effect.since hrun.coherent hz
    exact ⟨y, hy, hxz.trans hzy⟩

theorem DepositRun.links (h : DepositRun tr w) : ∀ m ∈ tr, ∀ x, m.Links x →
    x.deposit.state = .awaitingAuthorization ∧
      ∃ value, m.act = .admission value ∧ value.operation.intent = .depositUsdc x.key x.deposit.authorization ∧
        value.operation.createdAt < x.deposit.expiresAt := by
  induction h with
  | start => exact fun _ hm => absurd hm List.not_mem_nil
  | next hrun hstep ih =>
    intro m hm x hl
    rcases List.mem_append.mp hm with hm | hm
    · exact ih m hm x hl
    · rw [List.mem_singleton.mp hm] at hl ⊢
      exact hstep.effect.links hrun.coherent hl

/-- Of two active deposits of an account, one has been linked late or revived. -/
theorem DepositRun.single (h : DepositRun tr w) : ∀ x ∈ w.deposits, ∀ y ∈ w.deposits,
    x.deposit.accountId = y.deposit.accountId → w.active x = true → w.active y = true →
      x = y ∨ ∃ m ∈ tr, ∃ z ∈ [x, y], m.LinksLate z.key ∨ m.Revives z.key := by
  induction h with
  | start => exact fun _ hx => absurd hx List.not_mem_nil
  | @next tr w w' act hrun hstep ih =>
    intro x hx y hy hacc hax hay
    have hc := hrun.coherent
    have hc' := hc.effect hstep.effect
    have hnew : (DepositMove.mk w act w') ∈ tr ++ [DepositMove.mk w act w'] :=
      List.mem_append_right _ (List.mem_singleton_self _)
    rcases hstep.effect.active hc hx hax with ⟨p, hp, hpk, hpa, hpactive⟩ | hlate | hrevived | hfresh
    · rcases hstep.effect.active hc hy hay with ⟨q, hq, hqk, hqa, hqactive⟩ | hlate | hrevived | hfresh
      · rcases ih p hp q hq (hpa.trans (hacc.trans hqa.symm)) hpactive hqactive with rfl | ⟨m, hm, z, hz, hd⟩
        · exact .inl (hc'.eq hx hy (hpk.symm.trans hqk))
        · refine .inr ⟨m, List.mem_append_left _ hm, ?_⟩
          rcases List.mem_pair.mp hz with rfl | rfl
          · exact ⟨x, by simp, hpk ▸ hd⟩
          · exact ⟨y, by simp, hqk ▸ hd⟩
      · exact .inr ⟨_, hnew, y, by simp, .inl hlate⟩
      · exact .inr ⟨_, hnew, y, by simp, .inr hrevived⟩
      · exact .inl (hfresh x hx hacc hax)
    · exact .inr ⟨_, hnew, x, by simp, .inl hlate⟩
    · exact .inr ⟨_, hnew, x, by simp, .inr hrevived⟩
    · exact .inl (hfresh y hy hacc.symm hay).symm

/-- The page of the active deposits is the page of all deposits, of a table with the active ones only. -/
theorem Coherent.listing (hc : Coherent w) (q : DepositQuery) (now limit : Nat) :
    readDeposits w.rows w.deposits q now limit true =
      readDeposits w.rows (w.deposits.filter fun x =>
        depositActive (fromDepositRow x (operationOf w.rows x.deposit) now).deposit) q now limit false := by
  have hfilter : (w.deposits.filter fun x => q.selects x && (!true || activeRow w.rows now x)) =
      (w.deposits.filter fun x =>
        depositActive (fromDepositRow x (operationOf w.rows x.deposit) now).deposit).filter fun x =>
          q.selects x && (!false || activeRow w.rows now x) := by
    rw [List.filter_filter]
    refine List.filter_congr fun x hx => ?_
    rw [hc.activeRow_eq hx now]
    simp
  unfold readDeposits
  rw [hfilter]

/-- **One deposit at a time.** In every run from an empty database, of two active deposits of an account one was
linked by an admission that was committed after it had expired, or a refresh has put its executed operation back to
a pending state; each deposit is linked to one operation at most, which carries its authorization alone. -/
theorem deposits_exclusive (h : DepositRun tr w) : Exclusive tr w where
  single := h.single
  since := h.since
  links := h.links
  carried := h.coherent.carried
  once := by
    intro x hx y hy r hr s hs hxr hys hsame
    obtain rfl := h.coherent.apart x hx y hy hsame
    exact h.coherent.keyed.eq hr hs (Option.some.inj (hxr.symm.trans hys))
  listing := h.coherent.listing

end

/-! ## Two deposits at once -/

namespace DepositSample

/-- A deposit of the account 1, with an authorization for ten minutes. -/
def deposit (id createdAt : Nat) : StoredDeposit :=
  ⟨newDeposit id 1 1 1 (addr 7) (addr 2) (addr 8) 50 (createdAt / 1000) id createdAt, 1, id, id⟩

/-- An operation for the deposit with its number, whose times are given. -/
def operation (id depositCreatedAt createdAt : Nat) : StoredOperation :=
  ⟨newOperation sampleConfig ⟨1, 1, id, .depositUsdc id (deposit id depositCreatedAt).deposit.authorization, none, none,
    id, [], none, none, none, id⟩ ⟨addr 7, id, [], none, none⟩ id createdAt, 1, id, id⟩

inductive Act
  | create (id createdAt : Nat)
  | admission (id depositCreatedAt createdAt : Nat)
  | change (id : Nat) (c : Change) (at' : Nat)
  | tick (now : Nat)

def Act.label : Act → DepositAct
  | .create id createdAt => .create (deposit id createdAt)
  | .admission id depositCreatedAt createdAt => .admission (operation id depositCreatedAt createdAt)
  | .change id c at' => .transition id c at'
  | .tick now => .tick now

/-- The state after an act that is made. -/
def Act.after (w : DepositWorld) : Act → Option DepositWorld
  | .create id createdAt =>
    if createdAt ≤ w.now then
      (createDeposit w.rows w.deposits (deposit id createdAt)).toOption.map fun r => { w with deposits := r.1 }
    else none
  | .admission id depositCreatedAt createdAt =>
    if createdAt ≤ w.now then
      (admitDeposit [] (w.rows.filter (inWindow (quotaHistoryStart createdAt))) QuotaSample.limits w.rows w.deposits
        (operation id depositCreatedAt createdAt)).toOption.map fun r => { w with rows := r.1, deposits := r.2.1 }
    else none
  | .change id c at' =>
    if at' ≤ w.now then (transition id c at' w.rows).toOption.map fun r => { w with rows := r.1 } else none
  | .tick now => if w.now ≤ now then some { w with now := now } else none

/-- The moves of some acts, and the state that they lead to. -/
def play : DepositWorld → List Act → Option (List DepositMove × DepositWorld)
  | w, [] => some ([], w)
  | w, a :: as => (a.after w).bind fun w' => (play w' as).map fun r => (⟨w, a.label, w'⟩ :: r.1, r.2)

theorem eq_ok_of_toOption {ε α : Type} {x : Except ε α} {a : α} (h : x.toOption = some a) : x = .ok a := by
  cases x with
  | ok b => exact congrArg Except.ok (Option.some.inj h)
  | error e => cases h

theorem Act.step {w w' : DepositWorld} {a : Act} (h : a.after w = some w') : DepositStep w a.label w' := by
  cases a with
  | create id createdAt =>
    obtain ⟨ht, h⟩ := Option.ite_none_right_eq_some.mp h
    obtain ⟨⟨deposits', x⟩, hok, rfl⟩ := Option.map_eq_some_iff.mp h
    exact .create rfl ht (eq_ok_of_toOption hok)
  | admission id depositCreatedAt createdAt =>
    obtain ⟨ht, h⟩ := Option.ite_none_right_eq_some.mp h
    obtain ⟨⟨rows', deposits', x⟩, hok, rfl⟩ := Option.map_eq_some_iff.mp h
    exact .admission rfl ht (List.Perm.refl _) (eq_ok_of_toOption hok)
  | change id c at' =>
    obtain ⟨ht, h⟩ := Option.ite_none_right_eq_some.mp h
    obtain ⟨⟨rows', b, x⟩, hok, rfl⟩ := Option.map_eq_some_iff.mp h
    exact .transition ht (eq_ok_of_toOption hok)
  | tick now =>
    obtain ⟨ht, h⟩ := Option.ite_none_right_eq_some.mp h
    obtain rfl := Option.some.inj h
    exact .tick ht

theorem play_run {w w' : DepositWorld} {as : List Act} {s tr : List DepositMove} (hr : DepositRun s w)
    (h : play w as = some (tr, w')) : DepositRun (s ++ tr) w' := by
  induction as generalizing w s tr with
  | nil =>
    obtain ⟨rfl, rfl⟩ : [] = tr ∧ w = w' := by simpa [play] using h
    rwa [List.append_nil]
  | cons a as ih =>
    obtain ⟨w₁, hafter, h⟩ := Option.bind_eq_some_iff.mp h
    obtain ⟨⟨tr₁, w₂⟩, hplay, h⟩ := Option.map_eq_some_iff.mp h
    obtain ⟨rfl, rfl⟩ : ⟨w, a.label, w₁⟩ :: tr₁ = tr ∧ w₂ = w' := by simpa using h
    have hrun := ih (hr.next (Act.step hafter)) hplay
    rwa [List.append_assoc, List.singleton_append] at hrun

/-- An operation that has been executed, with what is known of the finality. -/
def executed (finality : Finality) : Change := .settle ⟨.confirmed, finality, 9, 100, 1, 10, none, none⟩

/-- The operation for a deposit is registered before it expires and admitted after another has been created. -/
def late : List Act := [.create 1 0, .tick 601000, .create 2 600500, .admission 1 0 100000]

/-- A deposit is confirmed, another is created, and then the chain is reorganized. -/
def reorganized : List Act :=
  [.tick 5000, .create 1 1000, .admission 1 1000 2000, .change 1 (.submit 77) 3000,
    .change 1 (executed .applicationConfirmed) 4000, .create 2 5000, .change 1 .reorganized 5000]

/-- A deposit is confirmed, and another is created. -/
def settled : List Act :=
  [.tick 5000, .create 1 1000, .admission 1 1000 2000, .change 1 (.submit 77) 3000,
    .change 1 (executed .finalized) 4000, .create 2 5000]

def moves (as : List Act) : List DepositMove := ((play ⟨[], [], 0⟩ as).map Prod.fst).getD []

def world (as : List Act) : DepositWorld := ((play ⟨[], [], 0⟩ as).map Prod.snd).getD ⟨[], [], 0⟩

theorem run (as : List Act) (h : (play ⟨[], [], 0⟩ as).isSome = true) : DepositRun (moves as) (world as) := by
  obtain ⟨⟨tr, w⟩, hp⟩ := Option.isSome_iff_exists.mp h
  have hrun := play_run (.start 0) hp
  unfold moves world
  rw [hp]
  exact hrun

end DepositSample

open DepositSample in
/-- Two deposits of an account are active at once: when the first is linked after it has expired, with no operation
before, and when no deposit ever expires and the operation of the first is reorganized. -/
theorem deposits_overlap :
    (∃ tr w, DepositRun tr w ∧ ¬w.OneActive ∧ (∃ m ∈ tr, m.LinksLate 1) ∧ ∀ m ∈ tr, m.before.rows = []) ∧
    ∃ tr w, DepositRun tr w ∧ ¬w.OneActive ∧ ∀ m ∈ tr, ∀ x ∈ m.after.deposits, m.after.now < x.deposit.expiresAt :=
  ⟨⟨moves late, world late, run late (by decide +kernel), by decide +kernel, by decide +kernel, by decide +kernel⟩,
    ⟨moves reorganized, world reorganized, run reorganized (by decide +kernel), by decide +kernel,
      by decide +kernel⟩⟩

open DepositSample in
/-- The first deposit is settled, with its operation; the second is active. -/
theorem deposits_exclusive_sample : (world settled).deposits.map (world settled).active = [false, true] ∧
    ((world settled).rows.map fun r => r.operation.state) = [.confirmed] ∧
    Exclusive (moves settled) (world settled) :=
  ⟨by decide +kernel, by decide +kernel, deposits_exclusive (run settled (by decide +kernel))⟩

end Cpredict.Operations
