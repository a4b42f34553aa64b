import Cpredict.Lib.Program
import Cpredict.Automation.Journal

/-!
# AutomaticClaimsWorker.tick

The worker as a program that awaits its store, its chain and its source, and what every await does to the journal. The
answers of the chain, the source and the preferences are free; a database transaction may be committed although its
answer is lost. `AutomationRecovery.automatic` is the worker's `recover`.
-/

namespace Cpredict.Automation

open Outcome Program

/-! ## Awaits -/

inductive Await
  | auditCanonical
  | status (owner : Address) (reason : String)
  | reject (a : Action) (reason : String)
  | pending
  | receipt (hash : Bytes32)
  | recoveryHashes (id : Nat)
  | canonicalFinal (r : TxReceipt)
  | finish (id : Nat) (r : TxReceipt) (hash : Bytes32)
  | enabled (owner : Address)
  | eligible (a : Action)
  | cancelPrepared (id : Nat)
  | spentToday (excludeId : Option Nat)
  | balance
  | submissionReady
  | nextCandidate
  | prepare (a : Action)
  | save (a : Action) (tx : Prepared)
  | validate (tx : Record)
  | validation (tx : Record) (failed : Bool)
  | markBroadcasting (id : Nat)
  | send (tx : Record)
  | markUnknown (id : Nat)
  | recoveryCheckDue (id : Nat)
  | quorumVerify (hashes : List Bytes32) (nonce : Nat)
  | prepareRecovery (tx : Record)
  | saveRecovery (tx : Record) (p : Prepared)
  | startRecovery (tx : Record) (r : Recovery)
  | resend (r : Recovery)
  | recoverySubmitted (id : Nat)
  | recoveryCheck (id : Nat) (manual : Bool)

/-- What an await is answered by. -/
abbrev Reply : Await → Type
  | .auditCanonical => List Action
  | .pending => List Record
  | .receipt _ => Option TxReceipt
  | .recoveryHashes _ => List Bytes32
  | .canonicalFinal _ => Bool
  | .enabled _ => Bool
  | .eligible _ => Bool
  | .spentToday _ => Nat
  | .balance => Nat
  | .submissionReady => Bool
  | .nextCandidate => Option Action
  | .prepare _ => Prepared
  | .save _ _ => Record
  | .markBroadcasting _ => Bool
  | .send _ => Bytes32
  | .recoveryCheckDue _ => Bool
  | .prepareRecovery _ => Prepared
  | .saveRecovery _ _ => Recovery
  | .startRecovery _ _ => Bool
  | .resend _ => Bytes32
  | _ => Unit

abbrev Work := Program Reply WorkerErr

/-- `await` of the worker. -/
def ask (c : Await) : Work (Reply c) := await c

/-- `AutomaticClaimsWorker`, with its recovery if it has one. -/
structure Worker where
  dailyBudget : Nat
  maxPerTick : Nat
  maxTransactionCost : Nat
  recover : Bool
  keccak256 : Bytes → Bytes32
  /-- `submissionFailure(error).reason` -/
  failureReason : WorkerErr → String
  /-- A failure of the recovery that needs a decision by hand. -/
  needsManual : WorkerErr → Bool

/-! ## setStatus -/

inductive AutomationEffect
  | payout
  | assetReturn
  | marketMaintenance
  | matching
  | unknown
deriving DecidableEq

def automationEffect (kind : String) : AutomationEffect :=
  if kind ∈ ["winner", "early-bird", "refund", "timeout-bonus", "fees", "bond"] then .payout
  else if isReturnListing kind = true ∨ kind = "release-order" then .assetReturn
  else if kind = "void-timeout" ∨ "settle-bond:".toList.isPrefixOf kind.toList = true then .marketMaintenance
  else if kind = "match-orders" then .matching
  else .unknown

def setStatus (a : Action) (reason : String) (queueReason : Option String) : Work Unit := do
  let effect := automationEffect a.kind
  let subject := if effect = .payout ∨ effect = .assetReturn then a.owner else 0
  let finalReason :=
    if reason = "received" then
      match effect with
      | .payout => "received"
      | .assetReturn => "assets_returned"
      | .marketMaintenance => "market_state_updated"
      | _ => "operation_completed"
    else reason
  ask (.status subject finalReason)
  if reason ∈ ["received", "confirming", "checking_original_transaction", "rechecking_after_reorg"] then ret ()
  else ask (.reject a (queueReason.getD finalReason))

/-- The statuses of the orphaned actions. -/
def setStatuses : List Action → Work Unit
  | [] => ret ()
  | a :: rest => do
    setStatus a "rechecking_after_reorg" none
    setStatuses rest

/-- `requiresClaimPreference && !(await enabled(owner))` -/
def optedOut (a : Action) : Work Bool :=
  if a.requiresClaimPreference = true then do
    let enabled ← ask (.enabled a.owner)
    ret !enabled
  else ret false

def canSubmit (a : Action) : Work Bool := do
  if ← ask .submissionReady then ret true
  else do
    setStatus a "submission_rpc_unavailable" none
    ret false

namespace Worker

variable (W : Worker)

/-! ## broadcast -/

/-- The transaction costs more than it may, or than what is left of the day's budget. -/
def exceedsBudget (tx : Record) : Work Bool :=
  if W.maxTransactionCost < tx.tx.maximumCost then ret true
  else do
    let spent ← ask (.spentToday (some tx.id))
    ret (decide (W.dailyBudget < spent + tx.tx.maximumCost))

/-- The `try` block before the broadcast: whether it is to go on. -/
def lastChecks (tx : Record) : Work Bool := do
  ask (.validate tx)
  if ← optedOut tx.action then do
    ask (.cancelPrepared tx.id)
    ret false
  else do
    if ← W.exceedsBudget tx then do
      setStatus tx.action "daily_gas_budget_exhausted" none
      ret false
    else do
      let balance ← ask .balance
      if balance < tx.tx.maximumCost then do
        setStatus tx.action "gas_balance_insufficient" none
        ret false
      else ret true

/-- `chain.send`, and the check of the hash. -/
def sendRaw (tx : Record) : Work Unit := do
  let hash ← ask (.send tx)
  if hash ≠ tx.tx.hash then fail .hashMismatch else ret ()

/-- A failure that is proven to be local leaves nothing to be sent. -/
def cancelInvalid (tx : Record) (e : WorkerErr) : Work Unit :=
  if e = .finalValidation then ask (.cancelPrepared tx.id) else ret ()

def broadcast (tx : Record) : Work Unit := do
  match ← attempt (W.lastChecks tx) with
  | .error e => do
    ask (.validation tx true)
    cancelInvalid tx e
    fail e
  | .ok false => ret ()
  | .ok true => do
    ask (.validation tx false)
    if ← ask (.markBroadcasting tx.id) then do
      let result ← attempt (sendRaw tx)
      -- `finally`: also when the send has failed
      ask (.markUnknown tx.id)
      ofExcept result
      setStatus tx.action "confirming" none
    else ret ()

/-! ## AutomationRecovery -/

def stopUnless (b : Bool) (reason : RecoveryStop) : Work Unit := if b = true then ret () else fail
    (.recoveryStopped reason)

/-- `admission`, without a replacement. -/
def admission (tx : Record) : Work Unit := do
  let out ← optedOut tx.action
  stopUnless (!out) .ownerOptedOut
  let eligible ← ask (.eligible tx.action)
  stopUnless eligible .noEntitlement

/-- `admission` of a replacement. -/
def admitReplacement (tx : Record) (p : Prepared) : Work Unit := do
  admission tx
  if p.nonce ≠ tx.tx.nonce then fail .finalValidation
  else if W.maxTransactionCost < p.maximumCost then fail (.recoveryStopped .budgetExceeded)
  else do
    let spent ← ask (.spentToday (some tx.id))
    if W.dailyBudget < spent + p.maximumCost then fail (.recoveryStopped .budgetExceeded)
    else do
      let balance ← ask .balance
      stopUnless (decide (p.maximumCost ≤ balance)) .budgetExceeded

def recoveryReady : Work Unit := do
  let ready ← ask .submissionReady
  stopUnless ready .rpcUnavailable

def prepareRecovery (tx : Record) : Work Recovery := do
  stopUnless tx.state.sent .alreadyAttempted
  ask (.quorumVerify [tx.tx.hash] tx.tx.nonce)
  admission tx
  recoveryReady
  let replacement ← ask (.prepareRecovery tx)
  W.admitReplacement tx replacement
  ask (.validate { tx with tx := replacement })
  ask (.saveRecovery tx replacement)

/-- `chain.send` of a replacement, and the check of the hash. -/
def resendRaw (r : Recovery) : Work Unit := do
  let hash ← ask (.resend r)
  if hash ≠ r.replacement.hash then fail .finalValidation else ret ()

def broadcastRecovery (tx : Record) (r : Recovery) : Work Unit := do
  stopUnless (r.state = .prepared && r.originalHash = tx.tx.hash && r.transactionId = tx.id) .alreadyAttempted
  ask (.quorumVerify [tx.tx.hash, r.replacement.hash] tx.tx.nonce)
  W.admitReplacement tx r.replacement
  recoveryReady
  ask (.validate { tx with tx := r.replacement })
  W.admitReplacement tx r.replacement
  let started ← ask (.startRecovery tx r)
  stopUnless started .alreadyAttempted
  let _ ← attempt (resendRaw r)
  ask (.recoverySubmitted r.id)

/-- `automatic` -/
def automatic (tx : Record) : Work Unit := do
  let result ← attempt do
    let r ← W.prepareRecovery tx
    W.broadcastRecovery tx r
  match result with
  | .ok () => ret ()
  | .error e => ask (.recoveryCheck tx.id (W.needsManual e))

/-! ## tick -/

/-- The first receipt of some replaced hashes. -/
def replacedReceipt : List Bytes32 → Work (Option (TxReceipt × Bytes32))
  | [] => ret none
  | hash :: rest => do
    match ← ask (.receipt hash) with
    | some r => ret (some (r, hash))
    | none => replacedReceipt rest

/-- The receipt of a transaction, under its own hash or one that was replaced for it. -/
def findReceipt (tx : Record) : Work (Option (TxReceipt × Bytes32)) := do
  match ← ask (.receipt tx.tx.hash) with
  | some r => ret (some (r, tx.tx.hash))
  | none => do
    let hashes ← ask (.recoveryHashes tx.id)
    replacedReceipt hashes

/-- `receipt && (await canonicalFinal(receipt))` -/
def isFinal (found : Option (TxReceipt × Bytes32)) : Work (Option (TxReceipt × Bytes32)) :=
  match found with
  | none => ret none
  | some (r, hash) => do
    let final ← ask (.canonicalFinal r)
    ret (if final = true then some (r, hash) else none)

/-- A pending transaction that has not been sent: whether it is out of the way. -/
def resume (tx : Record) : Work Bool := do
  if ← optedOut tx.action then do
    ask (.cancelPrepared tx.id)
    ret true
  else do
    let eligible ← ask (.eligible tx.action)
    if eligible = false then do
      ask (.cancelPrepared tx.id)
      ret true
    else if W.maxTransactionCost < tx.tx.maximumCost then do
      setStatus tx.action "per_transaction_gas_cap_exceeded" none
      ret false
    else do
      let spent ← ask (.spentToday (some tx.id))
      if W.dailyBudget < spent + tx.tx.maximumCost then do
        setStatus tx.action "daily_gas_budget_exhausted" none
        ret false
      else do
        let balance ← ask .balance
        if balance < tx.tx.maximumCost then do
          setStatus tx.action "gas_balance_insufficient" none
          ret false
        else if ← canSubmit tx.action then do
          W.broadcast tx
          ret false
        else ret false

/-- The recovery of a transaction that has no receipt. -/
def recoverMissing (tx : Record) (found : Option (TxReceipt × Bytes32)) : Work Unit :=
  if found.isNone = true ∧ W.recover = true then do
    if ← ask (.recoveryCheckDue tx.id) then W.automatic tx else ret ()
  else ret ()

/-- A pending transaction: whether it is out of the way. -/
def reconcile (tx : Record) : Work Bool := do
  let found ← findReceipt tx
  match ← isFinal found with
  | some (r, hash) => do
    ask (.finish tx.id r hash)
    setStatus tx.action (if r.success = true then "received" else "transaction_reverted") none
    ret true
  | none =>
    if tx.state = .prepared then W.resume tx
    else do
      setStatus tx.action (if found.isSome = true then "confirming" else "checking_original_transaction") none
      W.recoverMissing tx found
      ret false

/-- The loop over the pending transactions: whether all are out of the way. -/
def reconcileAll : List Record → Work Bool
  | [] => ret true
  | tx :: rest => do
    if ← W.reconcile tx then reconcileAll rest else ret false

/-- The `try` block of a candidate: whether the next one is to be looked at. -/
def submit (a : Action) : Work Bool := do
  let eligible ← ask (.eligible a)
  if eligible = false then do
    ask (.reject a "no_entitlement")
    ret true
  else if ← optedOut a then do
    ask (.reject a "owner_opted_out")
    ret true
  else do
    let balance ← ask .balance
    if balance = 0 then do
      setStatus a "gas_balance_insufficient" none
      ret false
    else if ← canSubmit a then do
      let prepared ← ask (.prepare a)
      if W.keccak256 prepared.raw ≠ prepared.hash then fail .hashMismatch
      else if W.maxTransactionCost < prepared.maximumCost then fail .gasCapExceeded
      else do
        let spent ← ask (.spentToday none)
        if W.dailyBudget < spent + prepared.maximumCost then do
          setStatus a "daily_gas_budget_exhausted" none
          ret false
        else do
          let balance ← ask .balance
          if balance < prepared.maximumCost then do
            setStatus a "gas_balance_insufficient" none
            ret false
          else do
            let tx ← ask (.save a prepared)
            W.broadcast tx
            ret false
    else ret false

/-- The status that a failed candidate gets. -/
def failureStatus : WorkerErr → String
  | .quotaExceeded .account => "cleanup_account_quota_exceeded"
  | .quotaExceeded .market => "cleanup_market_quota_exceeded"
  | .gasCapExceeded => "per_transaction_gas_cap_exceeded"
  | _ => "retry_after_chain_check"

def failureQueueReason (e : WorkerErr) : Option String :=
  match e with
  | .quotaExceeded _ => none
  | .gasCapExceeded => none
  | e => some ("chain_check_" ++ W.failureReason e)

/-- One candidate: whether the next one is to be looked at. -/
def candidate (a : Action) : Work Bool := do
  if ← optedOut a then do
    ask (.reject a "owner_opted_out")
    ret true
  else
    match ← attempt (W.submit a) with
    | .ok next => ret next
    | .error e => do
      setStatus a (failureStatus e) (W.failureQueueReason e)
      let pending ← ask .pending
      ret pending.isEmpty

/-- The loop over the candidates. -/
def candidates : Nat → Work Unit
  | 0 => do
    let _ ← ask .nextCandidate
    ret ()
  | n + 1 => do
    match ← ask .nextCandidate with
    | none => ret ()
    | some a => do
      if ← W.candidate a then candidates n else ret ()

def tick : Work Unit := do
  let orphaned ← ask .auditCanonical
  setStatuses orphaned
  let pending ← ask .pending
  if ← W.reconcileAll pending then W.candidates W.maxPerTick else ret ()

end Worker

/-! ## What awaits do -/

/-- An await with its answer. -/
structure Occurrence where
  cmd : Await
  answer : Except WorkerErr (Reply cmd)

structure World where
  journal : Journal
  trace : List Occurrence

/-- A database transaction is committed and answered, or committed and its answer lost, or not committed. -/
def Commits {α : Type} (w w' : World) (f : Except WorkerErr (Journal × α)) (r : Except WorkerErr α) : Prop :=
  (∃ a, f = .ok (w'.journal, a) ∧ (r = .ok a ∨ ∃ e, r = .error e)) ∨ w'.journal = w.journal ∧ ∃ e, r = .error e

/-- What a command does to the journal. -/
def JournalEffect (st : Store) (keccak256 : Bytes → Bytes32) (w w' : World) :
    (c : Await) → Except WorkerErr (Reply c) → Prop
  | .auditCanonical, r => ∃ ix now, Commits w w' (auditCanonical ix now st w.journal) r
  | .pending, r => w'.journal = w.journal ∧ ∀ l, r = .ok l → l = st.pending w.journal
  | .recoveryHashes id, r => w'.journal = w.journal ∧ ∀ l, r = .ok l → l = w.journal.recoveryHashes id
  | .finish id receipt hash, r => ∃ now, Commits w w' ((w.journal.finish now id receipt hash).map (·, ())) r
  | .cancelPrepared id, r => Commits w w' (.ok (w.journal.cancelPrepared id, ())) r
  | .save a tx, r => ∃ now id candidate, Commits w w' (st.save w.journal now a tx id candidate) r
  | .markBroadcasting id, r => ∃ now, Commits w w' (.ok (w.journal.markBroadcasting now id)) r
  | .markUnknown id, r => Commits w w' (.ok (w.journal.markUnknown id, ())) r
  | .saveRecovery tx p, r => ∃ now id, Commits w w' (st.saveRecovery w.journal now keccak256 tx p id) r
  | .startRecovery tx rec, r => ∃ now, Commits w w' (.ok (st.startRecovery w.journal now tx rec)) r
  | .recoverySubmitted id, r => Commits w w' (.ok (w.journal.recoverySubmitted id, ())) r
  | .recoveryCheck id manual, r => Commits w w' (.ok (w.journal.recoveryCheck id manual, ())) r
  | _, _ => w'.journal = w.journal

def Performs (st : Store) (keccak256 : Bytes → Bytes32) : Effect Reply WorkerErr World := fun c w r w' =>
  w'.trace = w.trace ++ [⟨c, r⟩] ∧ JournalEffect st keccak256 w w' c r

/-- Others do not touch the rows of the signer. -/
structure Others (st : Store) (w w' : World) : Prop where
  trace : w'.trace = w.trace
  lane : st.lane w'.journal = st.lane w.journal
  ids : (w.journal.rows.map Row.id).Nodup → (w'.journal.rows.map Row.id).Nodup
  recoveries : ∀ x ∈ st.lane w.journal, (w'.journal.recoveries.filter fun r => r.transactionId = x.id) =
    w.journal.recoveries.filter fun r => r.transactionId = x.id

/-! ## Runs -/

/-- The world, and the tick that holds the lock of the signer. -/
structure System where
  world : World
  running : Option (Work Unit)

inductive System.Step (W : Worker) (st : Store) : System → System → Prop
  | start {w : World} : Step W st ⟨w, none⟩ ⟨w, some W.tick⟩
  | move {w w' : World} {p p' : Work Unit} (h : Program.Step (Performs st W.keccak256) (Others st) (p, w) (p', w')) :
      Step W st ⟨w, some p⟩ ⟨w', some p'⟩
  /-- The tick ends, or its process crashes. -/
  | stop {w : World} {p : Work Unit} : Step W st ⟨w, some p⟩ ⟨w, none⟩
  | others {w w' : World} (h : Others st w w') : Step W st ⟨w, none⟩ ⟨w', none⟩

end Cpredict.Automation
