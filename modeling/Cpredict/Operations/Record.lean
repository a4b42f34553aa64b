import Cpredict.Events
import Cpredict.Lib.Outcome

/-!
# Operations

The record of an operation of the application service, and the changes that the service makes to it: one for every
place at which `transition` is called, with the states in which the change is made and the patch (`Change`).

Times are in milliseconds. Hexadecimal strings that are compared without regard to case are numbers or bytes.
-/

namespace Cpredict.Operations

open Outcome

inductive OperationState
  | preparing
  | awaitingSignature
  | submitted
  | confirming
  | confirmed
  | reverted
  | cancelled
  | unknown
deriving DecidableEq

def isRecoverable : OperationState → Bool
  | .submitted | .confirming | .unknown => true
  | _ => false

inductive Finality
  | pending
  | applicationConfirmed
  | finalized
deriving DecidableEq

inductive BudgetLane
  | exposure
  | exit
deriving DecidableEq

inductive GasPayment
  | sponsored
  | selfFunded
deriving DecidableEq

inductive SigningMode
  | controller
  | session
deriving DecidableEq

/-- An authorization of a transfer of USDC. -/
structure ReceiveAuthorization where
  source : Address
  target : Address
  value : Nat
  validAfter : Nat
  validBefore : Nat
  nonce : Bytes32
deriving DecidableEq

/-- The kinds of intents whose contents are not read here. -/
inductive OtherKind
  | faucet
  | createMarket
  | withdrawOrderShares
  | resolve
  | creatorVoid
  | voidTimeout
  | revokeTradingSession
  | transfer
deriving DecidableEq

/-- Claims on a market, or on its bond. -/
inductive MarketClaim
  | claimWinner
  | claimEarlyBird
  | refund
  | claimTimeoutBonus
  | settleBond
  | settleBondAndClaim
deriving DecidableEq

inductive BusinessIntent
  | depositUsdc (depositId : Nat) (authorization : ReceiveAuthorization)
  | buy (market : Address) (outcomeId units minUnits maxPayment deadline : Nat)
  | createOrder (market : Address) (side : Side) (outcomeId units unitPrice expiresAt : Nat) (autoMatch : Bool)
  | fillOrder (orderId : Nat) (side : Side) (units minUnits paymentLimit deadline : Nat)
  | cancelOrder (orderId : Nat)
  | releaseOrder (orderId : Nat)
  | createListing (market : Address) (outcomeId units unitPrice expiresAt : Nat)
  | fillListing (listingId : Bytes32) (units minUnits maxPayment deadline : Nat)
  | cancelListing (listingId : Bytes32)
  | returnListing (listingId : Bytes32)
  | claim (kind : MarketClaim) (market : Address)
  | claimBond
  | claimFees
  | other (kind : OtherKind)
deriving DecidableEq

structure Operation where
  id : Nat
  environment : Nat
  deploymentId : Nat
  accountId : Nat
  account : Address
  intent : BusinessIntent
  signingMode : Option SigningMode
  sessionId : Option Nat
  nonce : Nat
  callData : Bytes
  factory : Option Address
  factoryData : Option Bytes
  state : OperationState
  providerOperationId : Option Bytes32
  userOperationHash : Option Bytes32
  transactionHash : Option Bytes32
  blockNumber : Option Nat
  blockHash : Option Bytes32
  actualGasCost : Option Nat
  finality : Finality
  createdAt : Nat
  updatedAt : Nat
  expiresAt : Nat
  maxGasCost : Nat
  lane : BudgetLane
  reason : Option String
  gasPayment : Option GasPayment
  sponsorshipAttempted : Option Bool
  gasSettledAt : Option Nat
  gasReleasedAt : Option Nat
deriving DecidableEq

structure StoredOperation where
  operation : Operation
  subject : Nat
  idempotencyKey : Nat
  requestHash : Bytes32
deriving DecidableEq

/-! ## Patches -/

/-- The properties that a patch has; the inner option is the `null` of the property. -/
structure OperationPatch where
  state : Option OperationState := none
  providerOperationId : Option (Option Bytes32) := none
  userOperationHash : Option (Option Bytes32) := none
  transactionHash : Option (Option Bytes32) := none
  blockNumber : Option (Option Nat) := none
  blockHash : Option (Option Bytes32) := none
  actualGasCost : Option (Option Nat) := none
  updatedAt : Option Nat := none
  reason : Option (Option String) := none
  finality : Option Finality := none
  sponsorshipAttempted : Option Bool := none
  gasSettledAt : Option Nat := none

/-- `{ ...old, ...patch }` -/
def OperationPatch.over (patch : OperationPatch) (old : Operation) : Operation :=
  { old with
    state := patch.state.getD old.state
    providerOperationId := patch.providerOperationId.getD old.providerOperationId
    userOperationHash := patch.userOperationHash.getD old.userOperationHash
    transactionHash := patch.transactionHash.getD old.transactionHash
    blockNumber := patch.blockNumber.getD old.blockNumber
    blockHash := patch.blockHash.getD old.blockHash
    actualGasCost := patch.actualGasCost.getD old.actualGasCost
    updatedAt := patch.updatedAt.getD old.updatedAt
    reason := patch.reason.getD old.reason
    finality := patch.finality.getD old.finality
    sponsorshipAttempted := patch.sponsorshipAttempted <|> old.sponsorshipAttempted
    gasSettledAt := patch.gasSettledAt <|> old.gasSettledAt }

def applyOperationPatch (old : Operation) (patch : OperationPatch) : Operation :=
  let next := patch.over old
  if next.state = .cancelled ∧ old.sponsorshipAttempted = some false ∧ next.userOperationHash = none ∧
      next.providerOperationId = none ∧ next.transactionHash = none then
    { next with gasReleasedAt := some (next.gasReleasedAt.getD next.updatedAt) }
  else next

/-! ## The changes of the service -/

/-- What a refresh has found out about an operation. -/
structure Settlement where
  state : OperationState
  finality : Finality
  transactionHash : Bytes32
  blockNumber : Nat
  blockHash : Bytes32
  actualGasCost : Nat
  gasSettledAt : Option Nat
  reason : Option String
deriving DecidableEq

/-- The places at which the service calls `transition`. -/
inductive Change
  /-- The gateway, before it sends the user operation. -/
  | submit (userOperationHash : Bytes32)
  /-- The gateway, when sending has failed. -/
  | resultUnknown
  /-- The gateway, before it asks for sponsorship. -/
  | sponsor
  /-- The policy, before it answers that the provider may proceed. -/
  | proceed
  /-- The user cancels. -/
  | cancel
  /-- A refresh, after the admission has expired. -/
  | expire
  /-- A refresh, when nobody knows the user operation. -/
  | closeUnaccepted
  /-- A refresh without news. -/
  | query
  /-- A refresh with a receipt. -/
  | settle (s : Settlement)
  /-- A refresh that has lost the receipt. -/
  | reorganized
deriving DecidableEq

/-- The states in which the change is made. -/
def Change.source : Change → List OperationState
  | .submit _ => [.awaitingSignature]
  | .resultUnknown => [.submitted]
  | .sponsor => [.awaitingSignature]
  | .proceed => [.awaitingSignature, .submitted, .confirming, .unknown]
  | .cancel => [.preparing, .awaitingSignature]
  | .expire => [.preparing, .awaitingSignature]
  | .closeUnaccepted => [.unknown]
  | .query => [.submitted, .unknown, .confirming]
  | .settle _ => [.submitted, .unknown, .confirming, .confirmed, .reverted]
  | .reorganized => [.submitted, .confirming, .confirmed, .reverted, .unknown]

/-- The patch, at the time `at'`. -/
def Change.patch (at' : Nat) : Change → OperationPatch
  | .submit userOperationHash =>
    { state := some .submitted
      userOperationHash := some (some userOperationHash)
      providerOperationId := some (some userOperationHash)
      updatedAt := some at' }
  | .resultUnknown =>
    { state := some .unknown, reason := some (some "provider_result_unknown"), updatedAt := some at' }
  | .sponsor => { sponsorshipAttempted := some true, updatedAt := some at' }
  | .proceed => { sponsorshipAttempted := some true, updatedAt := some at' }
  | .cancel =>
    { state := some .cancelled, reason := some (some "user_cancelled_before_submission"), updatedAt := some at' }
  | .expire =>
    { state := some .cancelled, reason := some (some "admission_expired_without_submission"), updatedAt := some at' }
  | .closeUnaccepted =>
    { state := some .cancelled, reason := some (some "provider_unaccepted_after_expiry"), updatedAt := some at' }
  | .query => { updatedAt := some at' }
  | .settle s =>
    { state := some s.state
      finality := some s.finality
      transactionHash := some (some s.transactionHash)
      blockNumber := some (some s.blockNumber)
      blockHash := some (some s.blockHash)
      actualGasCost := some (some s.actualGasCost)
      gasSettledAt := s.gasSettledAt
      reason := some s.reason
      updatedAt := some at' }
  | .reorganized =>
    { state := some .unknown
      finality := some .pending
      reason := some (some "receipt_missing_or_reorganized")
      transactionHash := some none
      blockHash := some none
      blockNumber := some none
      actualGasCost := some none
      updatedAt := some at' }

/-- The operation after a change. -/
def Change.next (c : Change) (at' : Nat) (old : Operation) : Operation := applyOperationPatch old (c.patch at')

/-! ## The table -/

/-- The rows of `app_operations`. -/
abbrev Rows := List StoredOperation

def Rows.find (rows : Rows) (id : Nat) : Option StoredOperation := rows.find? fun r => r.operation.id = id

def Rows.set (rows : Rows) (id : Nat) (o : Operation) : Rows :=
  rows.map fun r => if r.operation.id = id then { r with operation := o } else r

/-- What the service throws, by its code. -/
inductive AppErr
  | operationNotFound
  | accountNotFound
  | controllerNotLinked
  | operationHashMismatch
  | sponsorshipDisabled
  | rpcMethodNotAllowed
  | selfFundedPaymasterForbidden
  | entryPointMismatch
  | userOperationMismatch
  | gasCostExceedsLimit
  | invalidGasEstimate
  /-- A request that a schema rejects. -/
  | invalidRequest
  | tradingSessionPaymasterMismatch
  | operationAlreadySubmitted (id : Nat)
  | operationAdmissionExpired
  | providerHashMismatch
  | operationResultUnknown (id : Nat)
  | receiptHashMismatch
  | chainQueryUnavailable
  | userOperationEventMissing
  | idempotencyConflict
  | tradingSessionUnavailable
  | tradingSessionBudgetExceeded
  | operationPreparationChanged
  | depositInProgress (operationId : Option Nat)
  | depositNotFound
  | depositAlreadyRegistered (operationId : Nat)
  | depositAuthorizationExpired
  | depositAuthorizationMismatch
  /-- Any other check that does not pass. -/
  | refused
  /-- The database, the bundler, the paymaster or the chain does not answer, or answers with an error. -/
  | unavailable
deriving DecidableEq

/-- `transition`: whether the row was changed, and the row afterwards. -/
def transition (id : Nat) (c : Change) (at' : Nat) (rows : Rows) : Except AppErr (Rows × Bool × StoredOperation) :=
  match rows.find id with
  | none => .error .operationNotFound
  | some old =>
    if old.operation.state ∈ c.source then
      .ok (rows.set id (c.next at' old.operation), true, { old with operation := c.next at' old.operation })
    else .ok (rows, false, old)

/-! ## What a change does -/

/-- Two records of one admission. -/
structure SameAdmission (x y : Operation) : Prop where
  id : y.id = x.id
  deploymentId : y.deploymentId = x.deploymentId
  accountId : y.accountId = x.accountId
  account : y.account = x.account
  intent : y.intent = x.intent
  signingMode : y.signingMode = x.signingMode
  sessionId : y.sessionId = x.sessionId
  nonce : y.nonce = x.nonce
  callData : y.callData = x.callData
  expiresAt : y.expiresAt = x.expiresAt
  maxGasCost : y.maxGasCost = x.maxGasCost
  lane : y.lane = x.lane
  gasPayment : y.gasPayment = x.gasPayment

theorem SameAdmission.refl (x : Operation) : SameAdmission x x :=
  ⟨rfl, rfl, rfl, rfl, rfl, rfl, rfl, rfl, rfl, rfl, rfl, rfl, rfl⟩

theorem SameAdmission.trans {x y z : Operation} (h : SameAdmission x y) (h' : SameAdmission y z) :
    SameAdmission x z where
  id := h'.id.trans h.id
  deploymentId := h'.deploymentId.trans h.deploymentId
  accountId := h'.accountId.trans h.accountId
  account := h'.account.trans h.account
  intent := h'.intent.trans h.intent
  signingMode := h'.signingMode.trans h.signingMode
  sessionId := h'.sessionId.trans h.sessionId
  nonce := h'.nonce.trans h.nonce
  callData := h'.callData.trans h.callData
  expiresAt := h'.expiresAt.trans h.expiresAt
  maxGasCost := h'.maxGasCost.trans h.maxGasCost
  lane := h'.lane.trans h.lane
  gasPayment := h'.gasPayment.trans h.gasPayment

section

variable {c : Change} {at' : Nat} {o : Operation}

/-- Whether a change certifies that no sponsorship was granted. -/
def Releases (c : Change) (at' : Nat) (o : Operation) : Prop :=
  ((c.patch at').over o).state = .cancelled ∧ o.sponsorshipAttempted = some false ∧
    ((c.patch at').over o).userOperationHash = none ∧ ((c.patch at').over o).providerOperationId = none ∧
    ((c.patch at').over o).transactionHash = none

theorem next_of_releases (h : Releases c at' o) : c.next at' o =
    { (c.patch at').over o with
      gasReleasedAt := some (((c.patch at').over o).gasReleasedAt.getD ((c.patch at').over o).updatedAt) } := if_pos h

theorem next_of_not_releases (h : ¬Releases c at' o) : c.next at' o = (c.patch at').over o := if_neg h

/-- A change sets the properties of its patch; only the release may be set besides. -/
theorem next_eq (c : Change) (at' : Nat) (o : Operation) :
    c.next at' o = { (c.patch at').over o with gasReleasedAt := (c.next at' o).gasReleasedAt } := by
  by_cases h : Releases c at' o
  · rw [next_of_releases h]
  · rw [next_of_not_releases h]

theorem next_admission (c : Change) (at' : Nat) (o : Operation) : SameAdmission o (c.next at' o) := by
  rw [next_eq]
  exact ⟨rfl, rfl, rfl, rfl, rfl, rfl, rfl, rfl, rfl, rfl, rfl, rfl, rfl⟩

theorem next_state : (c.next at' o).state = ((c.patch at').state).getD o.state := by
  rw [next_eq]
  rfl

theorem next_userOperationHash :
    (c.next at' o).userOperationHash = ((c.patch at').userOperationHash).getD o.userOperationHash := by
  rw [next_eq]
  rfl

theorem next_providerOperationId :
    (c.next at' o).providerOperationId = ((c.patch at').providerOperationId).getD o.providerOperationId := by
  rw [next_eq]
  rfl

theorem next_transactionHash :
    (c.next at' o).transactionHash = ((c.patch at').transactionHash).getD o.transactionHash := by
  rw [next_eq]
  rfl

theorem next_finality : (c.next at' o).finality = ((c.patch at').finality).getD o.finality := by
  rw [next_eq]
  rfl

theorem next_blockNumber : (c.next at' o).blockNumber = ((c.patch at').blockNumber).getD o.blockNumber := by
  rw [next_eq]
  rfl

theorem next_blockHash : (c.next at' o).blockHash = ((c.patch at').blockHash).getD o.blockHash := by
  rw [next_eq]
  rfl

theorem next_actualGasCost : (c.next at' o).actualGasCost = ((c.patch at').actualGasCost).getD o.actualGasCost := by
  rw [next_eq]
  rfl

theorem next_sponsorshipAttempted :
    (c.next at' o).sponsorshipAttempted = ((c.patch at').sponsorshipAttempted <|> o.sponsorshipAttempted) := by
  rw [next_eq]
  rfl

end

/-! ## What a transition does to the rows -/

section

variable {rows rows' : Rows} {id : Nat} {c : Change} {at' : Nat} {b : Bool} {r x : StoredOperation} {o : Operation}

theorem mem_of_find (h : rows.find id = some r) : r ∈ rows ∧ r.operation.id = id := by
  have hp := List.find?_some h
  exact ⟨List.mem_of_find?_eq_some h, of_decide_eq_true hp⟩

/-- The primary key. -/
def Rows.Keyed (rows : Rows) : Prop := (rows.map fun r => r.operation.id).Nodup

theorem Rows.Keyed.eq (h : rows.Keyed) (hr : r ∈ rows) (hx : x ∈ rows) (he : r.operation.id = x.operation.id) : r = x :=
  List.inj_on_of_nodup_map h hr hx he

theorem Rows.Keyed.find (h : rows.Keyed) (hr : r ∈ rows) : rows.find r.operation.id = some r := by
  have hs : (rows.find r.operation.id).isSome = true := List.find?_isSome.mpr ⟨r, hr, decide_eq_true rfl⟩
  obtain ⟨x, hx⟩ := Option.isSome_iff_exists.mp hs
  obtain ⟨hm, hi⟩ := mem_of_find hx
  rw [hx, h.eq hm hr hi]

theorem find_set (hr : rows.find id = some r) (hid : o.id = id) :
    (rows.set id o).find id = some { r with operation := o } := by
  unfold Rows.find Rows.set at *
  induction rows with
  | nil => cases hr
  | cons x rest ih =>
    by_cases hx : x.operation.id = id
    · rw [List.find?_cons_of_pos (by simpa using hx)] at hr
      obtain rfl := Option.some.inj hr
      rw [List.map_cons, if_pos hx, List.find?_cons_of_pos (by simpa using hid)]
    · rw [List.find?_cons_of_neg (by simpa using hx)] at hr
      rw [List.map_cons, if_neg hx, List.find?_cons_of_neg (by simpa using hx)]
      exact ih hr

theorem find_set_other {id' : Nat} (hne : id' ≠ id) (hid : o.id = id) : (rows.set id o).find id' = rows.find id' := by
  unfold Rows.find Rows.set
  induction rows with
  | nil => rfl
  | cons x rest ih =>
    rw [List.map_cons]
    by_cases hx : x.operation.id = id
    · have h₁ : ¬(o.id = id') := fun he => hne (he.symm.trans hid)
      have h₂ : ¬(x.operation.id = id') := fun he => hne (he.symm.trans hx)
      rw [if_pos hx, List.find?_cons_of_neg (by simpa using h₁), List.find?_cons_of_neg (by simpa using h₂), ih]
    · rw [if_neg hx, List.find?_cons, List.find?_cons, ih]

theorem keyed_set (h : rows.Keyed) (hid : o.id = id) : (rows.set id o).Keyed := by
  have hmap : (rows.set id o).map (fun r => r.operation.id) = rows.map fun r => r.operation.id := by
    unfold Rows.set
    rw [List.map_map]
    apply List.map_congr_left
    intro x _
    by_cases hx : x.operation.id = id
    · simp only [Function.comp_apply, if_pos hx]
      exact hid.trans hx.symm
    · simp only [Function.comp_apply, if_neg hx]
  rw [Rows.Keyed, hmap]
  exact h

theorem mem_set (h : x ∈ rows.set id o) : (∃ r ∈ rows, r.operation.id = id ∧ x = { r with operation := o }) ∨
    x ∈ rows ∧ x.operation.id ≠ id := by
  obtain ⟨r, hr, rfl⟩ := List.mem_map.mp h
  by_cases hi : r.operation.id = id
  · rw [if_pos hi]
    exact .inl ⟨r, hr, hi, rfl⟩
  · rw [if_neg hi]
    exact .inr ⟨hr, hi⟩

/-- **What a transition does.** It changes a row in one of the states of the change, or nothing. -/
theorem transition_ok (h : transition id c at' rows = .ok (rows', b, r)) :
    ∃ old, rows.find id = some old ∧
      ((b = true ∧ old.operation.state ∈ c.source ∧ rows' = rows.set id (c.next at' old.operation) ∧
          r = { old with operation := c.next at' old.operation }) ∨
        (b = false ∧ old.operation.state ∉ c.source ∧ rows' = rows ∧ r = old)) := by
  unfold transition at h
  cases hf : rows.find id with
  | none =>
    rw [hf] at h
    cases h
  | some old =>
    rw [hf] at h
    simp only at h
    refine ⟨old, rfl, ?_⟩
    split at h
    · rename_i hs
      obtain ⟨rfl, rfl, rfl⟩ : _ ∧ _ ∧ _ := by simpa using h
      exact .inl ⟨rfl, hs, rfl, rfl⟩
    · rename_i hs
      obtain ⟨rfl, rfl, rfl⟩ : _ ∧ _ ∧ _ := by simpa using h
      exact .inr ⟨rfl, hs, rfl, rfl⟩

end

end Cpredict.Operations
