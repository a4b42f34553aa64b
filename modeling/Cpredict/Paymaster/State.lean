import Cpredict.Types
import Cpredict.Lib.Abi
import Cpredict.Lib.Balances
import Cpredict.Lib.Outcome

/-!
# SponsorshipPaymasterV1

An operation is sponsored when the sponsor has signed it and the day's budgets have room for its cost. The cost is
reserved when the EntryPoint validates the operation (`validatePaymasterUserOp`) and spent when it settles it
(`postOp`). Hashing and the recovery of a signer are parameters (`Crypto`); deposits and stake are left to the
EntryPoint.
-/

namespace Cpredict

namespace Paymaster

open Outcome Abi

inductive SponsorErr
  | Unauthorized (caller : Address)
  | ZeroAddress
  | InvalidConfiguration (field : String)
  | PauseActive (flag : Nat)
  | SponsorshipExpired
  | UnsupportedUserOperation
  | SponsorshipBudgetExceeded
  /-- A context that the ABI decoder rejects. -/
  | Malformed
  /-- Checked arithmetic. -/
  | Panic
deriving DecidableEq

def PAYMASTER_VERIFICATION_GAS_OFFSET : Nat := 20

def PAYMASTER_POST_OP_GAS_OFFSET : Nat := 36

def PAYMASTER_DATA_OFFSET : Nat := 52

def SPONSOR_DATA_LENGTH : Nat := 113

def MIN_PAYMASTER_VERIFICATION_GAS_LIMIT : Nat := 150000

def MAX_PAYMASTER_VERIFICATION_GAS_LIMIT : Nat := 500000

def MIN_PAYMASTER_POST_OP_GAS_LIMIT : Nat := 100000

def MAX_PAYMASTER_POST_OP_GAS_LIMIT : Nat := 300000

def PAUSE_PAYMASTER : Nat := 1 <<< 5

structure PackedUserOperation where
  sender : Address
  nonce : Nat
  initCode : Bytes
  callData : Bytes
  accountGasLimits : Bytes32
  preVerificationGas : Nat
  gasFees : Bytes32
  paymasterAndData : Bytes

/-- The hash functions and signature recovery that the contract calls. -/
structure Crypto where
  keccak256 : Bytes → Bytes32
  /-- `_hashTypedDataV4`, on a chain. -/
  hashTypedData : Nat → Bytes32 → Bytes32
  /-- `ECDSA.tryRecover`, where it has no error. -/
  tryRecover : Bytes32 → Bytes → Option Address

/-- What is fixed at the deployment. -/
structure Setup where
  governance : Address
  entryPoint : Address
  this : Address
  SPONSORSHIP_TYPEHASH : Bytes32

/-- What a call finds on the chain. -/
structure Block where
  timestamp : Nat
  chainid : Nat
  /-- `emergencyController.isPaused(PAUSE_PAYMASTER)` -/
  paused : Bool
  timestamp_lt : timestamp < 2 ^ 256

def Block.day (b : Block) : Nat := b.timestamp / 86400

inductive SponsorEvent
  | SponsorSignerUpdated (previousSigner newSigner : Address) (policyVersion : Nat)
  | SponsorshipBudgetsUpdated (maxCostPerOperation maxCostPerUserPerDay maxCostGlobalPerDay : Nat)
  | SponsorshipReserved (sponsorshipHash : Bytes32) (sender : Address) (day maxCost policyVersion : Nat)
  | SponsorshipSettled (sender : Address) (day mode reservedCost actualGasCost actualUserOpFeePerGas budgetCharge : Nat)
deriving DecidableEq

/-- The storage and the log. -/
structure Storage where
  sponsorSigner : Address
  policyVersion : Nat
  maxCostPerOperation : Nat
  maxCostPerUserPerDay : Nat
  maxCostGlobalPerDay : Nat
  reservedGlobalByDay : Nat → Nat
  spentGlobalByDay : Nat → Nat
  reservedUserByDay : Nat → Address → Nat
  spentUserByDay : Nat → Address → Nat
  consumedSponsorship : Bytes32 → Bool
  log : List SponsorEvent

def Storage.emit (p : Storage) (e : SponsorEvent) : Storage := { p with log := p.log ++ [e] }

/-- Addition of unsigned integers of `w` bits. -/
def checkedAdd (w a b : Nat) : Except SponsorErr Nat := if a + b < 2 ^ w then .ok (a + b) else .error .Panic

/-- `Math.saturatingAdd` -/
def saturatingAdd (a b : Nat) : Nat := min (a + b) (2 ^ 256 - 1)

structure AuthorizationFields where
  paymasterVerificationGasLimit : Nat
  paymasterPostOpGasLimit : Nat
  validAfter : Nat
  validUntil : Nat
  maxCost : Nat
  policyVersion : Nat

structure AuthorizationValidation where
  sponsorshipHash : Bytes32
  policyVersion : Nat
  validationData : Nat
  signatureValid : Bool

/-- `data[from:to]`, read as a number. -/
def numberAt (data : Bytes) (start stop : Nat) : Nat := ofBytes ((data.drop start).take (stop - start))

/-- `_validatePaymasterGasLimits` -/
def validatePaymasterGasLimits (verificationGasLimit postOpGasLimit : Nat) : Except SponsorErr Unit := do
  revertIf (verificationGasLimit < MIN_PAYMASTER_VERIFICATION_GAS_LIMIT ∨
    MAX_PAYMASTER_VERIFICATION_GAS_LIMIT < verificationGasLimit)
    (.InvalidConfiguration "paymaster.verificationGasLimit")
  revertIf (postOpGasLimit < MIN_PAYMASTER_POST_OP_GAS_LIMIT ∨ MAX_PAYMASTER_POST_OP_GAS_LIMIT < postOpGasLimit)
    (.InvalidConfiguration "paymaster.postOpGasLimit")

/-- `_validatedPaymasterGasLimits` -/
def validatedPaymasterGasLimits (paymasterAndData : Bytes) : Except SponsorErr (Nat × Nat) := do
  let verificationGasLimit := numberAt paymasterAndData PAYMASTER_VERIFICATION_GAS_OFFSET PAYMASTER_POST_OP_GAS_OFFSET
  let postOpGasLimit := numberAt paymasterAndData PAYMASTER_POST_OP_GAS_OFFSET PAYMASTER_DATA_OFFSET
  validatePaymasterGasLimits verificationGasLimit postOpGasLimit
  .ok (verificationGasLimit, postOpGasLimit)

/-- `_packValidationData` -/
def packValidationData (sigFailed : Bool) (validUntil validAfter : Nat) : Nat :=
  (if sigFailed = true then 1 else 0) ||| (validUntil <<< 160) ||| (validAfter <<< 208)

section

variable (C : Crypto) (D : Setup) (b : Block) (p : Storage)

/-- `_sponsorshipHash` -/
def sponsorshipHash (userOp : PackedUserOperation) (a : AuthorizationFields) : Bytes32 :=
  C.hashTypedData b.chainid (C.keccak256 (words
    [D.SPONSORSHIP_TYPEHASH, userOp.sender.word.val, userOp.nonce, C.keccak256 userOp.initCode,
      C.keccak256 userOp.callData, userOp.accountGasLimits, userOp.preVerificationGas, userOp.gasFees,
      a.paymasterVerificationGasLimit, a.paymasterPostOpGasLimit, a.validAfter, a.validUntil, a.maxCost,
      a.policyVersion, b.chainid, D.entryPoint.word.val, D.this.word.val]))

/-- `_isSponsorSignatureValid` -/
def isSponsorSignatureValid (hash : Bytes32) (signature : Bytes) : Bool :=
  C.tryRecover hash signature = some p.sponsorSigner

/-- The fields of the sponsor's data. -/
def authorizationOf (gasLimits : Nat × Nat) (data : Bytes) : AuthorizationFields where
  paymasterVerificationGasLimit := gasLimits.1
  paymasterPostOpGasLimit := gasLimits.2
  validAfter := numberAt data 0 6
  validUntil := numberAt data 6 12
  maxCost := numberAt data 12 44
  policyVersion := numberAt data 44 48

/-- `_validateAuthorization` -/
def validateAuthorization (userOp : PackedUserOperation) (maxCost : Nat) :
    Except SponsorErr AuthorizationValidation := do
  revertIf (userOp.paymasterAndData.length ≠ PAYMASTER_DATA_OFFSET + SPONSOR_DATA_LENGTH) .UnsupportedUserOperation
  revertIf (numberAt userOp.paymasterAndData 0 PAYMASTER_VERIFICATION_GAS_OFFSET ≠ D.this.word.val)
    .UnsupportedUserOperation
  let gasLimits ← validatedPaymasterGasLimits userOp.paymasterAndData
  let data := userOp.paymasterAndData.drop PAYMASTER_DATA_OFFSET
  let a := authorizationOf gasLimits data
  revertIf (a.validUntil = 0 ∨ a.validUntil ≤ a.validAfter) .SponsorshipExpired
  revertIf (a.policyVersion ≠ p.policyVersion) .UnsupportedUserOperation
  revertIf (a.maxCost < maxCost ∨ p.maxCostPerOperation < maxCost) .SponsorshipBudgetExceeded
  let hash := sponsorshipHash C D b userOp a
  revertIf (p.consumedSponsorship hash = true) .UnsupportedUserOperation
  let valid := isSponsorSignatureValid C p hash ((data.drop 48).take 65)
  .ok ⟨hash, a.policyVersion, packValidationData (!valid) a.validUntil a.validAfter, valid⟩

/-- `abi.encode(sender, day, maxCost)` -/
def encodeContext (sender : Address) (day cost : Nat) : Bytes := words [sender.word.val, day, cost]

/-- `abi.decode(context, (address, uint256, uint256))` -/
def decodeContext (context : Bytes) : Option (Address × Nat × Nat) := do
  let sender ← wordAt context 0
  guard (sender < 2 ^ 160)
  let day ← wordAt context 32
  let cost ← wordAt context 64
  some (addr sender, day, cost)

/-- `_reserveSponsorship` -/
def reserveSponsorship (hash : Bytes32) (sender : Address) (maxCost signedPolicyVersion : Nat) :
    Except SponsorErr (Storage × Bytes) := do
  let day := b.day
  let nextUserReserved ← checkedAdd 256 (p.reservedUserByDay day sender) maxCost
  let nextGlobalReserved ← checkedAdd 256 (p.reservedGlobalByDay day) maxCost
  revertIf (p.maxCostPerUserPerDay < saturatingAdd (p.spentUserByDay day sender) nextUserReserved ∨
    p.maxCostGlobalPerDay < saturatingAdd (p.spentGlobalByDay day) nextGlobalReserved) .SponsorshipBudgetExceeded
  let p := { p with
    consumedSponsorship := Function.update p.consumedSponsorship hash true
    reservedUserByDay := Balances.update₂ p.reservedUserByDay day sender nextUserReserved
    reservedGlobalByDay := Function.update p.reservedGlobalByDay day nextGlobalReserved }
  .ok (p.emit (.SponsorshipReserved hash sender day maxCost signedPolicyVersion), encodeContext sender day maxCost)

/-- `validatePaymasterUserOp`: the new storage, the context and the validation data. -/
def validatePaymasterUserOp (caller : Address) (userOp : PackedUserOperation) (maxCost : Nat) :
    Except SponsorErr (Storage × Bytes × Nat) := do
  revertIf (caller ≠ D.entryPoint) (.Unauthorized caller)
  revertIf (b.paused = true) (.PauseActive PAUSE_PAYMASTER)
  let authorization ← validateAuthorization C D b p userOp maxCost
  if authorization.signatureValid = false then .ok (p, [], authorization.validationData)
  else do
    let (p, context) ← reserveSponsorship b p authorization.sponsorshipHash userOp.sender maxCost
      authorization.policyVersion
    .ok (p, context, authorization.validationData)

def postOp (caller : Address) (mode : Nat) (context : Bytes) (actualGasCost actualUserOpFeePerGas : Nat) :
    Except SponsorErr Storage := do
  revertIf (caller ≠ D.entryPoint) (.Unauthorized caller)
  let (sender, day, reservedCost) ← (decodeContext context).elim (.error .Malformed) .ok
  let userReserved ← checkedSub .Panic (p.reservedUserByDay day sender) reservedCost
  let globalReserved ← checkedSub .Panic (p.reservedGlobalByDay day) reservedCost
  let userSpent ← checkedAdd 256 (p.spentUserByDay day sender) reservedCost
  let globalSpent ← checkedAdd 256 (p.spentGlobalByDay day) reservedCost
  let p := { p with
    reservedUserByDay := Balances.update₂ p.reservedUserByDay day sender userReserved
    reservedGlobalByDay := Function.update p.reservedGlobalByDay day globalReserved
    spentUserByDay := Balances.update₂ p.spentUserByDay day sender userSpent
    spentGlobalByDay := Function.update p.spentGlobalByDay day globalSpent }
  .ok (p.emit (.SponsorshipSettled sender day mode reservedCost actualGasCost actualUserOpFeePerGas reservedCost))

def setSponsorSigner (caller newSigner : Address) : Except SponsorErr Storage := do
  revertIf (caller ≠ D.governance) (.Unauthorized caller)
  revertIf (newSigner = 0) .ZeroAddress
  let policyVersion ← checkedAdd 32 p.policyVersion 1
  let previous := p.sponsorSigner
  .ok ({ p with sponsorSigner := newSigner, policyVersion := policyVersion }.emit
    (.SponsorSignerUpdated previous newSigner policyVersion))

/-- `_setBudgets` -/
def writeBudgets (maxCostPerOperation maxCostPerUserPerDay maxCostGlobalPerDay : Nat) : Except SponsorErr Storage := do
  revertIf (maxCostPerOperation = 0 ∨ maxCostPerUserPerDay < maxCostPerOperation ∨
    maxCostGlobalPerDay < maxCostPerUserPerDay) (.InvalidConfiguration "paymaster.budgets")
  .ok ({ p with
    maxCostPerOperation := maxCostPerOperation
    maxCostPerUserPerDay := maxCostPerUserPerDay
    maxCostGlobalPerDay := maxCostGlobalPerDay }.emit
      (.SponsorshipBudgetsUpdated maxCostPerOperation maxCostPerUserPerDay maxCostGlobalPerDay))

def setBudgets (caller : Address) (maxCostPerOperation maxCostPerUserPerDay maxCostGlobalPerDay : Nat) :
    Except SponsorErr Storage := do
  revertIf (caller ≠ D.governance) (.Unauthorized caller)
  writeBudgets p maxCostPerOperation maxCostPerUserPerDay maxCostGlobalPerDay

end

/-- The constructor. -/
def deploy (D : Setup) (emergencyController sponsorSigner : Address)
    (maxCostPerOperation maxCostPerUserPerDay maxCostGlobalPerDay : Nat) : Except SponsorErr Storage := do
  revertIf (D.governance = 0 ∨ emergencyController = 0 ∨ D.entryPoint = 0 ∨ sponsorSigner = 0) .ZeroAddress
  writeBudgets
    { sponsorSigner := sponsorSigner
      policyVersion := 1
      maxCostPerOperation := 0
      maxCostPerUserPerDay := 0
      maxCostGlobalPerDay := 0
      reservedGlobalByDay := fun _ => 0
      spentGlobalByDay := fun _ => 0
      reservedUserByDay := fun _ _ => 0
      spentUserByDay := fun _ _ => 0
      consumedSponsorship := fun _ => false
      log := [] }
    maxCostPerOperation maxCostPerUserPerDay maxCostGlobalPerDay

end Paymaster

end Cpredict
