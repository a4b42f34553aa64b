import Cpredict.Paymaster.State
import Cpredict.Lib.TypedData

/-!
# The sponsorship service

`createSponsorship` of the paymaster service signs the digest of a user operation together with the terms of its
sponsorship, and packs the terms and the signature into the data that SponsorshipPaymasterV1 takes apart. The hash
functions of the client library are parameters.

The `bigint` and `number` of the source are integers here; its checks refuse a number that is not a safe integer.
Its hexadecimal strings are bytes.
-/

namespace Cpredict

namespace Paymaster

open Outcome Abi Eip712

inductive SponsorshipFailure
  | RangeError (message : String)
  | Error (message : String)
  /-- A value that the client library does not encode. -/
  | NotEncodable
deriving DecidableEq

/-- What the service reads of a user operation. -/
structure PackedUserOperationInput where
  sender : Address
  nonce : Int
  initCode : Bytes
  callData : Bytes
  accountGasLimits : Bytes
  preVerificationGas : Int
  gasFees : Bytes
deriving DecidableEq

structure SponsorshipConfig where
  /-- The type of the source has one value, 421614. -/
  chainId : Int
  entryPoint : Address
  paymaster : Address
  verificationGasLimit : Int
  postOpGasLimit : Int
  validitySeconds : Int
  policyVersion : Int

structure Sponsorship where
  paymasterAndData : Bytes
  validAfter : Int
  validUntil : Int
deriving DecidableEq

/-- `Number.isSafeInteger` -/
def isSafeInteger (n : Int) : Prop := -(2 ^ 53) < n ∧ n < 2 ^ 53

instance (n : Int) : Decidable (isSafeInteger n) := inferInstanceAs (Decidable (_ ∧ _))

def validateSponsorshipConfig (config : SponsorshipConfig) : Except SponsorshipFailure Unit := do
  revertIf (config.verificationGasLimit < MIN_PAYMASTER_VERIFICATION_GAS_LIMIT ∨
    MAX_PAYMASTER_VERIFICATION_GAS_LIMIT < config.verificationGasLimit)
    (.RangeError "paymaster verification gas limit is outside contract bounds")
  revertIf (config.postOpGasLimit < MIN_PAYMASTER_POST_OP_GAS_LIMIT ∨
    MAX_PAYMASTER_POST_OP_GAS_LIMIT < config.postOpGasLimit)
    (.RangeError "paymaster postOp gas limit is outside contract bounds")
  revertIf (¬isSafeInteger config.validitySeconds ∨ config.validitySeconds < 60 ∨ 900 < config.validitySeconds)
    (.RangeError "sponsorship validity must be between 60 and 900 seconds")
  revertIf (¬isSafeInteger config.policyVersion ∨ config.policyVersion < 1 ∨ 0xffffffff < config.policyVersion)
    (.RangeError "invalid sponsorship policy version")

/-! ## The message -/

/-- The type `Sponsorship`. -/
def sponsorshipTypes : Fields :=
  [("sender", .address), ("nonce", .uint 256), ("initCodeHash", .bytes32), ("callDataHash", .bytes32),
    ("accountGasLimits", .bytes32),
    ("preVerificationGas", .uint 256), ("gasFees", .bytes32), ("paymasterVerificationGasLimit", .uint 128),
    ("paymasterPostOpGasLimit", .uint 128), ("validAfter", .uint 48), ("validUntil", .uint 48), ("maxCost", .uint 256),
    ("policyVersion", .uint 32), ("chainId", .uint 256), ("entryPoint", .address), ("paymaster", .address)]

def sponsorshipDomain (config : SponsorshipConfig) : Message :=
  [("name", .text "Cpredict Sponsorship Paymaster"), ("version", .text "1"), ("chainId", .number config.chainId),
    ("verifyingContract", .address config.paymaster.word)]

section

variable (keccak256 : Bytes → Bytes32) (config : SponsorshipConfig) (userOperation : PackedUserOperationInput)
  (maxCost validAfter validUntil : Int)

def sponsorshipMessage : Message :=
  [("sender", .address userOperation.sender.word), ("nonce", .number userOperation.nonce),
    ("initCodeHash", .bytes (word (keccak256 userOperation.initCode))),
    ("callDataHash", .bytes (word (keccak256 userOperation.callData))),
    ("accountGasLimits", .bytes userOperation.accountGasLimits),
    ("preVerificationGas", .number userOperation.preVerificationGas), ("gasFees", .bytes userOperation.gasFees),
    ("paymasterVerificationGasLimit", .number config.verificationGasLimit),
    ("paymasterPostOpGasLimit", .number config.postOpGasLimit), ("validAfter", .number validAfter),
    ("validUntil", .number validUntil), ("maxCost", .number maxCost), ("policyVersion", .number config.policyVersion),
    ("chainId", .number config.chainId), ("entryPoint", .address config.entryPoint.word),
    ("paymaster", .address config.paymaster.word)]

/-- What is signed. -/
def sponsorshipData : TypedData where
  domain := sponsorshipDomain config
  primaryType := "Sponsorship"
  types := sponsorshipTypes
  message := sponsorshipMessage keccak256 config userOperation maxCost validAfter validUntil

end

/-- `toHex(value, { size })` -/
def toHex (value : Int) (size : Nat) : Except SponsorshipFailure Bytes :=
  if 0 ≤ value ∧ value < 256 ^ size then .ok (beBytes size value.toNat) else .error .NotEncodable

/-- `createSponsorship` up to the signature: the digest, `validAfter` and `validUntil`. -/
def prepareSponsorship (keccak256 : Bytes → Bytes32) (hashTypedData : TypedData → Option Bytes32)
    (config : SponsorshipConfig)
    (userOperation : PackedUserOperationInput) (maxCost nowSeconds : Int) :
    Except SponsorshipFailure (Bytes32 × Int × Int) := do
  validateSponsorshipConfig config
  revertIf (maxCost ≤ 0 ∨ 2 ^ 256 - 1 < maxCost) (.RangeError "invalid maximum cost")
  revertIf (¬isSafeInteger nowSeconds ∨ nowSeconds < 30) (.RangeError "invalid current time")
  let validAfter := max 0 (nowSeconds - 30)
  let validUntil := nowSeconds + config.validitySeconds
  let digest ← (hashTypedData (sponsorshipData keccak256 config userOperation maxCost validAfter validUntil)).elim
    (.error .NotEncodable) .ok
  .ok (digest, validAfter, validUntil)

/-- `createSponsorship` from the signature on. -/
def packSponsorship (config : SponsorshipConfig) (maxCost validAfter validUntil : Int) (signature : Bytes) :
    Except SponsorshipFailure Sponsorship := do
  revertIf (signature.length ≠ 65) (.Error "KMS/HSM signer returned a non-65-byte signature")
  let verificationGasLimit ← toHex config.verificationGasLimit 16
  let postOpGasLimit ← toHex config.postOpGasLimit 16
  let validAfterHex ← toHex validAfter 6
  let validUntilHex ← toHex validUntil 6
  let maxCostHex ← toHex maxCost 32
  let policyVersion ← toHex config.policyVersion 4
  let paymasterAndData := List.flatten
    [beBytes 20 config.paymaster.word.val, verificationGasLimit, postOpGasLimit, validAfterHex,
      validUntilHex, maxCostHex,
      policyVersion, signature]
  .ok ⟨paymasterAndData, validAfter, validUntil⟩

/-- `createSponsorship`, with `signDigest` for the signer. -/
def createSponsorship (keccak256 : Bytes → Bytes32) (hashTypedData : TypedData → Option Bytes32)
    (signDigest : Bytes32 → Except SponsorshipFailure Bytes) (config : SponsorshipConfig)
    (userOperation : PackedUserOperationInput)
    (maxCost nowSeconds : Int) : Except SponsorshipFailure Sponsorship := do
  let (digest, validAfter, validUntil) ← prepareSponsorship keccak256 hashTypedData config userOperation
    maxCost nowSeconds
  let signature ← signDigest digest
  packSponsorship config maxCost validAfter validUntil signature

end Paymaster

end Cpredict
