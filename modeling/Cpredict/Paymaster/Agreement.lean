import Mathlib
import Cpredict.Paymaster.Sponsorship
import Cpredict.Paymaster.Budgets

/-!
# The service and the paymaster agree

The service packs eight fields and signs seventeen words; the contract reads the fields at literal offsets and
hashes the words again. Both layouts are one list (`sponsorFields`, `signedWords`), so that the contract finds what
was signed (`Created.parsed`) under the digest that was signed (`Created.sponsorshipHash_eq`) and accepts it
(`Created.accepted`). In the other direction the digest fixes the words and the words fix the operation: what the
contract accepts under a signature is the operation that it was issued for (`Created.binds`).

Hashing is the Keccak function of both sides; a digest binds as long as the strings hashed for two operations do not
collide (`Apart`), and a signature as long as it recovers the signer for one digest only.
-/

namespace Cpredict

namespace Paymaster

open Outcome Abi Eip712

/-! ## One message, hashed twice -/

/-- The string in `SPONSORSHIP_TYPEHASH`. -/
def SPONSORSHIP_TYPE : String :=
  "Sponsorship(address sender,uint256 nonce,bytes32 initCodeHash,bytes32 callDataHash,bytes32 accountGasLimits,uint256 preVerificationGas,bytes32 gasFees,uint128 paymasterVerificationGasLimit,uint128 paymasterPostOpGasLimit,uint48 validAfter,uint48 validUntil,uint256 maxCost,uint32 policyVersion,uint256 chainId,address entryPoint,address paymaster)"

/-- The type of the domain in `EIP712`. -/
def DOMAIN_TYPE : String := "EIP712Domain(string name,string version,uint256 chainId,address verifyingContract)"

section

variable (C : Crypto)

/-- The words of the domain separator of the contract `this`. -/
def domainWords (chainid : Nat) (this : Address) : List Nat :=
  [C.keccak256 (utf8 DOMAIN_TYPE), C.keccak256 (utf8 "Cpredict Sponsorship Paymaster"), C.keccak256 (utf8 "1"), chainid,
    this.word.val]

/-- The words of a sponsorship. -/
def signedWords (chainid : Nat) (entryPoint this : Address) (userOp : PackedUserOperation) (a : AuthorizationFields) :
    List Nat :=
  [C.keccak256 (utf8 SPONSORSHIP_TYPE), userOp.sender.word.val, userOp.nonce, C.keccak256 userOp.initCode,
    C.keccak256 userOp.callData, userOp.accountGasLimits, userOp.preVerificationGas, userOp.gasFees,
    a.paymasterVerificationGasLimit, a.paymasterPostOpGasLimit, a.validAfter, a.validUntil, a.maxCost,
      a.policyVersion, chainid,
    entryPoint.word.val, this.word.val]

/-- The digest of a sponsorship. -/
def signedDigest (chainid : Nat) (entryPoint this : Address) (userOp : PackedUserOperation)
    (a : AuthorizationFields) : Bytes32 :=
  digest C.keccak256 (C.keccak256 (words (domainWords C chainid this)))
    (C.keccak256 (words (signedWords C chainid entryPoint this userOp a)))

/-- The strings that are hashed for a sponsorship. -/
def hashed (chainid : Nat) (entryPoint this : Address) (userOp : PackedUserOperation) (a : AuthorizationFields) :
    List Bytes :=
  [preimage (C.keccak256 (words (domainWords C chainid this)))
      (C.keccak256 (words (signedWords C chainid entryPoint this userOp a))),
    words (domainWords C chainid this), words (signedWords C chainid entryPoint this userOp a)] ++
    [userOp.initCode, userOp.callData]

end

/-- What the libraries document: hashes are words, the constant of the contract is the hash of its type, and typed
data is hashed after EIP-712 by the contract's library and by the service's. -/
structure Standard (C : Crypto) (D : Setup) (hashTypedData : TypedData → Option Bytes32) : Prop where
  keccak_lt : ∀ b, C.keccak256 b < 2 ^ 256
  typehash : D.SPONSORSHIP_TYPEHASH = C.keccak256 (utf8 SPONSORSHIP_TYPE)
  contract : ∀ chainid structHash,
    C.hashTypedData chainid structHash = digest C.keccak256 (C.keccak256 (words (domainWords C chainid D.this)))
      structHash
  service : ∀ t, hashTypedData t = Eip712.hash C.keccak256 t

/-- The operation as the EntryPoint passes it to the paymaster. -/
def PackedUserOperationInput.packed (op : PackedUserOperationInput) (paymasterAndData : Bytes) :
    PackedUserOperation where
  sender := op.sender
  nonce := op.nonce.toNat
  initCode := op.initCode
  callData := op.callData
  accountGasLimits := ofBytes op.accountGasLimits
  preVerificationGas := op.preVerificationGas.toNat
  gasFees := ofBytes op.gasFees
  paymasterAndData := paymasterAndData

/-- The terms that the service signs. -/
def signedTerms (config : SponsorshipConfig) (maxCost validAfter validUntil : Int) : AuthorizationFields where
  paymasterVerificationGasLimit := config.verificationGasLimit.toNat
  paymasterPostOpGasLimit := config.postOpGasLimit.toNat
  validAfter := validAfter.toNat
  validUntil := validUntil.toNat
  maxCost := maxCost.toNat
  policyVersion := config.policyVersion.toNat

/-- The values of a user operation are words. -/
structure PackedUserOperation.Words (userOp : PackedUserOperation) : Prop where
  nonce_lt : userOp.nonce < 2 ^ 256
  accountGasLimits_lt : userOp.accountGasLimits < 2 ^ 256
  preVerificationGas_lt : userOp.preVerificationGas < 2 ^ 256
  gasFees_lt : userOp.gasFees < 2 ^ 256

section

variable {C : Crypto} {D : Setup} {hashTypedData : TypedData → Option Bytes32} {config : SponsorshipConfig}
  {op : PackedUserOperationInput} {maxCost validAfter validUntil : Int}

theorem address_lt (a : Address) : a.word.val < 2 ^ 256 := a.word.isLt.trans (by norm_num)

theorem sponsorshipHash_eq (hS : Standard C D hashTypedData) (b : Block) (userOp : PackedUserOperation)
    (a : AuthorizationFields) :
    sponsorshipHash C D b userOp a = signedDigest C b.chainid D.entryPoint D.this userOp a := by
  unfold sponsorshipHash
  rw [hS.contract, hS.typehash]
  rfl

theorem encodeType_sponsorship : encodeType "Sponsorship" sponsorshipTypes = SPONSORSHIP_TYPE := by decide +kernel

theorem encodeType_domain : encodeType "EIP712Domain" domainFields = DOMAIN_TYPE := by decide +kernel

theorem domainTypes_sponsorship (config : SponsorshipConfig) :
    domainTypes (sponsorshipDomain config) = domainFields := by
  simp [domainTypes, domainFields, sponsorshipDomain, List.lookup]

/-- The values of the message fit their types. -/
structure Fits (op : PackedUserOperationInput) (validAfter validUntil : Int) : Prop where
  nonce : 0 ≤ op.nonce ∧ op.nonce < 2 ^ 256
  accountGasLimits : op.accountGasLimits.length = 32
  preVerificationGas : 0 ≤ op.preVerificationGas ∧ op.preVerificationGas < 2 ^ 256
  gasFees : op.gasFees.length = 32
  validAfter : 0 ≤ validAfter ∧ validAfter < 2 ^ 48
  validUntil : 0 ≤ validUntil ∧ validUntil < 2 ^ 48

theorem encodeData_message {k : Bytes → Bytes32} {ms : List Nat}
    (h : encodeData k sponsorshipTypes (sponsorshipMessage k config op maxCost validAfter validUntil) = some ms) :
    Fits op validAfter validUntil ∧
      [op.sender.word.val, op.nonce.toNat, ofBytes (word (k op.initCode)), ofBytes (word (k op.callData)),
        ofBytes op.accountGasLimits,
        op.preVerificationGas.toNat, ofBytes op.gasFees, config.verificationGasLimit.toNat, config.postOpGasLimit.toNat,
        validAfter.toNat, validUntil.toNat, maxCost.toNat, config.policyVersion.toNat, config.chainId.toNat,
        config.entryPoint.word.val, config.paymaster.word.val] = ms := by
  simp [encodeData, sponsorshipTypes, sponsorshipMessage, List.lookup, encodeField, Option.bind_eq_some_iff] at h
  obtain ⟨⟨hnonce, hgas, hpre, hfees, -, -, hafter, huntil, -⟩, h⟩ := h
  exact ⟨⟨hnonce, hgas, hpre, hfees, hafter, huntil⟩, h⟩

/-- Typed data that has a digest has values that fit. -/
theorem hash_fits {k : Bytes → Bytes32} {d : Bytes32}
    (h : Eip712.hash k (sponsorshipData k config op maxCost validAfter validUntil) = some d) :
    Fits op validAfter validUntil := by
  unfold Eip712.hash hashStruct at h
  simp only [Option.bind_eq_bind, Option.bind_eq_some_iff, Option.map_eq_some_iff] at h
  obtain ⟨-, -, -, ⟨ms, hms, -⟩, -⟩ := h
  exact (encodeData_message hms).1

/-- The digest of typed data is the one of the contract. -/
theorem hash_sponsorshipData (hk : ∀ b, C.keccak256 b < 2 ^ 256) {d : Bytes32}
    (h : Eip712.hash C.keccak256 (sponsorshipData C.keccak256 config op maxCost validAfter validUntil) = some d)
    (pd : Bytes) :
    (0 ≤ config.chainId ∧ config.chainId < 2 ^ 256) ∧ (op.packed pd).Words ∧
      d = signedDigest C config.chainId.toNat config.entryPoint config.paymaster (op.packed pd)
        (signedTerms config maxCost validAfter validUntil) := by
  unfold Eip712.hash hashStruct at h
  simp only [Option.bind_eq_bind, Option.bind_eq_some_iff, Option.map_eq_some_iff] at h
  obtain ⟨-, ⟨ds, hds, rfl⟩, -, ⟨ms, hms, rfl⟩, h⟩ := h
  cases h
  have hdt : domainTypes (sponsorshipData C.keccak256 config op maxCost validAfter validUntil).domain = domainFields :=
    domainTypes_sponsorship config
  rw [hdt] at hds ⊢
  simp [encodeData, domainFields, sponsorshipDomain, sponsorshipData, List.lookup, encodeField,
    Option.bind_eq_some_iff] at hds
  obtain ⟨hchain, rfl⟩ := hds
  obtain ⟨hfits, rfl⟩ := encodeData_message hms
  rw [ofBytes_word (hk _), ofBytes_word (hk _), encodeType_domain]
  refine ⟨hchain, ⟨?_, ?_, ?_, ?_⟩, ?_⟩
  · exact (Int.toNat_lt hfits.nonce.1).mpr (by exact_mod_cast hfits.nonce.2)
  · have hlt := ofBytes_lt op.accountGasLimits
    rw [hfits.accountGasLimits] at hlt
    exact hlt.trans_eq (by norm_num)
  · exact (Int.toNat_lt hfits.preVerificationGas.1).mpr (by exact_mod_cast hfits.preVerificationGas.2)
  · have hlt := ofBytes_lt op.gasFees
    rw [hfits.gasFees] at hlt
    exact hlt.trans_eq (by norm_num)
  · have htype : encodeType (sponsorshipData C.keccak256 config op maxCost validAfter validUntil).primaryType
        (sponsorshipData C.keccak256 config op maxCost validAfter validUntil).types = SPONSORSHIP_TYPE :=
          encodeType_sponsorship
    rw [htype]
    rfl

end

/-! ## The layout -/

/-- The fields before the signature, with their widths. -/
def sponsorFields (paymaster : Address) (a : AuthorizationFields) : List (Nat × Nat) :=
  [(20, paymaster.word.val), (16, a.paymasterVerificationGasLimit), (16, a.paymasterPostOpGasLimit), (6, a.validAfter),
    (6, a.validUntil), (32, a.maxCost), (4, a.policyVersion)]

/-- The signature in the data. -/
def signatureIn (paymasterAndData : Bytes) : Bytes := ((paymasterAndData.drop PAYMASTER_DATA_OFFSET).drop 48).take 65

/-- The terms in the data, as the contract reads them. -/
def termsIn (paymasterAndData : Bytes) : AuthorizationFields :=
  authorizationOf
    (numberAt paymasterAndData PAYMASTER_VERIFICATION_GAS_OFFSET PAYMASTER_POST_OP_GAS_OFFSET,
      numberAt paymasterAndData PAYMASTER_POST_OP_GAS_OFFSET PAYMASTER_DATA_OFFSET)
    (paymasterAndData.drop PAYMASTER_DATA_OFFSET)

theorem numberAt_lt (data : Bytes) {start stop : Nat} (h : stop - start ≤ 32) : numberAt data start stop < 2 ^ 256 := by
  have hlt := ofBytes_lt ((data.drop start).take (stop - start))
  have hlen : ((data.drop start).take (stop - start)).length ≤ 32 := by
    rw [List.length_take]
    exact (Nat.min_le_left _ _).trans h
  calc numberAt data start stop < 256 ^ ((data.drop start).take (stop - start)).length := hlt
    _ ≤ 256 ^ 32 := Nat.pow_le_pow_right (by norm_num) hlen
    _ = 2 ^ 256 := by norm_num

theorem domainWords_lt {C : Crypto} (hk : ∀ b, C.keccak256 b < 2 ^ 256) {chainid : Nat} (hid : chainid < 2 ^ 256)
    (this : Address) :
    ∀ n ∈ domainWords C chainid this, n < 2 ^ 256 := by
  simp only [domainWords, List.forall_mem_cons, List.not_mem_nil, false_implies, implies_true, and_true]
  exact ⟨hk _, hk _, hk _, hid, address_lt this⟩

/-- What is signed of an operation and of the terms in some data is made of words. -/
theorem signedWords_lt {C : Crypto} (hk : ∀ b, C.keccak256 b < 2 ^ 256) {chainid : Nat} (hid : chainid < 2 ^ 256)
    (entryPoint this : Address) {userOp : PackedUserOperation} (hop : userOp.Words) (pd : Bytes) :
    ∀ n ∈ signedWords C chainid entryPoint this userOp (termsIn pd), n < 2 ^ 256 := by
  simp only [signedWords, List.forall_mem_cons, List.not_mem_nil, false_implies, implies_true, and_true]
  exact ⟨hk _, address_lt _, hop.nonce_lt, hk _, hk _, hop.accountGasLimits_lt, hop.preVerificationGas_lt,
    hop.gasFees_lt,
    numberAt_lt _ (by decide), numberAt_lt _ (by decide), numberAt_lt _ (by decide), numberAt_lt _ (by decide),
    numberAt_lt _ (by decide), numberAt_lt _ (by decide), hid, address_lt _, address_lt _⟩

/-- Data of the right length holds the paymaster and the terms that the contract reads. -/
theorem reads_iff {pd : Bytes} (hlen : pd.length = PAYMASTER_DATA_OFFSET + SPONSOR_DATA_LENGTH) {paymaster : Address}
    {a : AuthorizationFields} :
    Reads (sponsorFields paymaster a) pd ↔
      numberAt pd 0 PAYMASTER_VERIFICATION_GAS_OFFSET = paymaster.word.val ∧ termsIn pd = a := by
  cases a with
  | mk v g va vu mc pv =>
    simp [Reads, sponsorFields, numberAt, termsIn, authorizationOf, PAYMASTER_VERIFICATION_GAS_OFFSET,
      PAYMASTER_POST_OP_GAS_OFFSET,
      PAYMASTER_DATA_OFFSET, SPONSOR_DATA_LENGTH, hlen]

/-- Data of the right length is the paymaster, the terms and the signature. -/
theorem eq_packed_of_terms {pd : Bytes} (hlen : pd.length = PAYMASTER_DATA_OFFSET + SPONSOR_DATA_LENGTH)
    {paymaster : Address}
    (hpay : numberAt pd 0 PAYMASTER_VERIFICATION_GAS_OFFSET = paymaster.word.val) :
    pd = Abi.packed (sponsorFields paymaster (termsIn pd)) ++ signatureIn pd := by
  have hreads := (reads_iff hlen).mpr ⟨hpay, rfl⟩
  have hrest : signatureIn pd = pd.drop 100 := by
    unfold signatureIn
    rw [List.drop_drop]
    apply List.take_of_length_le
    rw [List.length_drop, hlen]
    decide
  rw [hrest]
  exact hreads.eq_packed

/-! ## What the service creates -/

/-- The bounds that the service checks in its configuration. -/
structure ValidConfig (config : SponsorshipConfig) : Prop where
  verificationGasLimit : MIN_PAYMASTER_VERIFICATION_GAS_LIMIT ≤ config.verificationGasLimit ∧
    config.verificationGasLimit ≤ MAX_PAYMASTER_VERIFICATION_GAS_LIMIT
  postOpGasLimit : MIN_PAYMASTER_POST_OP_GAS_LIMIT ≤ config.postOpGasLimit ∧
    config.postOpGasLimit ≤ MAX_PAYMASTER_POST_OP_GAS_LIMIT
  validitySeconds : 60 ≤ config.validitySeconds
  policyVersion : 0 < config.policyVersion ∧ config.policyVersion < 2 ^ 32

theorem validateSponsorshipConfig_ok {config : SponsorshipConfig} (h : validateSponsorshipConfig config = .ok ()) :
    ValidConfig config := by
  unfold validateSponsorshipConfig at h
  simp only [bind_eq_ok, revertIf_eq_ok, not_or, Int.not_lt, not_not] at h
  obtain ⟨-, hv, -, hp, -, ht, hpv⟩ := h
  exact ⟨hv, hp, ht.2.1, by omega⟩

/-- A sponsorship that the service has created: the digest that it signed, the signature, and the data. -/
structure Created (C : Crypto) (hashTypedData : TypedData → Option Bytes32)
    (signDigest : Bytes32 → Except SponsorshipFailure Bytes)
    (config : SponsorshipConfig) (op : PackedUserOperationInput) (maxCost : Int) (s : Sponsorship) (digest : Bytes32)
    (signature : Bytes) : Prop where
  digest_eq : hashTypedData (sponsorshipData C.keccak256 config op maxCost s.validAfter s.validUntil) = some digest
  signed : signDigest digest = .ok signature
  signature_length : signature.length = 65
  config_valid : ValidConfig config
  times : 0 ≤ s.validAfter ∧ s.validAfter < s.validUntil ∧ s.validUntil < 2 ^ 48
  cost : 0 < maxCost ∧ maxCost < 2 ^ 256
  data : s.paymasterAndData = Abi.packed
    (sponsorFields config.paymaster (signedTerms config maxCost s.validAfter s.validUntil)) ++
    signature

theorem toHex_eq_ok {value : Int} {size : Nat} {b : Bytes} :
    toHex value size = .ok b ↔ (0 ≤ value ∧ value < 256 ^ size) ∧ beBytes size value.toNat = b := by
  unfold toHex
  split <;> simp_all

theorem elim_eq_ok {α : Type} {o : Option α} {e : SponsorshipFailure} {a : α} : o.elim (.error e) .ok = Except.ok a ↔
    o = some a := by
  cases o <;> simp

theorem createSponsorship_created {C : Crypto} {hashTypedData : TypedData → Option Bytes32}
    {signDigest : Bytes32 → Except SponsorshipFailure Bytes} {config : SponsorshipConfig}
    {op : PackedUserOperationInput}
    {maxCost nowSeconds : Int} {s : Sponsorship}
    (h : createSponsorship C.keccak256 hashTypedData signDigest config op maxCost nowSeconds = .ok s) :
    ∃ digest signature, Created C hashTypedData signDigest config op maxCost s digest signature := by
  unfold createSponsorship prepareSponsorship packSponsorship at h
  simp only [bind_eq_ok, revertIf_eq_ok, toHex_eq_ok, elim_eq_ok] at h
  obtain ⟨_, ⟨⟨⟩, hconfig, -, hcost, -, hnow, digest, hd, hx⟩, signature, hs, -, hlen, _, ⟨-, rfl⟩, _, ⟨-, rfl⟩,
    _, ⟨ha, rfl⟩, _,
    ⟨hu, rfl⟩, _, ⟨hm, rfl⟩, _, ⟨-, rfl⟩, h⟩ := h
  have hx' := Except.ok.inj hx
  subst hx'
  have hsame := Except.ok.inj h
  subst hsame
  have hvalid := validateSponsorshipConfig_ok hconfig
  have hlong := hvalid.validitySeconds
  refine ⟨digest, signature, hd, hs, not_not.mp hlen, hvalid, ⟨ha.1, ?_, ?_⟩, ⟨by omega, ?_⟩, ?_⟩
  · dsimp only
    omega
  · exact hu.2.trans_eq (by norm_num)
  · exact hm.2.trans_eq (by norm_num)
  · simp [Abi.packed, sponsorFields, signedTerms]

/-- The budgets of the contract have room for a cost. -/
structure Room (p : Storage) (b : Block) (sender : Address) (cost : Nat) : Prop where
  operation : cost ≤ p.maxCostPerOperation
  user : p.spentUserByDay b.day sender + (p.reservedUserByDay b.day sender + cost) ≤ p.maxCostPerUserPerDay
  global : p.spentGlobalByDay b.day + (p.reservedGlobalByDay b.day + cost) ≤ p.maxCostGlobalPerDay
  user_lt : p.maxCostPerUserPerDay < 2 ^ 256
  global_lt : p.maxCostGlobalPerDay < 2 ^ 256

/-- A budget with room takes a reservation. -/
theorem reserveSponsorship_room {b : Block} {p : Storage} {sender : Address} {cost : Nat} (hash : Bytes32)
    (version : Nat)
    (h : Room p b sender cost) :
    ∃ p', reserveSponsorship b p hash sender cost version = .ok (p', encodeContext sender b.day cost) := by
  have hu := h.user
  have hul := h.user_lt
  have hg := h.global
  have hgl := h.global_lt
  have huser : checkedAdd 256 (p.reservedUserByDay b.day sender) cost = .ok (p.reservedUserByDay b.day sender + cost) :=
    checkedAdd_eq_ok.mpr ⟨by omega, rfl⟩
  have hglobal : checkedAdd 256 (p.reservedGlobalByDay b.day) cost = .ok (p.reservedGlobalByDay b.day + cost) :=
    checkedAdd_eq_ok.mpr ⟨by omega, rfl⟩
  have hbudgets :
    ¬(p.maxCostPerUserPerDay < saturatingAdd (p.spentUserByDay b.day sender) (p.reservedUserByDay b.day sender + cost) ∨
      p.maxCostGlobalPerDay < saturatingAdd (p.spentGlobalByDay b.day) (p.reservedGlobalByDay b.day + cost)) := by
    rw [not_or, Nat.not_lt, Nat.not_lt]
    exact ⟨(Nat.min_le_left _ _).trans hu, (Nat.min_le_left _ _).trans hg⟩
  unfold reserveSponsorship
  dsimp only
  rw [huser, ok_bind, hglobal, ok_bind, revertIf_neg _ hbudgets, ok_bind]
  exact ⟨_, rfl⟩

/-- A validation with a valid signature has read the paymaster and a signature that recovers the signer. -/
theorem validateAuthorization_recovered {C : Crypto} {D : Setup} {b : Block} {p : Storage}
    {userOp : PackedUserOperation} {maxCost : Nat}
    {a : AuthorizationValidation} (h : validateAuthorization C D b p userOp maxCost = .ok a)
    (hv : a.signatureValid = true) :
    userOp.paymasterAndData.length = PAYMASTER_DATA_OFFSET + SPONSOR_DATA_LENGTH ∧
      numberAt userOp.paymasterAndData 0 PAYMASTER_VERIFICATION_GAS_OFFSET = D.this.word.val ∧
      C.tryRecover (sponsorshipHash C D b userOp (termsIn userOp.paymasterAndData))
        (signatureIn userOp.paymasterAndData) =
        some p.sponsorSigner := by
  unfold validateAuthorization validatedPaymasterGasLimits at h
  simp only [bind_eq_ok, revertIf_eq_ok] at h
  obtain ⟨-, hlen, -, hpay, _, ⟨-, -, hgas⟩, -, -, -, -, -, -, -, -, h⟩ := h
  cases hgas
  have hsame := Except.ok.inj h
  subst hsame
  exact ⟨not_not.mp hlen, not_not.mp hpay, of_decide_eq_true hv⟩

section

variable {C : Crypto} {D : Setup} {hashTypedData : TypedData → Option Bytes32}
  {signDigest : Bytes32 → Except SponsorshipFailure Bytes} {config : SponsorshipConfig} {op : PackedUserOperationInput}
  {maxCost : Int} {s : Sponsorship} {digest : Bytes32} {signature : Bytes}

namespace Created

variable (h : Created C hashTypedData signDigest config op maxCost s digest signature)

include h

theorem fits : ∀ f ∈ sponsorFields config.paymaster (signedTerms config maxCost s.validAfter s.validUntil),
    f.2 < 256 ^ f.1 := by
  obtain ⟨⟨hv₁, hv₂⟩, ⟨hp₁, hp₂⟩, -, hpv⟩ := h.config_valid
  obtain ⟨ha, hau, hu⟩ := h.times
  obtain ⟨hc, hcl⟩ := h.cost
  have hpay : config.paymaster.word.val < 2 ^ 160 := config.paymaster.word.isLt
  have hvmax : config.verificationGasLimit ≤ 500000 := hv₂
  have hpmax : config.postOpGasLimit ≤ 300000 := hp₂
  simp only [sponsorFields, signedTerms, List.forall_mem_cons, List.not_mem_nil, false_implies, implies_true, and_true]
  norm_num at hu hcl hpv ⊢
  omega

theorem length : s.paymasterAndData.length = PAYMASTER_DATA_OFFSET + SPONSOR_DATA_LENGTH := by
  rw [h.data]
  simp [Abi.packed, sponsorFields, h.signature_length, PAYMASTER_DATA_OFFSET, SPONSOR_DATA_LENGTH]

/-- The contract reads the paymaster and the terms that were signed. -/
theorem parsed : numberAt s.paymasterAndData 0 PAYMASTER_VERIFICATION_GAS_OFFSET = config.paymaster.word.val ∧
    termsIn s.paymasterAndData = signedTerms config maxCost s.validAfter s.validUntil := by
  rw [← reads_iff h.length, h.data]
  exact reads_packed h.fits signature

/-- The contract reads the signature. -/
theorem signatureIn_eq : signatureIn s.paymasterAndData = signature := by
  have hwidth :
    (Abi.packed (sponsorFields config.paymaster (signedTerms config maxCost s.validAfter s.validUntil))).length =
      PAYMASTER_DATA_OFFSET + 48 := by
    simp [Abi.packed, sponsorFields, PAYMASTER_DATA_OFFSET]
  unfold signatureIn
  rw [List.drop_drop, h.data, List.drop_left' hwidth, List.take_of_length_le h.signature_length.le]

theorem gasLimits : validatedPaymasterGasLimits s.paymasterAndData =
    .ok (config.verificationGasLimit.toNat, config.postOpGasLimit.toNat) := by
  obtain ⟨⟨hv₁, hv₂⟩, ⟨hp₁, hp₂⟩, -, -⟩ := h.config_valid
  have hterms := h.parsed.2
  have hver : numberAt s.paymasterAndData PAYMASTER_VERIFICATION_GAS_OFFSET PAYMASTER_POST_OP_GAS_OFFSET =
      config.verificationGasLimit.toNat := congrArg AuthorizationFields.paymasterVerificationGasLimit hterms
  have hpost : numberAt s.paymasterAndData PAYMASTER_POST_OP_GAS_OFFSET PAYMASTER_DATA_OFFSET =
    config.postOpGasLimit.toNat :=
    congrArg AuthorizationFields.paymasterPostOpGasLimit hterms
  unfold validatedPaymasterGasLimits validatePaymasterGasLimits
  dsimp only
  rw [hver, hpost, revertIf_neg _ (by omega), ok_bind, revertIf_neg _ (by omega), ok_bind]

/-- The digest that was signed is the one of the contract that the configuration names. -/
theorem signedDigest_eq (hS : Standard C D hashTypedData) :
    (0 ≤ config.chainId ∧ config.chainId < 2 ^ 256) ∧ (op.packed s.paymasterAndData).Words ∧
      digest = signedDigest C config.chainId.toNat config.entryPoint config.paymaster (op.packed s.paymasterAndData)
        (termsIn s.paymasterAndData) := by
  have hd := h.digest_eq
  rw [hS.service] at hd
  rw [h.parsed.2]
  exact hash_sponsorshipData hS.keccak_lt hd s.paymasterAndData

theorem sponsorshipHash_eq (hS : Standard C D hashTypedData) {b : Block} (hchain : (b.chainid : Int) = config.chainId)
    (hentry : D.entryPoint = config.entryPoint) (hthis : D.this = config.paymaster) :
    sponsorshipHash C D b (op.packed s.paymasterAndData) (termsIn s.paymasterAndData) = digest := by
  have hid : b.chainid = config.chainId.toNat := by omega
  rw [Paymaster.sponsorshipHash_eq hS, (h.signedDigest_eq hS).2.2, hid, hentry, hthis]

section

variable {b : Block} {p : Storage} {prefund : Nat}

theorem authorized (hS : Standard C D hashTypedData) (hchain : (b.chainid : Int) = config.chainId)
    (hentry : D.entryPoint = config.entryPoint) (hthis : D.this = config.paymaster)
    (hsigner : C.tryRecover digest signature = some p.sponsorSigner)
    (hversion : (p.policyVersion : Int) = config.policyVersion)
    (hfresh : p.consumedSponsorship digest = false) (hcost : (prefund : Int) ≤ maxCost)
    (hmax : prefund ≤ p.maxCostPerOperation) :
    validateAuthorization C D b p (op.packed s.paymasterAndData) prefund =
      .ok ⟨digest, p.policyVersion, packValidationData false s.validUntil.toNat s.validAfter.toNat, true⟩ := by
  obtain ⟨ha, hau, -⟩ := h.times
  have hlen : ¬(op.packed s.paymasterAndData).paymasterAndData.length ≠ PAYMASTER_DATA_OFFSET + SPONSOR_DATA_LENGTH :=
    not_not.mpr h.length
  have hpay : ¬numberAt (op.packed s.paymasterAndData).paymasterAndData 0
    PAYMASTER_VERIFICATION_GAS_OFFSET ≠ D.this.word.val := by
    rw [hthis]
    exact not_not.mpr h.parsed.1
  have hgas : validatedPaymasterGasLimits (op.packed s.paymasterAndData).paymasterAndData = _ := h.gasLimits
  have hterms : authorizationOf (config.verificationGasLimit.toNat, config.postOpGasLimit.toNat)
      ((op.packed s.paymasterAndData).paymasterAndData.drop PAYMASTER_DATA_OFFSET) =
        signedTerms config maxCost s.validAfter s.validUntil := by
    have hp := h.parsed.2
    have hv := congrArg AuthorizationFields.paymasterVerificationGasLimit hp
    have hg := congrArg AuthorizationFields.paymasterPostOpGasLimit hp
    rw [← hp]
    simp only [termsIn, authorizationOf, signedTerms] at hv hg ⊢
    rw [hv, hg]
    rfl
  have hsig : (((op.packed s.paymasterAndData).paymasterAndData.drop PAYMASTER_DATA_OFFSET).drop 48).take
    65 = signature :=
    h.signatureIn_eq
  have hhash : sponsorshipHash C D b (op.packed s.paymasterAndData)
    (signedTerms config maxCost s.validAfter s.validUntil) = digest := by
    rw [← h.parsed.2]
    exact h.sponsorshipHash_eq hS hchain hentry hthis
  have hvalid : isSponsorSignatureValid C p digest signature = true := by
    unfold isSponsorSignatureValid
    rw [hsigner, decide_eq_true_eq]
  have hbounds : ¬((signedTerms config maxCost s.validAfter s.validUntil).validUntil = 0 ∨
      (signedTerms config maxCost s.validAfter s.validUntil).validUntil ≤
        (signedTerms config maxCost s.validAfter s.validUntil).validAfter) := by
    simp only [signedTerms]
    omega
  have hsame : (signedTerms config maxCost s.validAfter s.validUntil).policyVersion = p.policyVersion := by
    simp only [signedTerms]
    omega
  have hafford : ¬((signedTerms config maxCost s.validAfter s.validUntil).maxCost < prefund ∨
    p.maxCostPerOperation < prefund) := by
    simp only [signedTerms]
    omega
  have hunused : ¬p.consumedSponsorship digest = true := by simp [hfresh]
  unfold validateAuthorization
  rw [revertIf_neg _ hlen, ok_bind, revertIf_neg _ hpay, ok_bind, hgas, ok_bind]
  dsimp only
  rw [hterms, revertIf_neg _ hbounds, ok_bind, revertIf_neg _ (not_not.mpr hsame), ok_bind, revertIf_neg _ hafford,
    ok_bind, hhash,
    revertIf_neg _ hunused, ok_bind, hsig, hvalid, hsame]
  rfl

/-- The contract accepts the operation for every cost up to the signed one that its budgets have room for. -/
theorem accepted (hS : Standard C D hashTypedData) (hchain : (b.chainid : Int) = config.chainId)
    (hentry : D.entryPoint = config.entryPoint) (hthis : D.this = config.paymaster)
    (hsigner : C.tryRecover digest signature = some p.sponsorSigner)
    (hversion : (p.policyVersion : Int) = config.policyVersion)
    (hpaused : b.paused = false) (hfresh : p.consumedSponsorship digest = false) (hcost : (prefund : Int) ≤ maxCost)
    (hroom : Room p b op.sender prefund) :
    ∃ p', validatePaymasterUserOp C D b p D.entryPoint (op.packed s.paymasterAndData) prefund =
      .ok (p', encodeContext op.sender b.day prefund, packValidationData false s.validUntil.toNat
        s.validAfter.toNat) := by
  have hrun : ¬b.paused = true := by simp [hpaused]
  have ha := h.authorized hS hchain hentry hthis hsigner hversion hfresh hcost hroom.operation
  obtain ⟨p', hp'⟩ := reserveSponsorship_room digest p.policyVersion hroom
  have hsender : (op.packed s.paymasterAndData).sender = op.sender := rfl
  refine ⟨p', ?_⟩
  unfold validatePaymasterUserOp
  rw [revertIf_neg _ (not_not.mpr rfl), ok_bind, revertIf_neg _ hrun, ok_bind, ha, ok_bind]
  dsimp only
  rw [if_neg (by simp), hsender, hp', ok_bind]

/-- The digest of an operation under the signature is the one that was signed, and the words under it are the same. -/
theorem binds (hS : Standard C D hashTypedData) {caller : Address} {userOp : PackedUserOperation} {p' : Storage}
    {context : Bytes}
    {validationData : Nat} (hwords : userOp.Words) (hid : b.chainid < 2 ^ 256)
    (hok : validatePaymasterUserOp C D b p caller userOp prefund = .ok (p', context, validationData))
    (hctx : context ≠ [])
    (hsig : signatureIn userOp.paymasterAndData = signature)
    (hforge : ∀ d, C.tryRecover d signature = some p.sponsorSigner → d = digest)
    (hapart : Apart C.keccak256
      (hashed C config.chainId.toNat config.entryPoint config.paymaster (op.packed s.paymasterAndData)
        (termsIn s.paymasterAndData))
      (hashed C b.chainid D.entryPoint D.this userOp (termsIn userOp.paymasterAndData))) :
    userOp = op.packed s.paymasterAndData ∧ (b.chainid : Int) = config.chainId ∧ D.entryPoint = config.entryPoint ∧
      D.this = config.paymaster := by
  obtain ⟨hchain, hown, hdigest⟩ := h.signedDigest_eq hS
  obtain ⟨a, ha, ⟨-, hnil, -⟩ | ⟨hvalid, -, -⟩⟩ := validatePaymasterUserOp_cases hok
  · exact absurd hnil hctx
  obtain ⟨hlen, hpay, hrec⟩ := validateAuthorization_recovered ha hvalid
  rw [hsig] at hrec
  have hsame := hforge _ hrec
  rw [Paymaster.sponsorshipHash_eq hS, hdigest] at hsame
  unfold hashed at hapart
  have hthree := hapart.mono (List.subset_append_left _ _) (List.subset_append_left _ _)
  obtain ⟨hdomain, hmessage⟩ := digest_inj hS.keccak_lt
    (domainWords_lt hS.keccak_lt (by omega) config.paymaster)
    (signedWords_lt hS.keccak_lt (by omega) config.entryPoint config.paymaster hown s.paymasterAndData)
    (domainWords_lt hS.keccak_lt hid D.this)
    (signedWords_lt hS.keccak_lt hid D.entryPoint D.this hwords userOp.paymasterAndData) hthree hsame.symm
  simp only [signedWords, List.cons.injEq, true_and, and_true] at hmessage
  obtain ⟨hsender, hnonce, hinit, hcall, hgas, hpre, hfees, hv, hg, hva, hvu, hmc, hpv, hchainid, hentry, hthis⟩ :=
    hmessage
  have hterms : termsIn userOp.paymasterAndData = termsIn s.paymasterAndData := by
    cases hu : termsIn userOp.paymasterAndData
    cases ht : termsIn s.paymasterAndData
    simp_all
  have hcontract : D.this = config.paymaster := congrArg Address.mk (Fin.ext hthis.symm)
  have hdata : userOp.paymasterAndData = s.paymasterAndData := by
    rw [hcontract] at hpay
    rw [eq_packed_of_terms hlen hpay, eq_packed_of_terms h.length h.parsed.1, hsig, h.signatureIn_eq, hterms]
  have hcode := hapart op.initCode (by simp [PackedUserOperationInput.packed]) userOp.initCode (by simp) hinit
  have hcalldata := hapart op.callData (by simp [PackedUserOperationInput.packed]) userOp.callData (by simp) hcall
  refine ⟨?_, by omega, congrArg Address.mk (Fin.ext hentry.symm), hcontract⟩
  cases userOp with
  | mk sender nonce initCode callData accountGasLimits preVerificationGas gasFees paymasterAndData =>
    have haccount : op.sender = sender := congrArg Address.mk (Fin.ext hsender)
    dsimp only at hcode hcalldata hdata hnonce hgas hpre hfees
    subst hcode hcalldata hdata haccount hnonce hgas hpre hfees
    rfl

end

end Created

end

/-! ## The agreement -/

/-- What the service and the contract agree on, for a sponsorship of an operation: the contract reads what was
signed, its digest is the signed one, it accepts the operation for every cost up to the signed one that its limits
allow, and what it accepts under this signature is this operation. -/
structure Agreement (C : Crypto) (D : Setup) (config : SponsorshipConfig) (op : PackedUserOperationInput)
    (maxCost : Int)
    (s : Sponsorship) (digest : Bytes32) (signature : Bytes) : Prop where
  length : s.paymasterAndData.length = PAYMASTER_DATA_OFFSET + SPONSOR_DATA_LENGTH
  paymaster : numberAt s.paymasterAndData 0 PAYMASTER_VERIFICATION_GAS_OFFSET = config.paymaster.word.val
  gasLimits : validatedPaymasterGasLimits s.paymasterAndData =
    .ok ((termsIn s.paymasterAndData).paymasterVerificationGasLimit,
      (termsIn s.paymasterAndData).paymasterPostOpGasLimit)
  verificationGasLimit : ((termsIn s.paymasterAndData).paymasterVerificationGasLimit : Int) =
    config.verificationGasLimit
  postOpGasLimit : ((termsIn s.paymasterAndData).paymasterPostOpGasLimit : Int) = config.postOpGasLimit
  validAfter : ((termsIn s.paymasterAndData).validAfter : Int) = s.validAfter
  validUntil : ((termsIn s.paymasterAndData).validUntil : Int) = s.validUntil
  cost : ((termsIn s.paymasterAndData).maxCost : Int) = maxCost
  policyVersion : ((termsIn s.paymasterAndData).policyVersion : Int) = config.policyVersion
  signed : signatureIn s.paymasterAndData = signature
  hash : ∀ b : Block, (b.chainid : Int) = config.chainId → D.entryPoint = config.entryPoint →
    D.this = config.paymaster →
    sponsorshipHash C D b (op.packed s.paymasterAndData) (termsIn s.paymasterAndData) = digest
  accepted : ∀ (b : Block) (p : Storage) (prefund : Nat), (b.chainid : Int) = config.chainId →
    D.entryPoint = config.entryPoint →
    D.this = config.paymaster → C.tryRecover digest signature = some p.sponsorSigner →
    (p.policyVersion : Int) = config.policyVersion → b.paused = false → p.consumedSponsorship digest = false →
    (prefund : Int) ≤ maxCost → Room p b op.sender prefund →
    ∃ p', validatePaymasterUserOp C D b p D.entryPoint (op.packed s.paymasterAndData) prefund =
      .ok (p', encodeContext op.sender b.day prefund, packValidationData false s.validUntil.toNat s.validAfter.toNat)
  binds : ∀ (b : Block) (p p' : Storage) (caller : Address) (userOp : PackedUserOperation) (prefund :
    Nat) (context : Bytes)
    (validationData : Nat), userOp.Words → b.chainid < 2 ^ 256 →
    validatePaymasterUserOp C D b p caller userOp prefund = .ok (p', context, validationData) → context ≠ [] →
    signatureIn userOp.paymasterAndData = signature →
    (∀ d, C.tryRecover d signature = some p.sponsorSigner → d = digest) →
    Apart C.keccak256
      (hashed C config.chainId.toNat config.entryPoint config.paymaster (op.packed s.paymasterAndData)
        (termsIn s.paymasterAndData))
      (hashed C b.chainid D.entryPoint D.this userOp (termsIn userOp.paymasterAndData)) →
    userOp = op.packed s.paymasterAndData ∧ (b.chainid : Int) = config.chainId ∧ D.entryPoint = config.entryPoint ∧
      D.this = config.paymaster

theorem sponsorship_agrees {C : Crypto} {D : Setup} {hashTypedData : TypedData → Option Bytes32}
    {signDigest : Bytes32 → Except SponsorshipFailure Bytes} {config : SponsorshipConfig}
    {op : PackedUserOperationInput}
    {maxCost nowSeconds : Int} {s : Sponsorship} (hS : Standard C D hashTypedData)
    (h : createSponsorship C.keccak256 hashTypedData signDigest config op maxCost nowSeconds = .ok s) :
    ∃ digest signature, hashTypedData (sponsorshipData C.keccak256 config op maxCost s.validAfter s.validUntil) =
      some digest ∧
      signDigest digest = .ok signature ∧ Agreement C D config op maxCost s digest signature := by
  obtain ⟨digest, signature, hc⟩ := createSponsorship_created h
  refine ⟨digest, signature, hc.digest_eq, hc.signed, ?_⟩
  obtain ⟨⟨hv, -⟩, ⟨hg, -⟩, -, hpv, -⟩ := hc.config_valid
  obtain ⟨ha, hau, -⟩ := hc.times
  obtain ⟨hpos, -⟩ := hc.cost
  have hterms := hc.parsed.2
  have hv₀ : 0 ≤ config.verificationGasLimit := (Int.natCast_nonneg _).trans hv
  have hg₀ : 0 ≤ config.postOpGasLimit := (Int.natCast_nonneg _).trans hg
  exact {
    length := hc.length
    paymaster := hc.parsed.1
    gasLimits := by
      rw [hterms]
      exact hc.gasLimits
    verificationGasLimit := by
      rw [hterms]
      exact Int.toNat_of_nonneg hv₀
    postOpGasLimit := by
      rw [hterms]
      exact Int.toNat_of_nonneg hg₀
    validAfter := by
      rw [hterms]
      exact Int.toNat_of_nonneg ha
    validUntil := by
      rw [hterms]
      exact Int.toNat_of_nonneg (ha.trans hau.le)
    cost := by
      rw [hterms]
      exact Int.toNat_of_nonneg hpos.le
    policyVersion := by
      rw [hterms]
      exact Int.toNat_of_nonneg hpv.le
    signed := hc.signatureIn_eq
    hash := fun _ hchain hentry hthis => hc.sponsorshipHash_eq hS hchain hentry hthis
    accepted := fun _ _ _ hchain hentry hthis hsigner hversion hpaused hfresh hcost hroom =>
      hc.accepted hS hchain hentry hthis hsigner hversion hpaused hfresh hcost hroom
    binds := fun _ _ _ _ _ _ _ _ hwords hid hok hctx hsig hforge hapart =>
      hc.binds hS hwords hid hok hctx hsig hforge hapart }

/-! A sample: the hashes of the strings in it, and a signature of its digest by the key `1`. -/

def sampleConfig : SponsorshipConfig := ⟨421614, addr 2, addr 3, 150000, 100000, 600, 1⟩

def sampleInput : PackedUserOperationInput := ⟨addr 9, 5, [], [0xe9, 0xae, 0x5c, 0x53], word 7, 50000, word 11⟩

/-- `keccak256` of the strings that are hashed here. -/
def sampleHashes : List (Bytes × Nat) :=
  [(utf8 DOMAIN_TYPE, 0x8b73c3c69bb8fe3d512ecc4cf759cc79239f7b179b0ffacaa9a75d522b39400f),
    (utf8 "Cpredict Sponsorship Paymaster", 0x82374cfba2c7bd895a115577a45cc7046a0734a21f094c899eba2d3b54e682d0),
    (utf8 "1", 0xc89efdaa54c0f20c7adf612882df0950f5a951637e0307cdcb4c672f298b8bc6),
    (utf8 SPONSORSHIP_TYPE, 0x39070a28be1963bb762731190b49ad07506b153b33189df78b2ca3683f46cc68),
    ([], 0xc5d2460186f7233c927e7db2dcc703c0e500b653ca82273b7bfad8045d85a470),
    ([0xe9, 0xae, 0x5c, 0x53], 0xfa93554464bc7070c1600a5a7df61c8fb99a57eb72f1887be6e10b9f0b8e1dab),
    (words [0x8b73c3c69bb8fe3d512ecc4cf759cc79239f7b179b0ffacaa9a75d522b39400f,
        0x82374cfba2c7bd895a115577a45cc7046a0734a21f094c899eba2d3b54e682d0,
        0xc89efdaa54c0f20c7adf612882df0950f5a951637e0307cdcb4c672f298b8bc6, 421614, 3],
      0x16ad46627c9edce00b37c89d6ac871b917718485c5d0fb6cb2642b8c69b3b0c6),
    (words [0x39070a28be1963bb762731190b49ad07506b153b33189df78b2ca3683f46cc68, 9, 5,
        0xc5d2460186f7233c927e7db2dcc703c0e500b653ca82273b7bfad8045d85a470,
        0xfa93554464bc7070c1600a5a7df61c8fb99a57eb72f1887be6e10b9f0b8e1dab, 7, 50000, 11, 150000, 100000, 999970,
          1000600, 1000, 1,
        421614, 2, 3], 0x5344d3b8192ca8e85a3374aeb1bb97a379a41c96ec524b1a34dd363eabea8418),
    (preimage 0x16ad46627c9edce00b37c89d6ac871b917718485c5d0fb6cb2642b8c69b3b0c6
        0x5344d3b8192ca8e85a3374aeb1bb97a379a41c96ec524b1a34dd363eabea8418,
      0x5b79a6fd83f8bb52909d67aa26c301fbab9c5df2d89eadc97cd170eddb3de07c)]

def sampleKeccak (b : Bytes) : Nat := (sampleHashes.lookup b).getD 0 % 2 ^ 256

def sampleSigner : Address := addr 0x7e5f4552091a69125d5dfcb7b8c2659029395bdf

def sampleSignature : Bytes :=
  beBytes 32 0xf01d6b9018ab421dd410404cb869072065522bf85734008f105cf385a023a80f ++
    (beBytes 32 0x6249b552f534393c164e14fe3cf2f937602451ebc40c7227326e3bd1a8df7e0a ++ [27])

def sampleDeployment : Setup := ⟨addr 1, addr 2, addr 3, sampleKeccak (utf8 SPONSORSHIP_TYPE)⟩

/-- The hashes, and a recovery that knows the one signature. -/
def sampleLibrary : Crypto where
  keccak256 := sampleKeccak
  hashTypedData chainid structHash := digest sampleKeccak (sampleKeccak (words
    [sampleKeccak (utf8 DOMAIN_TYPE), sampleKeccak (utf8 "Cpredict Sponsorship Paymaster"), sampleKeccak (utf8 "1"),
      chainid, 3])) structHash
  tryRecover hash signature :=
    if hash = 0x5b79a6fd83f8bb52909d67aa26c301fbab9c5df2d89eadc97cd170eddb3de07c ∧
      signature = sampleSignature then some sampleSigner
    else none

theorem sampleLibrary_standard : Standard sampleLibrary sampleDeployment (Eip712.hash sampleKeccak) where
  keccak_lt _ := Nat.mod_lt _ (by norm_num)
  typehash := rfl
  contract _ _ := rfl
  service _ := rfl

def sampleSponsorship : Sponsorship where
  paymasterAndData := Abi.packed [(20, 3), (16, 150000), (16, 100000), (6, 999970), (6, 1000600), (32, 1000),
    (4, 1)] ++ sampleSignature
  validAfter := 999970
  validUntil := 1000600

def sampleStorage : Storage where
  sponsorSigner := sampleSigner
  policyVersion := 1
  maxCostPerOperation := 2000
  maxCostPerUserPerDay := 5000
  maxCostGlobalPerDay := 9000
  reservedGlobalByDay := fun _ => 0
  spentGlobalByDay := fun _ => 0
  reservedUserByDay := fun _ _ => 0
  spentUserByDay := fun _ _ => 0
  consumedSponsorship := fun _ => false
  log := []

def sampleMoment : Block := ⟨1000000, 421614, false, by decide⟩

/-- The sample is accepted for a part of its cost. -/
theorem sponsorship_agrees_sample :
    ∃ p', validatePaymasterUserOp sampleLibrary sampleDeployment sampleMoment sampleStorage (addr 2)
      (sampleInput.packed sampleSponsorship.paymasterAndData) 900 =
        .ok (p', encodeContext (addr 9) 11 900, packValidationData false 1000600 999970) := by
  have hcreated : createSponsorship sampleKeccak (Eip712.hash sampleKeccak) (fun _ => .ok sampleSignature)
    sampleConfig sampleInput 1000
      1000000 = .ok sampleSponsorship := by decide +kernel
  obtain ⟨d, signature, hd, hs, h⟩ := sponsorship_agrees (C := sampleLibrary) sampleLibrary_standard hcreated
  cases hs
  have hdigest : Eip712.hash sampleKeccak (sponsorshipData sampleLibrary.keccak256 sampleConfig sampleInput 1000
      sampleSponsorship.validAfter sampleSponsorship.validUntil) =
        some 0x5b79a6fd83f8bb52909d67aa26c301fbab9c5df2d89eadc97cd170eddb3de07c := by decide +kernel
  rw [hdigest] at hd
  have hsame := Option.some.inj hd
  subst hsame
  have hroom : Room sampleStorage sampleMoment sampleInput.sender 900 :=
    ⟨by decide, by decide, by decide, by decide, by decide⟩
  have hsigner : sampleLibrary.tryRecover 0x5b79a6fd83f8bb52909d67aa26c301fbab9c5df2d89eadc97cd170eddb3de07c
    sampleSignature =
      some sampleStorage.sponsorSigner := by decide +kernel
  obtain ⟨p', hp'⟩ := h.accepted sampleMoment sampleStorage 900 rfl rfl rfl hsigner rfl rfl rfl (by decide) hroom
  have hday : sampleMoment.day = 11 := by decide
  rw [hday] at hp'
  exact ⟨p', hp'⟩

end Paymaster

end Cpredict
