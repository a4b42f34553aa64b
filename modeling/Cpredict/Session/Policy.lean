import Cpredict.Book.State
import Cpredict.Core.Accounts
import Cpredict.Lib.Abi

/-!
# TradingSessionPolicyV2

The permission policy of the Kernel and its execution hook. A batch of calls is decoded from calldata, byte by byte
(`decode`), and accepted in one of a few shapes for an amount that is read from one of its words (`check`). The policy
checks an operation from its own storage alone, the hook checks it again with what other contracts say (`Chain`).

Selectors are written out; equal hashes of calldata are taken to be equal calldata.
-/

namespace Cpredict

def Address.toNat (a : Address) : Nat := a.word.val

namespace Session

open Outcome Abi

inductive SessionErr
  | InvalidSession
  | ForbiddenCall
  | BudgetExceeded
  /-- Calldata that the ABI decoder or a slice rejects. -/
  | Malformed
  /-- Checked arithmetic. -/
  | Panic
deriving DecidableEq

structure SessionState where
  perOperation : Nat
  total : Nat
  spent : Nat
  validAfter : Nat
  validUntil : Nat
  installed : Bool
  revoked : Bool
deriving DecidableEq

def SessionState.blank : SessionState := ⟨0, 0, 0, 0, 0, false, false⟩

structure Call where
  target : Address
  value : Nat
  data : Bytes
deriving DecidableEq

/-- The contracts that the policy knows. -/
structure Policy where
  factory : Address
  marketplace : Address
  paymentToken : Address
  bondEscrow : Address
  feeVault : Address
  paymaster : Address

/-- What the hook reads of other contracts: `isMarket`, `orders` and `bondOf`. -/
structure Chain where
  isMarket : Address → Bool
  orders : Nat → Order
  bondOf : Address → Bond

/-! ## Selectors -/

/-- `execute(bytes32,bytes)` -/
def EXECUTE : Bytes := [0xe9, 0xae, 0x5c, 0x53]

/-- `executeUserOp((address,uint256,bytes,bytes,bytes32,uint256,bytes32,bytes,bytes),bytes32)` -/
def EXECUTE_USER_OP : Bytes := [0x8d, 0xd7, 0x71, 0x2f]

/-- `approve(address,uint256)` -/
def APPROVE : Bytes := [0x09, 0x5e, 0xa7, 0xb3]

/-- `setApprovalForAll(address,bool)` -/
def SHARE_APPROVE : Bytes := [0xa2, 0x2c, 0xb4, 0x65]

/-- `buy(uint256,uint256,uint256,uint256,uint64)` -/
def BUY : Bytes := [0x61, 0x1c, 0x11, 0x4d]

/-- `fillOrder(uint256,uint128,uint128,uint256,uint64)` -/
def FILL : Bytes := [0x15, 0xdc, 0xce, 0xb8]

/-- `createOrder(address,uint8,uint8,uint128,uint128,uint64,bool)` -/
def CREATE : Bytes := [0x45, 0xd6, 0x0d, 0x02]

/-- `claimFor(address)` -/
def CLAIM : Bytes := [0xdd, 0xea, 0xe0, 0x33]

/-- `settleBond(address)` -/
def SETTLE : Bytes := [0x85, 0xb4, 0x6d, 0xa4]

/-- `cancelOrder(uint256)` -/
def CANCEL_ORDER : Bytes := [0x51, 0x4f, 0xca, 0xc7]

/-- `releaseOrder(uint256)` -/
def RELEASE_ORDER : Bytes := [0xae, 0x2f, 0x75, 0x89]

/-- `claimWinningsFor(address)` -/
def CLAIM_WINNINGS : Bytes := [0xdb, 0xfc, 0xd2, 0x9c]

/-- `claimEarlyBirdFor(address)` -/
def CLAIM_EARLY_BIRD : Bytes := [0x59, 0xf6, 0x7a, 0x88]

/-- `refundFor(address)` -/
def REFUND : Bytes := [0x57, 0xab, 0xa4, 0xab]

/-- `claimTimeoutBonusFor(address)` -/
def CLAIM_TIMEOUT_BONUS : Bytes := [0xc6, 0xb4, 0x54, 0x05]

/-- `abi.encodeWithSelector` of static arguments. -/
def encodeCall (selector : Bytes) (args : List Nat) : Bytes := selector ++ words args

/-! ## Reading calldata -/

/-- `_selector` -/
def selectorOf (data : Bytes) : Except SessionErr Bytes := do
  revertIf (data.length < 4) .ForbiddenCall
  .ok (data.take 4)

/-- `_word` -/
def wordOf (data : Bytes) (index : Nat) : Except SessionErr Nat := do
  revertIf (data.length < 36 + index * 32) .ForbiddenCall
  .ok (ofBytes ((data.drop (4 + index * 32)).take 32))

/-- `_address` -/
def addressOf (data : Bytes) (index : Nat) : Except SessionErr Address := do
  let value ← wordOf data index
  revertIf (2 ^ 160 ≤ value) .ForbiddenCall
  .ok (addr value)

/-! ## Decoding a batch -/

/-- `abi.decode(.., (bytes32, bytes))` -/
def decodeExecute (b : Bytes) : Option (Nat × Bytes) := do
  guard (64 ≤ b.length)
  let mode ← wordAt b 0
  let offset ← offsetAt b 32
  let payload ← bytesAt b offset
  some (mode, payload)

/-- `abi.encodeWithSelector(EXECUTE, mode, payload)` -/
def encodeExecute (mode : Nat) (payload : Bytes) : Bytes := EXECUTE ++ (word mode ++ (word 64 ++ dynamic payload))

/-- The tuple `Call` at a position. -/
def callAt (b : Bytes) (i : Nat) : Option Call := do
  guard (i + 96 ≤ b.length)
  let target ← wordAt b i
  guard (target < 2 ^ 160)
  let value ← wordAt b (i + 32)
  let offset ← offsetAt b (i + 64)
  let data ← bytesAt b (i + offset)
  some ⟨addr target, value, data⟩

/-- The calls of an array whose head starts at `base`, with `n` of them to go from the head at `i`. -/
def callsAt (b : Bytes) (base : Nat) : Nat → Nat → Option (List Call)
  | 0, _ => some []
  | n + 1, i => do
    let offset ← offsetAt b i
    let c ← callAt b (base + offset)
    let cs ← callsAt b base n (i + 32)
    some (c :: cs)

/-- `abi.decode(.., (Call[]))` -/
def decodeCalls (b : Bytes) : Option (List Call) := do
  guard (32 ≤ b.length)
  let offset ← offsetAt b 0
  let n ← offsetAt b offset
  guard (offset + 32 + 32 * n ≤ b.length)
  callsAt b (offset + 32) n (offset + 32)

/-- The encoding of one `Call`. -/
def encodeTuple (c : Call) : Bytes := word c.target.toNat ++ (word c.value ++ (word 96 ++ dynamic c.data))

/-- The offsets of the elements of an array, the first of which is `acc`. -/
def heads : Nat → List Call → Bytes
  | _, [] => []
  | acc, c :: cs => word acc ++ heads (acc + (encodeTuple c).length) cs

/-- `abi.encode(calls)` -/
def encodeCalls (cs : List Call) : Bytes :=
  word 32 ++ (word cs.length ++ (heads (32 * cs.length) cs ++ cs.flatMap encodeTuple))

/-- The mode of a single call: `bytes32(0)`. -/
def SINGLE : Nat := 0

/-- The mode of a batch: `bytes32(uint256(1) << 248)`. -/
def BATCH : Nat := 2 ^ 248

/-- The calls of a payload in a mode. -/
def decodePayload (mode : Nat) (payload : Bytes) : Except SessionErr (List Call) :=
  if mode = SINGLE then do
    revertIf (payload.length < 52) .ForbiddenCall
    .ok [⟨addr (ofBytes (payload.take 20)), ofBytes ((payload.drop 20).take 32), payload.drop 52⟩]
  else if mode = BATCH then do
    let calls ← (decodeCalls payload).elim (.error .Malformed) .ok
    revertIf (calls.length < 2 ∨ 4 < calls.length ∨ payload ≠ encodeCalls calls) .ForbiddenCall
    .ok calls
  else .error .ForbiddenCall

/-- `_decode` -/
def decode (data : Bytes) : Except SessionErr (List Call) := do
  revertIf (data.length < 4 ∨ data.take 4 ≠ EXECUTE) .ForbiddenCall
  let (mode, payload) ← (decodeExecute (data.drop 4)).elim (.error .Malformed) .ok
  revertIf (data ≠ encodeExecute mode payload) .ForbiddenCall
  let calls ← decodePayload mode payload
  revertIf (∃ c ∈ calls, c.value ≠ 0) .ForbiddenCall
  .ok calls

/-! ## The shapes -/

section

variable (P : Policy) (X : Chain) (dynamicChecks : Bool) (account : Address)

/-- `_market` -/
def checkMarket (market : Address) : Except SessionErr Unit := revertIf (X.isMarket market = false) .ForbiddenCall

/-- `_order` -/
def checkOrder (id : Nat) (ownerOnly : Bool) : Except SessionErr (Address × Side) := do
  let o := X.orders id
  checkMarket X o.vault
  revertIf (o.active = false ∨ if ownerOnly = true then o.owner ≠ account else o.owner = account) .ForbiddenCall
  .ok (o.vault, o.side)

/-- `_bond` -/
def checkBond (a : Call) : Except SessionErr Unit := do
  revertIf (a.target ≠ P.bondEscrow ∨ a.data.length ≠ 36) .ForbiddenCall
  let selector ← selectorOf a.data
  revertIf (selector ≠ SETTLE) .ForbiddenCall
  let market ← addressOf a.data 0
  if dynamicChecks = true then do
    checkMarket X market
    revertIf ((X.bondOf market).creator ≠ account) .ForbiddenCall
  else .ok ()

/-- `_approval` -/
def checkApproval (a : Call) (spender : Address) (amount : Nat) : Except SessionErr Unit :=
  revertIf (a.target ≠ P.paymentToken ∨ a.data ≠ encodeCall APPROVE [spender.toNat, amount]) .ForbiddenCall

/-- A check that only the hook makes. -/
def whenDynamic (x : Except SessionErr Unit) : Except SessionErr Unit := if dynamicChecks = true then x else .ok ()

/-- The amount of the third of four calls. -/
def paymentAmount (c : Call) : Except SessionErr Nat := do
  let selector ← selectorOf c.data
  if selector = BUY then do
    revertIf (c.data.length ≠ 164) .ForbiddenCall
    let amount ← wordOf c.data 3
    whenDynamic dynamicChecks (checkMarket X c.target)
    .ok amount
  else if selector = FILL ∧ c.target = P.marketplace then do
    revertIf (c.data.length ≠ 164) .ForbiddenCall
    let amount ← wordOf c.data 3
    whenDynamic dynamicChecks do
      let id ← wordOf c.data 0
      let (_, side) ← checkOrder X account id false
      revertIf (side ≠ .ask) .ForbiddenCall
    .ok amount
  else if selector = CREATE ∧ c.target = P.marketplace then do
    revertIf (c.data.length ≠ 228) .ForbiddenCall
    let side ← wordOf c.data 2
    revertIf (side ≠ 0) .ForbiddenCall
    let units ← wordOf c.data 3
    let price ← wordOf c.data 4
    revertIf (2 ^ 128 - 1 < units ∨ 1000000000 < price) .ForbiddenCall
    whenDynamic dynamicChecks do
      let market ← addressOf c.data 0
      checkMarket X market
    .ok ((units * price + 999999) / 1000000)
  else .error .ForbiddenCall

/-- Four calls: a payment between approvals. -/
def checkPayment (a b c d : Call) : Except SessionErr Nat := do
  let amount ← paymentAmount P X dynamicChecks account c
  revertIf (amount = 0) .ForbiddenCall
  checkApproval P a c.target 0
  checkApproval P b c.target amount
  checkApproval P d c.target 0
  .ok amount

/-- The second of three calls. -/
def checkOffer (market : Address) (b : Call) : Except SessionErr Unit := do
  let selector ← selectorOf b.data
  if selector = CREATE then do
    revertIf (b.data.length ≠ 228) .ForbiddenCall
    let side ← wordOf b.data 2
    let vault ← addressOf b.data 0
    let units ← wordOf b.data 3
    let price ← wordOf b.data 4
    revertIf (side ≠ 1 ∨ vault ≠ market ∨ units = 0 ∨ price = 0) .ForbiddenCall
  else if selector = FILL then do
    revertIf (b.data.length ≠ 164) .ForbiddenCall
    whenDynamic dynamicChecks do
      let id ← wordOf b.data 0
      let (vault, side) ← checkOrder X account id false
      revertIf (vault ≠ market ∨ side ≠ .bid) .ForbiddenCall
  else .error .ForbiddenCall

/-- Three calls: a sale of shares between approvals. -/
def checkSale (a b c : Call) : Except SessionErr Unit := do
  revertIf (b.target ≠ P.marketplace) .ForbiddenCall
  checkOffer X dynamicChecks account a.target b
  whenDynamic dynamicChecks (checkMarket X a.target)
  revertIf (c.target ≠ a.target ∨ a.data ≠ encodeCall SHARE_APPROVE [P.marketplace.toNat, 1] ∨
    c.data ≠ encodeCall SHARE_APPROVE [P.marketplace.toNat, 0]) .ForbiddenCall

/-- Two calls: a bond is settled and claimed. -/
def checkBondClaim (a b : Call) : Except SessionErr Unit := do
  checkBond P X dynamicChecks account a
  revertIf (b.target ≠ P.bondEscrow ∨ b.data ≠ encodeCall CLAIM [account.toNat]) .ForbiddenCall

/-- One call. -/
def checkSingle (a : Call) : Except SessionErr Unit := do
  let selector ← selectorOf a.data
  if a.target = P.marketplace ∧ (selector = CANCEL_ORDER ∨ selector = RELEASE_ORDER) then do
    revertIf (a.data.length ≠ 36) .ForbiddenCall
    whenDynamic dynamicChecks do
      let id ← wordOf a.data 0
      let _ ← checkOrder X account id true
      .ok ()
  else if a.target = P.bondEscrow ∧ selector = SETTLE then checkBond P X dynamicChecks account a
  else if (a.target = P.bondEscrow ∨ a.target = P.feeVault) ∧ selector = CLAIM then
    revertIf (a.data ≠ encodeCall CLAIM [account.toNat]) .ForbiddenCall
  else do
    revertIf (a.data.length ≠ 36) .ForbiddenCall
    let owner ← addressOf a.data 0
    revertIf (owner ≠ account ∨ selector ≠ CLAIM_WINNINGS ∧ selector ≠ CLAIM_EARLY_BIRD ∧ selector ≠ REFUND ∧
      selector ≠ CLAIM_TIMEOUT_BONUS) .ForbiddenCall
    whenDynamic dynamicChecks (checkMarket X a.target)

/-- `_check` -/
def check : List Call → Except SessionErr Nat
  | [a, b, c, d] => checkPayment P X dynamicChecks account a b c d
  | [a, b, c] => do
    checkSale P X dynamicChecks account a b c
    .ok 0
  | [a, b] => do
    checkBondClaim P X dynamicChecks account a b
    .ok 0
  | [a] => do
    checkSingle P X dynamicChecks account a
    .ok 0
  | _ => .error .ForbiddenCall

end

/-! ## The hook -/

/-- `preCheck` of an execution that `account` makes with the native value `value`. -/
def preCheck (P : Policy) (X : Chain) (account : Address) (value : Nat) (data : Bytes) : Except SessionErr Unit := do
  revertIf (value ≠ 0) .ForbiddenCall
  let calls ← decode data
  let _ ← check P X true account calls
  .ok ()

/-! ## The policy -/

/-- What the policy reads of a user operation. -/
structure UserOp where
  sender : Address
  callData : Bytes
  paymasterAndData : Bytes

inductive SessionEvent
  | SessionInstalled (id : Bytes32) (account : Address) (total validUntil : Nat)
  | SessionRevoked (id : Bytes32) (account : Address)
  | SessionBudgetUsed (id : Bytes32) (account : Address) (amount spent : Nat)
deriving DecidableEq

structure Sessions where
  sessionState : Bytes32 → Address → SessionState
  log : List SessionEvent

namespace Sessions

/-- The storage after the constructor. -/
def deployed : Sessions := ⟨fun _ _ => .blank, []⟩

def set (S : Sessions) (id : Bytes32) (account : Address) (s : SessionState) : Sessions :=
  { S with sessionState := Function.update S.sessionState id (Function.update (S.sessionState id) account s) }

def emit (S : Sessions) (e : SessionEvent) : Sessions := { S with log := S.log ++ [e] }

end Sessions

/-- `abi.decode(data[32:], (uint128, uint128, uint48, uint48))` -/
def decodeLimits (b : Bytes) : Option (Nat × Nat × Nat × Nat) := do
  let perOperation ← wordAt b 0
  let total ← wordAt b 32
  let validAfter ← wordAt b 64
  let validUntil ← wordAt b 96
  guard (perOperation < 2 ^ 128 ∧ total < 2 ^ 128 ∧ validAfter < 2 ^ 48 ∧ validUntil < 2 ^ 48)
  some (perOperation, total, validAfter, validUntil)

/-- What a call has done, besides its change of the storage. -/
inductive Done
  /-- `onInstall` or `onUninstall` of the paired hook. -/
  | hook
  | installed (id : Bytes32) (perOperation total validAfter validUntil : Nat)
  | revoked (id : Bytes32)
  /-- `checkUserOpPolicy` returned `validationData`. -/
  | accepted (id : Bytes32) (amount validationData : Nat)
deriving DecidableEq

section

variable (P : Policy) (X : Chain) (S : Sessions) (caller : Address)

def onInstall (data : Bytes) : Except SessionErr (Sessions × Done) :=
  if data.length = 0 then .ok (S, .hook)
  else do
    revertIf (data.length ≠ 160) .InvalidSession
    let id := ofBytes (data.take 32)
    let (perOperation, total, validAfter, validUntil) ← (decodeLimits (data.drop 32)).elim (.error .Malformed) .ok
    revertIf (perOperation = 0 ∨ total < perOperation ∨ validUntil ≤ validAfter ∨ 86400 < validUntil - validAfter)
      .InvalidSession
    let s := S.sessionState id caller
    revertIf (s.revoked = true ∨ s.installed = true) .InvalidSession
    .ok ((S.set id caller { s with
        perOperation := perOperation
        total := total
        validAfter := validAfter
        validUntil := validUntil
        installed := true }).emit (.SessionInstalled id caller total validUntil),
      .installed id perOperation total validAfter validUntil)

/-- `_revoke` -/
def revoke (id : Bytes32) : Sessions :=
  (S.set id caller { S.sessionState id caller with revoked := true }).emit (.SessionRevoked id caller)

def onUninstall (data : Bytes) : Except SessionErr (Sessions × Done) :=
  if data.length = 0 then .ok (S, .hook)
  else do
    revertIf (data.length < 32) .InvalidSession
    .ok (revoke S caller (ofBytes (data.take 32)), .revoked (ofBytes (data.take 32)))

/-- What `checkUserOpPolicy` returns. -/
def validityBounds (s : SessionState) : Nat := (s.validUntil <<< 160) ||| (s.validAfter <<< 208)

def checkUserOpPolicy (id : Bytes32) (op : UserOp) : Except SessionErr (Sessions × Done) := do
  let s := S.sessionState id caller
  revertIf (op.sender ≠ caller ∨ s.installed = false ∨ s.revoked = true) .InvalidSession
  revertIf (op.paymasterAndData.length < 52 ∨ addr (ofBytes (op.paymasterAndData.take 20)) ≠ P.paymaster) .ForbiddenCall
  revertIf (op.callData.length < 8 ∨ op.callData.take 4 ≠ EXECUTE_USER_OP) .ForbiddenCall
  let calls ← decode (op.callData.drop 4)
  let amount ← check P X false caller calls
  revertIf (s.perOperation < amount ∨ s.total < s.spent + amount) .BudgetExceeded
  -- `s.spent += uint128(amount)`
  let spent := s.spent + amount % 2 ^ 128
  revertIf (2 ^ 128 ≤ spent) .Panic
  let S := S.set id caller { s with spent := spent }
  .ok (if amount ≠ 0 then S.emit (.SessionBudgetUsed id caller (amount % 2 ^ 128) spent) else S,
    .accepted id amount (validityBounds s))

/-- The functions of the policy that write. -/
inductive PolicyCall
  | onInstall (data : Bytes)
  | onUninstall (data : Bytes)
  | revoke (id : Bytes32)
  | checkUserOpPolicy (id : Bytes32) (op : UserOp)

/-- A call of the policy by an account. -/
def exec : PolicyCall → Except SessionErr (Sessions × Done)
  | .onInstall data => onInstall S caller data
  | .onUninstall data => onUninstall S caller data
  | .revoke id => .ok (revoke S caller id, .revoked id)
  | .checkUserOpPolicy id op => checkUserOpPolicy P X S caller id op

end

end Session

end Cpredict
