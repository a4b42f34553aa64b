import Cpredict.Operations.Record

/-!
# The chain of an operation

What a node answers about user operations: receipts, the nonces of the EntryPoint, the finalized block; and what the
service reads in a receipt (`operationEvent`, `assertDepositTransfer`).

On a chain (`Chain.Valid`) a nonce is used once, and an account's nonce lies above those that are used.
-/

namespace Cpredict.Operations

open Outcome

def ENTRY_POINT : Address := addr 0x0000000071727De22E5E9d8BAf0edAc6f37da032

def USDC_ADDRESS : Address := addr 0x75faf114eafb1BDbe2F0316DF893fd58CE46AA4d

/-- The event that an executed user operation leaves. -/
structure UserOperationEvent where
  userOpHash : Bytes32
  sender : Address
  nonce : Nat
  success : Bool
  actualGasCost : Nat
deriving DecidableEq

/-- A log of a receipt, as far as it is decoded. -/
inductive ReceiptLog
  | beforeExecution (address : Address)
  | userOperationEvent (address : Address) (args : UserOperationEvent)
  | authorizationUsed (address authorizer : Address) (nonce : Bytes32)
  | transfer (address source target : Address) (value : Nat)
  | other (address : Address)
deriving DecidableEq

structure Receipt where
  transactionHash : Bytes32
  blockNumber : Nat
  blockHash : Bytes32
  /-- `status === "success"` -/
  success : Bool
  logs : List ReceiptLog
deriving DecidableEq

/-- The event of a log of the EntryPoint. -/
def ReceiptLog.executed : ReceiptLog → Option UserOperationEvent
  | .userOperationEvent address args => if address = ENTRY_POINT then some args else none
  | _ => none

/-- The user operations of a receipt. -/
def Receipt.executed (r : Receipt) : List UserOperationEvent := r.logs.filterMap ReceiptLog.executed

structure ChainBlock where
  number : Nat
  hash : Bytes32
  receipts : List Receipt
deriving DecidableEq

/-- The canonical chain at some time. -/
structure Chain where
  /-- The oldest block first. -/
  blocks : List ChainBlock
  finalized : Nat
  /-- `nonceSequenceNumber` of the EntryPoint, by account and key. -/
  sequence : Address → Nat → Nat

namespace Chain

def receipts (C : Chain) : List Receipt := C.blocks.flatMap ChainBlock.receipts

def executed (C : Chain) : List UserOperationEvent := C.receipts.flatMap Receipt.executed

/-! ## What the node answers -/

def getTransactionReceipt (C : Chain) (transactionHash : Bytes32) : Option Receipt :=
  C.receipts.find? fun r => r.transactionHash = transactionHash

def getBlockNumber (C : Chain) : Nat := (C.blocks.getLast?.map ChainBlock.number).getD 0

/-- The hash of the block with a number. -/
def getBlock (C : Chain) (n : Nat) : Option Bytes32 := (C.blocks.find? fun b => b.number = n).map ChainBlock.hash

/-- The nonce of a key: the key, and the next number of its sequence. -/
def getNonce (C : Chain) (account : Address) (key : Nat) : Nat := key * 2 ^ 64 + C.sequence account key

/-! ## Chains -/

/-- A chain that the EntryPoint has produced. -/
structure Valid (C : Chain) : Prop where
  numbers : (C.blocks.map ChainBlock.number).Pairwise (· < ·)
  located : ∀ b ∈ C.blocks, ∀ r ∈ b.receipts, r.blockNumber = b.number ∧ r.blockHash = b.hash
  once : (C.executed.map fun e => (e.sender, e.nonce)).Nodup
  used : ∀ e ∈ C.executed, e.nonce % 2 ^ 64 < C.sequence e.sender (e.nonce / 2 ^ 64)

/-- A later chain has the blocks that were final. -/
structure Extends (C C' : Chain) : Prop where
  finalized : C.finalized ≤ C'.finalized
  blocks : ∀ b ∈ C.blocks, b.number ≤ C.finalized → b ∈ C'.blocks

theorem Extends.refl (C : Chain) : C.Extends C := ⟨Nat.le_refl _, fun _ hb _ => hb⟩

theorem Extends.trans {C C' C'' : Chain} (h : C.Extends C') (h' : C'.Extends C'') : C.Extends C'' :=
  ⟨h.finalized.trans h'.finalized, fun b hb hn => h'.blocks b (h.blocks b hb hn) (hn.trans h.finalized)⟩

/-- The user operation of an operation has been executed. -/
def Executes (C : Chain) (hash : Bytes32) (o : Operation) : Prop :=
  ∃ e ∈ C.executed, e.userOpHash = hash ∧ e.sender = o.account ∧ e.nonce = o.nonce

/-- The nonce of an operation has been used, by any user operation. -/
def Uses (C : Chain) (o : Operation) : Prop := ∃ e ∈ C.executed, e.sender = o.account ∧ e.nonce = o.nonce

theorem mem_receipts {C : Chain} {r : Receipt} : r ∈ C.receipts ↔ ∃ b ∈ C.blocks, r ∈ b.receipts := List.mem_flatMap

theorem mem_executed {C : Chain} {e : UserOperationEvent} : e ∈ C.executed ↔ ∃ r ∈ C.receipts, e ∈ r.executed :=
  List.mem_flatMap

theorem getTransactionReceipt_mem {C : Chain} {t : Bytes32} {r : Receipt} (h : C.getTransactionReceipt t = some r) :
    r ∈ C.receipts ∧ r.transactionHash = t := by
  have hp := List.find?_some h
  exact ⟨List.mem_of_find?_eq_some h, of_decide_eq_true hp⟩

/-- The nonce that the node answers has not been used. -/
theorem Valid.unused {C : Chain} (h : C.Valid) {o : Operation}
    (hn : C.getNonce o.account (o.nonce / 2 ^ 64) = o.nonce) :
    ¬C.Uses o := by
  rintro ⟨e, he, hs, hne⟩
  have hu := h.used e he
  rw [hs, hne] at hu
  unfold getNonce at hn
  omega

/-- A nonce is used by one user operation. -/
theorem Valid.unique {C : Chain} (h : C.Valid) {e e' : UserOperationEvent} (he : e ∈ C.executed) (he' : e' ∈ C.executed)
    (hs : e.sender = e'.sender) (hn : e.nonce = e'.nonce) : e = e' :=
  List.inj_on_of_nodup_map h.once he he' (Prod.ext hs hn)

end Chain

/-! ## Reading a receipt -/

/-- `operationEvent` -/
def operationEvent (receipt : Receipt) (hash : Bytes32) (sender : Address) (nonce : Nat) :
    Except AppErr UserOperationEvent :=
  match receipt.executed.filter fun e => e.userOpHash = hash with
  | [event] =>
    if receipt.success = false ∨ event.sender ≠ sender ∨ event.nonce ≠ nonce then .error .userOperationEventMissing
    else .ok event
  | _ => .error .userOperationEventMissing

/-- The logs of the execution that ends with the event of the hash; none if it has no beginning or no end. -/
def executionLogs (hash : Bytes32) : List ReceiptLog → Option (List ReceiptLog) → Option (List ReceiptLog)
  | [], _ => none
  | log :: rest, current =>
    match log with
    | .userOperationEvent address args =>
      if address ≠ ENTRY_POINT then executionLogs hash rest (current.map (· ++ [log]))
      else if args.userOpHash = hash then current
      else executionLogs hash rest (some [])
    | .beforeExecution address =>
      if address = ENTRY_POINT then executionLogs hash rest (some [])
      else executionLogs hash rest (current.map (· ++ [log]))
    | _ => executionLogs hash rest (current.map (· ++ [log]))

/-- Whether `assertDepositTransfer` passes. -/
def depositTransferred (receipt : Receipt) (hash : Bytes32) (sender : Address) (nonce : Nat)
    (auth : ReceiveAuthorization) : Bool :=
  match operationEvent receipt hash sender nonce with
  | .error _ => false
  | .ok event =>
    event.success && decide (auth.target = sender) &&
      (executionLogs hash receipt.logs none).any fun logs =>
        decide (logs.count (.authorizationUsed USDC_ADDRESS auth.source auth.nonce) = 1) &&
        decide (logs.count (.transfer USDC_ADDRESS auth.source auth.target auth.value) = 1)

theorem operationEvent_ok {receipt : Receipt} {hash : Bytes32} {sender : Address} {nonce : Nat} {e : UserOperationEvent}
    (h : operationEvent receipt hash sender nonce = .ok e) :
    e ∈ receipt.executed ∧ e.userOpHash = hash ∧ e.sender = sender ∧ e.nonce = nonce := by
  unfold operationEvent at h
  split at h
  · rename_i event hf
    split at h
    · cases h
    · rename_i hc
      obtain rfl := Except.ok.inj h
      have hm : event ∈ receipt.executed.filter fun e => decide (e.userOpHash = hash) := by
        rw [hf]
        exact List.mem_singleton_self _
      obtain ⟨hm, hh⟩ := List.mem_filter.mp hm
      simp only [not_or, ne_eq, not_not] at hc
      exact ⟨hm, of_decide_eq_true hh, hc.2⟩
  · cases h

end Cpredict.Operations
