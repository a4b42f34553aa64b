import Cpredict.Lib.Coroutine
import Mathlib.Data.List.Basic

/-!
# The pool of RPC providers

`RpcReadPool`: reads go to the provider that is active for their category, and to others when it fails. Several
requests and the recovery probes run at the same time; each runs without interruption between two awaits. The
answers of providers are arbitrary, and so are the readings of the clocks, which are whole milliseconds.

Metrics are left out, and so is what they are told.
-/

namespace Cpredict

namespace Rpc

/-! ## Values -/

/-- What a provider answers, and what a request is made with. Numbers and their values are not looked at. -/
inductive Json
  | null
  | bool (value : Bool)
  | number
  | string (value : String)
  | array (items : List Json)
  | object (fields : List (String × Json))

/-- `value.name`; it is `undefined` on whatever is not an object. -/
def Json.field (name : String) : Json → Option Json
  | .object fields => fields.lookup name
  | _ => none

/-- `value === text` -/
def Json.isString (text : String) : Json → Bool
  | .string s => s = text
  | _ => false

/-- `value === null` -/
def Json.isNull : Json → Bool
  | .null => true
  | _ => false

/-- A field that is the string `text`. -/
def Json.has (name text : String) (value : Json) : Bool := (value.field name).any (Json.isString text)

def hexDigit (c : Char) : Option Nat :=
  if '0' ≤ c ∧ c ≤ '9' then some (c.toNat - '0'.toNat)
  else if 'a' ≤ c ∧ c ≤ 'f' then some (c.toNat - 'a'.toNat + 10)
  else if 'A' ≤ c ∧ c ≤ 'F' then some (c.toNat - 'A'.toNat + 10)
  else none

/-- The number that hexadecimal digits denote. -/
def hexValue (digits : List Char) : Option Nat := digits.foldlM (fun n c => (hexDigit c).map (16 * n + ·)) 0

/-- `quantity.parse` followed by `BigInt` -/
def quantity (s : String) : Option Nat :=
  match s.toList with
  | '0' :: 'x' :: d :: digits => hexValue (d :: digits)
  | _ => none

/-- A quantity, as a value. -/
def Json.quantity : Json → Option Nat
  | .string s => Rpc.quantity s
  | _ => none

/-- `/^0x[0-9a-f]+$/i` -/
def isHex (s : String) : Bool :=
  match s.toList with
  | '0' :: x :: d :: digits => (x = 'x' || x = 'X') && (d :: digits).all fun c => (hexDigit c).isSome
  | _ => false

def Json.isHex : Json → Bool
  | .string s => Rpc.isHex s
  | _ => false

/-- `BigInt(s)` of a string that starts with `0x`; blanks at the end do not matter. -/
def bigInt (s : String) : Option Nat := quantity (String.ofList (s.toList.reverse.dropWhile Char.isWhitespace).reverse)

/-- A hash: `0x` and 64 digits. -/
def isHash (s : String) : Bool := s.length = 66 ∧ (quantity s).isSome

/-- `0x${n.toString(16)}` -/
def toQuantity (n : Nat) : String := "0x" ++ String.ofList (Nat.toDigits 16 n)

/-! ## Methods and categories -/

inductive Method
  | eth_chainId | net_version | eth_blockNumber | eth_gasPrice | eth_maxPriorityFeePerGas | eth_feeHistory
  | eth_getBalance | eth_getCode | eth_getStorageAt | eth_getTransactionCount | eth_getProof | eth_getBlockByNumber
  | eth_getBlockByHash | eth_getTransactionByHash | eth_getTransactionReceipt | eth_getBlockTransactionCountByHash
  | eth_getBlockTransactionCountByNumber | eth_getLogs | eth_call | eth_estimateGas
  | other (name : String)
deriving DecidableEq

/-- `READ_METHODS.has(method)` -/
def Method.isRead : Method → Bool
  | .other _ => false
  | _ => true

inductive Capability
  | read | history | receipt | logs
deriving DecidableEq

def capabilities : List Capability := [.read, .history, .receipt, .logs]

/-- The parameter that selects a block. -/
def blockParameter (params : List Json) : Method → Option Json
  | .eth_getStorageAt | .eth_getProof => params[2]?
  | .eth_getBlockByNumber | .eth_getBlockTransactionCountByNumber => params[0]?
  | .eth_call | .eth_getCode | .eth_getBalance | .eth_getTransactionCount => params[1]?
  | _ => none

/-- A block that is given by its number or its hash. -/
def selectsBlock : Json → Bool
  | .string s => isHex s
  | .object fields => (fields.lookup "blockHash").isSome || (fields.lookup "blockNumber").isSome
  | _ => false

def category (method : Method) (params : List Json) : Capability :=
  if method = .eth_getLogs then .logs
  else if method = .eth_getTransactionReceipt then .receipt
  else if method = .eth_getBlockByHash ∨ method = .eth_getTransactionByHash then .history
  else if (blockParameter params method).any selectsBlock then .history
  else .read

/-! ## Errors -/

inductive Reason
  | network | timeout | rate_limit | quota | auth | server | invalid_response | chain | stale | capability
  | cancelled | unavailable
deriving DecidableEq

inductive Failure
  /-- `RpcUnavailableError` -/
  | unavailable (reason : Reason)
  /-- `AttemptError` -/
  | attempt (reason : Reason) (retryAfterMs : Nat)
  /-- `RpcResponseError` -/
  | response (code : Int)
  /-- Errors of the language: `TypeError`, `SyntaxError`. -/
  | thrown
deriving DecidableEq

/-! ## Options -/

structure Endpoint where
  name : String
  initialCooldownSeconds : Option Nat
  disabledCapabilities : List Capability
  url : String

structure RpcProbe where
  logBlockSpan : Nat
  blockNumber : String
  blockHash : String
  transactionHash : String
  receiptBlockNumber : String
  receiptBlockHash : String
  logAddress : String
  logIndex : String

structure RpcFallbackConfig where
  primaryName : Option String
  primaryDisabledCapabilities : List Capability
  endpoints : List Endpoint
  probe : RpcProbe

structure RpcPoolOptions where
  url : String
  chainId : Nat
  timeoutMs : Int
  capabilities : Option (List Capability)
  fallback : Option RpcFallbackConfig
  logUrl : Option String

/-! ## The state of a pool -/

/-- What is known of a provider for a category. -/
structure State where
  failures : Nat
  until_ : Int
  qualified : Bool
  successes : Nat
  nextProbe : Int
  probing : Bool
  recovering : Bool
  capabilityFailures : Nat
  quotaFailures : Nat
deriving Inhabited

structure Node where
  name : String
  logsOnly : Bool
  disabledCapabilities : List Capability
  head : Nat
  states : Capability → State
  checking : Bool
deriving Inhabited

structure Anchor where
  hash : String
  provider : String

structure Pool where
  nodes : List Node
  active : Capability → Option Nat
  selectedAt : Capability → Option Int
  highWater : Nat
  /-- In the order of insertion. -/
  anchors : List (Nat × Anchor)
  /-- The timer is set: `start` has returned. -/
  timer : Bool
  closed : Bool

/-- The pool, and what it reads: the clocks, by the readings that are still to come, and the signals that have been
aborted. -/
structure World where
  pool : Pool
  nowReadings : Nat → Int
  performanceReadings : Nat → Int
  aborted : Nat → Bool

def Node.setState (c : Capability) (f : State → State) (n : Node) : Node :=
  { n with states := Function.update n.states c (f (n.states c)) }

def World.modifyPool (f : Pool → Pool) (w : World) : World := { w with pool := f w.pool }

def Pool.modifyNode (i : Nat) (f : Node → Node) (p : Pool) : Pool := { p with nodes := p.nodes.modify i f }

/-! ## Awaits -/

inductive Command
  /-- A call of a provider. -/
  | call (index : Nat) (method : Method) (params : List Json) (timeoutMs : Int) (signal : Option Nat)
  /-- The checks of providers that others make. -/
  | checked

abbrev Answer : Command → Type
  | .call _ _ _ _ _ => Json
  | .checked => Unit

/-- A result, and the provider that it comes from, which is kept for the record. -/
structure Served where
  result : Json
  provider : Nat

abbrev M := Coroutine World Answer Failure

abbrev throw {α : Type} (e : Failure) : M α := .fail e

/-- `if (b) throw e` -/
def throwIf (b : Bool) (e : Failure) : M Unit := if b then throw e else .ret ()

/-- `if (b) x` -/
def whenever (b : Bool) (x : M Unit) : M Unit := if b then x else .ret ()

/-- `this.now()` -/
def now : M Int := do
  let w ← Coroutine.read
  .modify fun w => { w with nowReadings := fun k => w.nowReadings (k + 1) }
  .ret (w.nowReadings 0)

/-- `performance.now()` -/
def performanceNow : M Int := do
  let w ← Coroutine.read
  .modify fun w => { w with performanceReadings := fun k => w.performanceReadings (k + 1) }
  .ret (w.performanceReadings 0)

def pool : M Pool := do
  let w ← Coroutine.read
  .ret w.pool

def node (i : Nat) : M Node := do
  let p ← pool
  .ret (p.nodes.getD i default)

def state (i : Nat) (c : Capability) : M State := do
  let n ← node i
  .ret (n.states c)

def modifyPool (f : Pool → Pool) : M Unit := .modify (World.modifyPool f)

def modifyNode (i : Nat) (f : Node → Node) : M Unit := modifyPool (Pool.modifyNode i f)

def modifyState (i : Nat) (c : Capability) (f : State → State) : M Unit := modifyNode i (Node.setState c f)

/-- `signal?.aborted || this.closed` -/
def cancelled (signal : Option Nat) : M Bool := do
  let w ← Coroutine.read
  .ret (signal.any w.aborted || w.pool.closed)

section

variable (o : RpcPoolOptions)

/-! ## The constructor -/

/-- The providers in the order of the constructor: the one for logs, the primary, and the fallbacks. -/
def raw : List (Endpoint × Bool) :=
  (match o.logUrl with
    | some logUrl => if logUrl ≠ o.url then [(⟨"official", none, [], logUrl⟩, true)] else []
    | none => []) ++
  (⟨(o.fallback.bind RpcFallbackConfig.primaryName).getD "alchemy", none,
    (o.fallback.map RpcFallbackConfig.primaryDisabledCapabilities).getD [], o.url⟩, false) ::
  ((o.fallback.map RpcFallbackConfig.endpoints).getD []).map fun e => (e, false)

/-- A provider at the beginning; `now` is read for each category. -/
def initialNode (now : Capability → Int) (e : Endpoint × Bool) : Node where
  name := e.1.name
  logsOnly := e.2
  disabledCapabilities := e.1.disabledCapabilities
  head := 0
  states c := ⟨0, now c + e.1.initialCooldownSeconds.getD 0 * 1000, o.fallback.isNone, 0, 0, false, false, 0, 0⟩
  checking := false

/-- A pool that has been constructed. -/
structure Constructed (p : Pool) : Prop where
  urls : ((raw o).map fun e => e.1.url).Nodup
  nodes : ∃ now : Nat → Capability → Int, p.nodes = (raw o).mapIdx fun i e => initialNode o (now i) e
  active : ∀ c, p.active c = none
  selectedAt : ∀ c, p.selectedAt c = none
  highWater : p.highWater = 0
  anchors : p.anchors = []
  timer : p.timer = false
  closed : p.closed = false

/-! ## Selection -/

def eligible (i : Nat) (c : Capability) : M Bool := do
  let n ← node i
  if o.capabilities.all (c ∈ ·) ∧ c ∉ n.disabledCapabilities ∧ (!n.logsOnly || c = .logs) ∧
    (n.states c).qualified then do
    let t ← now
    .ret ((n.states c).until_ ≤ t)
  else .ret false

/-- The eligible providers among `indices`. -/
def filterEligible (c : Capability) : List Nat → M (List Nat)
  | [] => .ret []
  | i :: indices => do
    let e ← eligible o i c
    let rest ← filterEligible c indices
    .ret (if e then i :: rest else rest)

/-- The first eligible provider among `indices`; with `healthy` it must have no failures. -/
def findEligible (c : Capability) (healthy : Bool) : List Nat → M (Option Nat)
  | [] => .ret none
  | i :: indices => do
    let e ← eligible o i c
    let s ← state i c
    if e ∧ (!healthy || s.failures = 0) then .ret (some i) else findEligible c healthy indices

def select (i : Nat) (c : Capability) : M Unit := do
  let p ← pool
  if p.active c = some i then .ret ()
  else do
    modifyState i c fun s => { s with recovering := false }
    let t ← now
    modifyPool fun p =>
      { p with active := Function.update p.active c (some i), selectedAt := Function.update p.selectedAt c (some t) }

/-! ## Faults -/

/-- Reasons that end the qualification at once. -/
def Reason.immediate (r : Reason) : Bool := r ∈ [.rate_limit, .quota, .auth, .chain, .stale, .capability]

/-- Reasons that concern every capability of a provider. -/
def Reason.wide (r : Reason) : Bool := r ∈ [.rate_limit, .quota, .auth, .chain]

/-- How long a provider is left alone. -/
def cooldown (reason : Reason) (s : State) : Nat :=
  match reason with
  | .auth => 86400000
  | .quota => min 3600000 (900000 * 2 ^ min 2 (s.quotaFailures - 1))
  | .capability => min 3600000 (300000 * 2 ^ min 4 (s.capabilityFailures - 1))
  | _ => 60000

/-- Every other capability is suspended as `s` is. -/
def suspendOthers (i : Nat) (c : Capability) (s : State) : List Capability → M Unit
  | [] => .ret ()
  | other :: rest => do
    whenever (other ≠ c) (modifyState i other fun t => { t with
      qualified := false, until_ := s.until_, nextProbe := s.nextProbe, successes := 0, recovering := true })
    suspendOthers i c s rest

/-- The capability is suspended. -/
def suspend (i : Nat) (c : Capability) (reason : Reason) (retryAfterMs : Nat) : M Unit := do
  let t ← now
  modifyState i c fun s => { s with
    qualified := false, until_ := t + max (cooldown reason s) retryAfterMs, nextProbe :=
      t + max (cooldown reason s) retryAfterMs }

def fault (i : Nat) (c : Capability) (reason : Reason) (retryAfterMs : Nat) : M Unit :=
  if o.fallback.isNone then .ret ()
  else do
    modifyState i c fun s => { s with
      failures := s.failures + 1
      capabilityFailures := if reason = .capability then s.capabilityFailures + 1 else s.capabilityFailures
      quotaFailures := if reason = .quota then s.quotaFailures + 1 else s.quotaFailures
      recovering := true
      successes := 0 }
    let s ← state i c
    whenever (2 ≤ s.failures ∨ reason.immediate) (suspend i c reason retryAfterMs)
    let s ← state i c
    whenever reason.wide (suspendOthers i c s capabilities)

/-! ## Calls -/

def call (index : Nat) (method : Method) (params : List Json) (timeoutMs : Int) (signal : Option Nat) : M Json :=
  Coroutine.await (Command.call index method params timeoutMs signal)

/-- The head that a provider has reported: it is kept, and it must not be below the highest one that the pool has
returned. -/
def reportHead (index : Nat) (head : Json) : M Nat :=
  match head.quantity with
  | none => throw (.attempt .invalid_response 0)
  | some h => do
    modifyNode index fun n => { n with head := h }
    let p ← pool
    throwIf (h < p.highWater) (.attempt .stale 0)
    .ret h

/-! ## Qualification -/

/-- `0x…` of the first block of the range in which the log of the probe must be. -/
def probeFrom (p : RpcProbe) : String :=
  let last := (quantity p.receiptBlockNumber).getD 0
  toQuantity (if p.logBlockSpan - 1 ≤ last then last - (p.logBlockSpan - 1) else 0)

/-- `logs.some(…)`; there is an error if it comes to a `null`. -/
def someLog (p : RpcProbe) : List Json → Except Failure Bool
  | [] => .ok false
  | .null :: _ => .error .thrown
  | l :: rest =>
    if l.has "transactionHash" p.transactionHash ∧ l.has "logIndex" p.logIndex ∧
      l.has "blockHash" p.receiptBlockHash then .ok true
    else someLog p rest

/-- `Array.isArray(logs) && logs.some(…)` -/
def Json.someLog (p : RpcProbe) : Json → Except Failure Bool
  | .array items => Rpc.someLog p items
  | _ => .ok false

/-- The chain and the head of a provider. -/
def baseCheck (i : Nat) : M Unit := do
  let chain ← call i .eth_chainId [] o.timeoutMs none
  throwIf (¬chain.isString (toQuantity o.chainId)) (.attempt .chain 0)
  let head ← call i .eth_blockNumber [] o.timeoutMs none
  let _ ← reportHead i head
  .ret ()

/-- What a capability needs beyond it. -/
def capabilityCheck (i : Nat) (p : RpcProbe) : Capability → M Unit
  | .read => .ret ()
  | .history => do
    let b ← call i .eth_getBlockByNumber [.string p.blockNumber, .bool false] o.timeoutMs none
    throwIf (¬(b.has "hash" p.blockHash ∧ b.has "number" p.blockNumber)) (.attempt .capability 0)
    let code ← call i .eth_getCode [.string p.logAddress, .string p.blockNumber] o.timeoutMs none
    throwIf (¬code.isHex) (.attempt .capability 0)
  | .receipt => do
    let r ← call i .eth_getTransactionReceipt [.string p.transactionHash] o.timeoutMs none
    throwIf (¬(r.has "transactionHash" p.transactionHash ∧ r.has "blockHash" p.receiptBlockHash ∧
      r.has "blockNumber" p.receiptBlockNumber)) (.attempt .capability 0)
  | .logs => do
    let logs ← call i .eth_getLogs [.object [("address", .string p.logAddress), ("fromBlock", .string (probeFrom p)),
      ("toBlock", .string p.receiptBlockNumber)]] o.timeoutMs none
    let found ← Coroutine.ofExcept (logs.someLog p)
    throwIf (!found) (.attempt .capability 0)

def qualification (i : Nat) (c : Capability) (baseChecked : Bool) : M Unit := do
  whenever (!baseChecked) (baseCheck o i)
  match o.fallback with
  | none => .ret ()
  | some f => capabilityCheck o i f.probe c

/-- Whether `qualify` leaves a capability out. -/
def skips (i : Nat) (initial : Bool) (c : Capability) : M Bool := do
  let n ← node i
  let s := n.states c
  if c ∈ n.disabledCapabilities ∨ (n.logsOnly ∧ c ≠ .logs) ∨ ¬(o.capabilities.all (c ∈ ·)) then .ret true
  else do
    let t ← now
    if t < s.until_ then .ret true
    else if initial then .ret false
    else if s.qualified ∧ s.failures = 0 ∧ s.recovering = false then .ret true
    else do
      let t ← now
      .ret (t < s.nextProbe ∨ s.probing)

/-- A capability has passed. -/
def pass (i : Nat) (c : Capability) (initial : Bool) : M Unit := do
  let t ← now
  modifyState i c fun s => { s with successes := s.successes + 1, nextProbe := t + 30000 }
  let s ← state i c
  whenever (initial ∨ 3 ≤ s.successes) (modifyState i c fun s => { s with
    qualified := true, until_ := 0, failures := 0, recovering := false, capabilityFailures := 0, quotaFailures := 0 })

/-- The fault of an attempt; other errors are not the provider's. -/
def faultOf (i : Nat) (c : Capability) : Failure → M Unit
  | .attempt reason retryAfterMs => fault o i c reason retryAfterMs
  | _ => .ret ()

/-- A capability has not passed. -/
def failed (i : Nat) (c : Capability) (e : Failure) : M Unit := do
  modifyState i c fun s => { s with qualified := false, successes := 0 }
  faultOf o i c e
  let t ← now
  modifyState i c fun s => { s with nextProbe := max s.until_ (t + 30000) }

/-- The capabilities in their order. Once the chain and the head are checked they are not checked again. -/
def qualifyEach (i : Nat) (initial : Bool) : List Capability → Bool → M Unit
  | [], _ => .ret ()
  | c :: rest, baseChecked => do
    let skip ← skips o i initial c
    if skip then qualifyEach i initial rest baseChecked
    else do
      modifyState i c fun s => { s with probing := true }
      let r ← (qualification o i c baseChecked).attempt
      match r with
      | .ok () => do
        pass i c initial
        modifyState i c fun s => { s with probing := false }
        qualifyEach i initial rest true
      | .error e => do
        failed o i c e
        modifyState i c fun s => { s with probing := false }
        qualifyEach i initial rest baseChecked

/-- One check of a provider at a time: whoever asks for another waits for it. -/
def qualify (i : Nat) (initial : Bool) : M Unit := do
  let n ← node i
  if n.checking then Coroutine.await Command.checked
  else do
    modifyNode i fun n => { n with checking := true }
    qualifyEach o i initial capabilities false
    modifyNode i fun n => { n with checking := false }

/-! ## The start -/

def qualifyAll : List Nat → M Unit
  | [] => .ret ()
  | i :: rest => do
    qualify o i true
    qualifyAll rest

/-- The highest of the heads of the providers. -/
def Pool.highestHead (p : Pool) : Nat := (p.nodes.map Node.head).foldl max 0

def disqualify (i : Nat) (c : Capability) : M Unit := do
  let t ← now
  modifyState i c fun s => { s with qualified := false, nextProbe := t + 30000 }

def disqualifyEach (i : Nat) : List Capability → M Unit
  | [] => .ret ()
  | c :: rest => do
    let s ← state i c
    whenever s.qualified (disqualify i c)
    disqualifyEach i rest

/-- Ignore lagging endpoints at admission. Never interpret a stale head as a reorg. -/
def disqualifyLagging : List Nat → M Unit
  | [] => .ret ()
  | i :: rest => do
    let n ← node i
    let p ← pool
    whenever (n.head + 120 < p.highWater) (disqualifyEach i capabilities)
    disqualifyLagging rest

def selectEach (healthy : Bool) (choose : Capability → Option Nat → M Unit) : List Capability → M Unit
  | [] => .ret ()
  | c :: rest => do
    let p ← pool
    let best ← findEligible o c healthy (List.range p.nodes.length)
    choose c best
    selectEach healthy choose rest

def selectFirst (c : Capability) : Option Nat → M Unit
  | some i => select i c
  | none => .ret ()

/-- `start`. The checks of the providers run at the same time, but each is about its own provider only. -/
def start : M Unit :=
  if o.fallback.isNone then .ret ()
  else do
    let p ← pool
    qualifyAll o (List.range p.nodes.length)
    modifyPool fun p => { p with highWater := p.highestHead }
    disqualifyLagging (List.range p.nodes.length)
    selectEach o false selectFirst capabilities
    let p ← pool
    if (p.active .read).isNone then throw (.unavailable .unavailable)
    else modifyPool fun p => { p with timer := true }

/-! ## Probes -/

/-- A better provider that has recovered, at the earliest five minutes after the last selection. -/
def selectRecovered (c : Capability) (best : Option Nat) : M Unit := do
  let p ← pool
  match best, p.active c with
  | none, _ => .ret ()
  | some b, none => select b c
  | some b, some current => do
    let t ← now
    whenever (b < current ∧ 300000 ≤ t - (p.selectedAt c).getD 0) (select b c)

/-- `probe`. It starts a check of every provider, which runs on its own, and waits for all of them. -/
def probe : M Unit := do
  let p ← pool
  if p.closed ∨ o.fallback.isNone then .ret ()
  else do
    Coroutine.await Command.checked
    selectEach o true selectRecovered capabilities

/-! ## Requests -/

/-- The block must be the one that was asked for. -/
def sameBlock (method : Method) (params : List Json) (number : Nat) (hash : String) : Except Failure Unit :=
  match method, params.head? with
  | .eth_getBlockByNumber, some (.string s) =>
    if s.startsWith "0x" then
      match bigInt s with
      | none => .error .thrown
      | some asked => if asked = number then .ok () else .error (.attempt .invalid_response 0)
    else .ok ()
  | .eth_getBlockByHash, asked => if asked.any (Json.isString hash) then .ok () else .error
      (.attempt .invalid_response 0)
  | _, _ => .ok ()

/-- The number and the hash of a block. -/
def blockOf (b : Json) : Except Failure (Nat × String) :=
  match (b.field "number").bind Json.quantity, b.field "hash" with
  | some number, some (.string hash) => if isHash hash then .ok (number, hash) else .error
      (.attempt .invalid_response 0)
  | _, _ => .error (.attempt .invalid_response 0)

/-- The block is the last anchor; of more than 512 the first is dropped. -/
def Pool.anchor (number : Nat) (a : Anchor) (p : Pool) : Pool :=
  let anchors := p.anchors.filter (·.1 ≠ number) ++ [(number, a)]
  { p with anchors := if 512 < anchors.length then anchors.tail else anchors }

/-- Blocks are anchored: no other provider may report another hash for the same number. -/
def anchor (i : Nat) (method : Method) (params : List Json) (b : Json) : M Unit := do
  let (number, hash) ← Coroutine.ofExcept (blockOf b)
  Coroutine.ofExcept (sameBlock method params number hash)
  let n ← node i
  let p ← pool
  throwIf ((p.anchors.lookup number).any fun old => old.provider ≠ n.name ∧ old.hash ≠ hash) (.attempt .stale 0)
  modifyPool (Pool.anchor number ⟨hash, n.name⟩)

/-- A new head is the highest one. -/
def acceptHead (i : Nat) (result : Json) : M Unit := do
  let h ← reportHead i result
  modifyPool fun p => { p with highWater := h }

/-- A result that has arrived is accepted, and the provider becomes the active one. -/
def accept (i : Nat) (c : Capability) (method : Method) (params : List Json) (result : Json) : M Served := do
  throwIf (method = .eth_chainId ∧ ¬result.isString (toQuantity o.chainId)) (.attempt .chain 0)
  whenever (method = .eth_blockNumber) (acceptHead i result)
  whenever ((method = .eth_getBlockByNumber ∨ method = .eth_getBlockByHash) ∧ ¬result.isNull)
    (anchor i method params result)
  modifyState i c fun s => { s with failures := 0 }
  select i c
  .ret ⟨result, i⟩

/-- A read, as it was asked for. -/
structure Request where
  method : Method
  params : List Json
  signal : Option Nat
  timeoutMs : Option Int

variable (q : Request) (preferred : Option Nat) (deadline : Int)

/-- A switching provider must have caught up to every head already exposed by this process. -/
def catchUp (i : Nat) (allowance : Int) : M Unit := do
  let head ← call i .eth_blockNumber [] (max 1 (allowance / 3)) q.signal
  let _ ← reportHead i head
  .ret ()

/-- One provider is tried. -/
def tryServe (i : Nat) (allowance : Int) : M Served := do
  let attemptStart ← performanceNow
  let p ← pool
  whenever (o.fallback.isSome ∧ preferred.isSome ∧ preferred ≠ some i ∧ 0 < p.highWater) (catchUp q i allowance)
  let t ← performanceNow
  let result ← call i q.method q.params (max 1 (allowance - (t - attemptStart))) q.signal
  accept o i (category q.method q.params) q.method q.params result

/-- The candidates in their order, `count` in all; `last` is the error of the one before. -/
def serve (count : Nat) : Nat → Failure → List Nat → M Served
  | _, last, [] => throw last
  | position, last, i :: rest => do
    let stop ← cancelled q.signal
    if stop then throw (.unavailable .cancelled)
    else do
      let t ← performanceNow
      if deadline - t ≤ 0 then throw last
      else do
        let r ← (tryServe o q preferred i (max 1 ((deadline - t) / ((count : Int) - position)))).attempt
        match r with
        | .ok served => .ret served
        | .error (.attempt reason retryAfterMs) => do
          fault o i (category q.method q.params) reason retryAfterMs
          serve count (position + 1) (.attempt reason retryAfterMs) rest
        | .error e => throw e

end

/-- The preferred provider comes first, if it is among the candidates. -/
def preferredFirst (preferred : Option Nat) (candidates : List Nat) : List Nat :=
  match preferred with
  | some i => if i ∈ candidates then i :: candidates.erase i else candidates
  | none => candidates

def request (o : RpcPoolOptions) (q : Request) : M Served :=
  if q.method.isRead then do
    let t ← performanceNow
    let p ← pool
    let preferred := p.active (category q.method q.params)
    let found ← filterEligible o (category q.method q.params) (List.range p.nodes.length)
    let candidates := preferredFirst preferred found
    serve o q preferred (t + q.timeoutMs.getD o.timeoutMs) candidates.length 0 (.unavailable .unavailable) candidates
  else throw (.response (-32601))

/-! ## The service -/

inductive Job
  | request (q : Request)
  | probe
  /-- The check of a provider by a probe. -/
  | qualify (i : Nat)

/-- What a job returns: a request its result. -/
def body (o : RpcPoolOptions) : Job → M (Option Served)
  | .request q => do
    let served ← request o q
    .ret (some served)
  | .probe => do
    probe o
    .ret none
  | .qualify i => do
    qualify o i false
    .ret none

/-- Probes are made by the timer. -/
def Starts : Job → World → Prop
  | .request _, _ => True
  | .probe, w | .qualify _, w => w.pool.timer = true

/-- Time passes, signals are aborted, and the pool is closed. -/
def Env (w w' : World) : Prop := w'.pool = w.pool ∨ w'.pool = { w.pool with closed := true }

abbrev Entry := Coroutine.Entry Job World Answer Failure (Option Served)

abbrev History := Coroutine.History Job World Answer Failure (Option Served)

abbrev Service := Coroutine.System Job World Answer Failure (Option Served)

/-- A pool that has been constructed and started. -/
def Started (o : RpcPoolOptions) (X : History) : Prop :=
  ∃ w, Constructed o w.pool ∧ (start o).Solo ⟨w, []⟩ (.ok ()) X

def Service.Reachable (o : RpcPoolOptions) (X : Service) : Prop :=
  Reach.Reachable (Coroutine.System.Initial (Started o)) (Coroutine.System.Step (body o) Starts Env) X

end Rpc

end Cpredict
