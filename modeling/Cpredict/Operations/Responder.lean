import Cpredict.Operations.Protocol

/-!
# A world that answers

The database does what it is asked, the node answers for its chain, and the bundler, the paymaster and the account
answer by given functions (`Responder`). What such a world answers is an effect (`Responder.effect`), so that a
schedule of the threads is a run of the service (`Responder.reachable`).
-/

namespace Cpredict.Operations

open Program

/-- The answers of those who are free to answer. -/
structure Responder where
  userOperationReceipt : Bytes32 → Option (Bytes32 × Bytes32)
  sendUserOperation : WireUserOperation → Except AppErr Bytes32
  sponsorUserOperation : WireUserOperation → SponsorResult
  sessionPaymaster : Address
  order : OrderView
  listing : ListingView
  timestamp : Nat
  account : Address
  nonce : Nat
  calls : List Session.Call

/-- A transaction that is committed, and acknowledged. -/
def committed {α : Type} (w : World) : Except AppErr (Rows × α) → Except AppErr α × World
  | .ok (rows, a) => (.ok a, { w with rows := rows })
  | .error e => (.error e, w)

theorem committed_commits {α : Type} (w : World) (f : Except AppErr (Rows × α)) :
    Commits w (committed w f).2 f (committed w f).1 := by
  cases f with
  | ok a => exact .inl ⟨a.2, rfl, .inl rfl⟩
  | error e => exact .inr ⟨rfl, e, rfl⟩

theorem committed_frame {α : Type} (w : World) (f : Except AppErr (Rows × α)) :
    (committed w f).2.sessions = w.sessions ∧ (committed w f).2.chain = w.chain ∧ (committed w f).2.now = w.now := by
  cases f with
  | ok a => exact ⟨rfl, rfl, rfl⟩
  | error e => exact ⟨rfl, rfl, rfl⟩

def Responder.answer (x : Responder) : (c : Await) → World → Except AppErr (Reply c) × World
  | .operation id, w => (.ok (w.rows.find id), w)
  | .byKey subject key, w => (.ok (w.rows.find? fun r => r.subject = subject ∧ r.idempotencyKey = key), w)
  | .pending limit, w => (.ok (pending w.rows w.now limit), w)
  | .policyCandidate sender nonce callData, w => (.ok (policyCandidate w.rows sender nonce callData), w)
  | .transition id c at', w => committed w (transition id c at' w.rows)
  | .admitOperation value, w => committed w (admitOperation w.sessions w.rows value)
  | .check _, w => (.ok (), w)
  | .sessionPaymaster _, w => (.ok x.sessionPaymaster, w)
  | .clock, w => (.ok w.now, w)
  | .userOperationReceipt hash, w => (.ok (x.userOperationReceipt hash), w)
  | .sendUserOperation _ u, w => (x.sendUserOperation u, w)
  | .bundler, w => (.ok (), w)
  | .sponsorUserOperation _ u, w => (.ok (x.sponsorUserOperation u), w)
  | .getNonce account key, w => (.ok (w.chain.getNonce account key), w)
  | .getTransactionReceipt hash, w => (.ok (w.chain.getTransactionReceipt hash), w)
  | .getBlockNumber, w => (.ok w.chain.getBlockNumber, w)
  | .getBlock n, w => ((w.chain.getBlock n).elim (.error .unavailable) .ok, w)
  | .getFinalized, w => (.ok w.chain.finalized, w)
  | .order _, w => (.ok x.order, w)
  | .listing _, w => (.ok x.listing, w)
  | .latestTimestamp, w => (.ok x.timestamp, w)
  | .account _, w => (.ok x.account, w)
  | .kernelNonce _ _, w => (.ok x.nonce, w)
  | .factoryArgs _, w => (.ok (none, none), w)
  | .otherCalls _, w => (.ok x.calls, w)
  | .request _ _, w => (.ok (), w)
  | .respond _ _, w => (.ok (), w)
  | .proceed _, w => (.ok (), w)

/-- **What is answered is an effect.** -/
theorem Responder.effect (x : Responder) (c : Await) (w : World) : Effect c w (x.answer c w).1 (x.answer c w).2 := by
  cases c with
  | transition id c at' =>
    obtain ⟨h₁, h₂, h₃⟩ := committed_frame w (transition id c at' w.rows)
    exact ⟨h₁, h₂, h₃, committed_commits w _⟩
  | admitOperation value =>
    obtain ⟨h₁, h₂, h₃⟩ := committed_frame w (admitOperation w.sessions w.rows value)
    exact ⟨h₁, h₂, h₃, committed_commits w _⟩
  | getBlock n =>
    refine ⟨rfl, rfl, rfl, rfl, ?_⟩
    intro hash h
    change (w.chain.getBlock n).elim (Except.error AppErr.unavailable) Except.ok = Except.ok hash at h
    cases hb : w.chain.getBlock n with
    | none =>
      rw [hb] at h
      cases h
    | some b =>
      rw [hb] at h
      exact congrArg some (Except.ok.inj h)
  | clock => exact ⟨rfl, rfl, rfl, rfl, rfl⟩
  | operation id => exact ⟨rfl, rfl, rfl, rfl, .inl rfl⟩
  | byKey subject key => exact ⟨rfl, rfl, rfl, rfl, .inl rfl⟩
  | pending limit => exact ⟨rfl, rfl, rfl, rfl, .inl rfl⟩
  | policyCandidate sender nonce callData => exact ⟨rfl, rfl, rfl, rfl, .inl rfl⟩
  | getNonce account key => exact ⟨rfl, rfl, rfl, rfl, .inl rfl⟩
  | getTransactionReceipt hash => exact ⟨rfl, rfl, rfl, rfl, .inl rfl⟩
  | getBlockNumber => exact ⟨rfl, rfl, rfl, rfl, .inl rfl⟩
  | getFinalized => exact ⟨rfl, rfl, rfl, rfl, .inl rfl⟩
  | _ => exact ⟨rfl, rfl, rfl, rfl⟩

/-- The beginning, on a chain. -/
def beginning (chain : Chain) (sessions : List StoredSession) : Threads :=
  ⟨⟨⟨[], sessions, chain, 0⟩, []⟩, fun _ => none⟩

abbrev Action := Program.Action Reply AppErr World

/-- What a schedule leads to. -/
def Responder.play (x : Responder) (actions : List Action) (X : Threads) : Threads :=
  actions.foldl (Program.Threads.play x.answer) X

/-- A schedule whose actions are valid is a run of the service. -/
theorem Responder.reachable (x : Responder) {cfg : ServiceConfig} {chain : Chain} {sessions : List StoredSession}
    {actions : List Action} (hc : chain.Valid)
    (h : Action.AllValid x.answer (Starts cfg) Env (beginning chain sessions) actions) :
    Service.Reachable cfg (x.play actions (beginning chain sessions)) :=
  ⟨beginning chain sessions, ⟨⟨rfl, hc⟩, rfl, fun _ => rfl⟩, Program.Threads.play_run x.effect h⟩

/-- Awaits leave the chain. -/
theorem Responder.advance_chain (x : Responder) (i n : Nat) (X : Threads) :
    (Program.Threads.advance x.answer i n X).recorded.state.chain = X.recorded.state.chain := by
  induction n generalizing X with
  | zero => rfl
  | succ n ih =>
    unfold Program.Threads.advance
    split
    · rw [ih]
      exact (x.effect _ X.recorded.state).chain
    · rfl

/-! ## A sample -/

/-- A service that takes the nonce of a user operation for its hash. -/
def sampleConfig : ServiceConfig where
  deployment := ⟨addr 1, addr 2, addr 3, addr 4, true, 1⟩
  environment := 1
  deploymentId := 1
  sponsor := true
  sponsorship := true
  newExposure := true
  maxCostPerOperation := 1000
  validitySeconds := 60
  confirmations := 1
  getUserOperationHash u := u.nonce
  encodeCalls _ _ := []

/-- The bundler knows the transaction 9 of every user operation. -/
def sampleResponder : Responder where
  userOperationReceipt hash := some (hash, 9)
  sendUserOperation u := .ok u.nonce
  sponsorUserOperation _ := ⟨none, none, none, none, none, none, none, none, none, none, none, none, none, none, none⟩
  sessionPaymaster := addr 5
  order := ⟨addr 6, addr 8, .ask, true, none, none⟩
  listing := ⟨addr 6, addr 8, true⟩
  timestamp := 0
  account := addr 7
  nonce := 5
  calls := []

/-- The claim of a bond, for the account 7. -/
def sampleInput : RegisterInput where
  subject := 1
  accountId := 1
  idempotencyKey := 1
  intent := .claimBond
  signingMode := none
  sessionId := none
  nonce := 5
  callData := []
  factory := none
  factoryData := none
  gasPayment := none
  requestHash := 0

def sampleUserOperation : WireUserOperation where
  sender := addr 7
  nonce := 5
  callData := []
  factory := none
  factoryData := none
  signature := some []
  callGasLimit := some 1
  verificationGasLimit := some 1
  preVerificationGas := some 1
  maxFeePerGas := some 1
  maxPriorityFeePerGas := some 1
  paymaster := some (addr 5)
  paymasterData := some []
  paymasterVerificationGasLimit := some 1
  paymasterPostOpGasLimit := some 1

/-- A chain without blocks, on which the nonce 5 is the next. -/
def emptyChain : Chain := ⟨[], 0, fun _ _ => 5⟩

theorem emptyChain_valid : emptyChain.Valid :=
  ⟨List.Pairwise.nil, fun _ hb => absurd hb List.not_mem_nil, List.nodup_nil, fun _ he => absurd he List.not_mem_nil⟩

/-- A chain with one block, in which the user operation has been executed by the transaction 9. -/
def sampleChain (finalized : Nat) : Chain where
  blocks := [⟨1, 100, [⟨9, 1, 100, true, [.userOperationEvent ENTRY_POINT ⟨5, addr 7, 5, true, 3⟩]⟩]⟩]
  finalized := finalized
  sequence _ _ := 6

theorem sampleChain_valid (finalized : Nat) : (sampleChain finalized).Valid where
  numbers := List.pairwise_singleton _ _
  located := by
    rintro b hb r hr
    obtain rfl := List.mem_singleton.mp hb
    obtain rfl := List.mem_singleton.mp hr
    exact ⟨rfl, rfl⟩
  once := List.nodup_singleton _
  used := by
    rintro e he
    obtain rfl := List.mem_singleton.mp he
    exact (by decide : 5 % 2 ^ 64 < 6)

/-- The world goes on with another chain. -/
def withChain (chain : Chain) : Action := .env fun w => { w with chain := chain }

theorem withChain_valid {w : World} {chain : Chain} (hv : chain.Valid) (he : w.chain.Extends chain) :
    Env w { w with chain := chain } :=
  ⟨rfl, Nat.le_refl _, hv, he, fun x hx => ⟨x, hx, rfl, rfl, rfl⟩⟩

/-- An operation is registered by the first thread. -/
def sampleRegistration : List Action := [.start 0 (register sampleConfig sampleInput 1), .run 0 20]

/-- The second thread takes a request for sending it. -/
def sampleRequest : Action := .start 1 (serve sampleConfig 1 (.sendUserOperation sampleUserOperation ENTRY_POINT))

end Cpredict.Operations
