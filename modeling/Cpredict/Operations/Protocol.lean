import Cpredict.Operations.Register

/-!
# The protocol of the service

What a thread of the service may await, by what it has awaited before (`Permits`). Every program of the service
conforms to it (`conforms`), so that what is shown of all runs of the protocol holds of the service
(`Reachable.recorded`).
-/

namespace Cpredict.Operations

open Program

/-! ## What a thread knows -/

/-- The event reads the record. -/
inductive ReadsRecord (r : StoredOperation) : Event → Prop
  | operation {id : Nat} : ReadsRecord r ⟨.operation id, .ok (some r)⟩
  | pending {n : Nat} {items : List StoredOperation} : r ∈ items → ReadsRecord r ⟨.pending n, .ok items⟩

/-- A refresh reads the record of an operation that has been submitted with the hash, and is not final. -/
structure Snapshot (id : Nat) (hash : Bytes32) (r : StoredOperation) (e : Event) : Prop where
  reads : ReadsRecord r e
  id : r.operation.id = id
  hash : r.operation.userOperationHash = some hash
  notFinal : r.operation.finality ≠ .finalized

def receiptRead (transactionHash : Bytes32) (receipt : Receipt) : Event :=
  ⟨.getTransactionReceipt transactionHash, .ok (some receipt)⟩

/-- The chain still has the block of the receipt. -/
def blockRead (receipt : Receipt) : Event := ⟨.getBlock receipt.blockNumber, .ok receipt.blockHash⟩

def headRead (head : Nat) : Event := ⟨.getBlockNumber, .ok head⟩

def finalizedRead (number : Nat) : Event := ⟨.getFinalized, .ok number⟩

/-- Nothing but the head has been read. -/
def OnlyHeads (l : List Event) : Prop := ∀ e ∈ l, ∃ head, e = headRead head

/-- The read of the receipt, and then that of its block. -/
structure ReadsBlock (l : List Event) (e : Event) (transactionHash : Bytes32) (receipt : Receipt) (u v : List Event) :
    Prop where
  whole : l = u ++ blockRead receipt :: v
  first : [e, receiptRead transactionHash receipt].Sublist u

/-- A refresh has found out what it writes of a receipt; its reads come in this order. -/
inductive Settles (cfg : ServiceConfig) (l : List Event) (id : Nat) : Settlement → Prop
  | intro {e : Event} {r : StoredOperation} {hash transactionHash : Bytes32} {receipt : Receipt}
      {event : UserOperationEvent}
      {head : Nat} {u v : List Event} {enough : Bool} {finality : Finality} {settled : Option Nat} :
      Snapshot id hash r e → operationEvent receipt hash r.operation.account r.operation.nonce = .ok event →
      enough = decide (receipt.blockNumber + cfg.confirmations ≤ head + 1) →
      [e, receiptRead transactionHash receipt, headRead head].Sublist l →
      ReadsBlock l e transactionHash receipt u v →
      (finality ≠ .pending → enough = true) →
      (finality = .finalized → ∃ number w z, receipt.blockNumber ≤ number ∧ v = w ++ finalizedRead number :: z ∧
        OnlyHeads w) →
      Settles cfg l id
        (settlement transactionHash receipt event (depositVerified r.operation hash receipt event) enough
          finality settled)

/-- A refresh has seen that nobody knows a user operation, whose admission has expired. -/
inductive Closes (l : List Event) (id : Nat) : Prop
  | intro {e : Event} {r : StoredOperation} {hash : Bytes32} {now : Nat} :
      Snapshot id hash r e → r.operation.state = .unknown → r.operation.expiresAt ≤ now →
      [e, ⟨.userOperationReceipt hash, .ok none⟩, ⟨.clock, .ok now⟩,
        ⟨.getNonce r.operation.account (r.operation.nonce / 2 ^ 64), .ok r.operation.nonce⟩].Sublist l → Closes l id

/-- A request for sending the user operation. -/
def Rpc.Sends (rpc : Rpc) (u : WireUserOperation) : Prop := ∃ entryPoint, rpc = .sendUserOperation u entryPoint

/-- The thread has taken the request, and read the operation. -/
structure Requested (l : List Event) (id : Nat) (u : WireUserOperation) (r : StoredOperation) : Prop where
  request : ∃ rpc, rpc.Sends u ∧ ⟨.request id rpc, .ok ()⟩ ∈ l
  operation : ⟨.operation id, .ok (some r)⟩ ∈ l
  binding : assertOperationBinding r.operation u = .ok ()
  ceiling : assertGasCeiling r.operation u true = .ok ()

/-- The thread has learned the hash of the operation: by reading it, or by setting it. -/
def Knows (l : List Event) (id : Nat) (hash : Bytes32) : Prop :=
  ∃ r, ⟨.operation id, .ok (some r)⟩ ∈ l ∧ (r.operation.userOperationHash = some hash ∨
    (∃ at' c b x, ⟨.transition r.operation.id c at', .ok (b, x)⟩ ∈ l ∧ x.operation.userOperationHash = some hash) ∨
    ∃ at' x, ⟨.transition r.operation.id (.submit hash) at', .ok (true, x)⟩ ∈ l)

/-- A record at its admission. -/
structure Fresh (cfg : ServiceConfig) (o : Operation) : Prop where
  state : o.state = .awaitingSignature
  providerOperationId : o.providerOperationId = none
  userOperationHash : o.userOperationHash = none
  transactionHash : o.transactionHash = none
  blockNumber : o.blockNumber = none
  blockHash : o.blockHash = none
  actualGasCost : o.actualGasCost = none
  finality : o.finality = .pending
  sponsorshipAttempted : o.sponsorshipAttempted = some false
  gasSettledAt : o.gasSettledAt = none
  gasReleasedAt : o.gasReleasedAt = none
  session : o.signingMode = some .session ↔ o.sessionId.isSome = true
  /-- The calls that a session signs are those of the intent. -/
  calls : o.sessionId.isSome = true → ∃ order nowSeconds calls,
    callsOf cfg.deployment o.account order nowSeconds o.intent = .ok calls ∧
    o.callData = cfg.encodeCalls o.sessionId (calls.map fun c => { c with value := 0 })

/-- The thread has not begun with a request for sending. -/
def Unsent (l : List Event) : Prop := ∃ e m, l = e :: m ∧ ∀ id rpc u, e.cmd = .request id rpc → ¬rpc.Sends u

/-- The thread has begun with a request for sending the user operation. -/
def Sending (l : List Event) (id : Nat) (u : WireUserOperation) : Prop :=
  ∃ rpc m, rpc.Sends u ∧ l = ⟨.request id rpc, .ok ()⟩ :: m

/-- The answers to a request: only one for sending is answered by a hash, which is that of its user operation. -/
def Answerable (cfg : ServiceConfig) (l : List Event) (id : Nat) : Answer → Prop
  | .userOperationHash hash => Knows l id hash ∧ ∃ u, Sending l id u ∧ cfg.getUserOperationHash u = hash
  | .result => Unsent l

/-! ## What a thread may await -/

def Permits (cfg : ServiceConfig) (l : List Event) : Await → Prop
  | .sendUserOperation id u => ∃ m at' x r request, l = m ++
      [⟨.transition r.operation.id (.submit (cfg.getUserOperationHash u)) at', .ok (true, x)⟩] ∧
      Requested m request u r ∧ x.operation.id = id
  | .bundler | .userOperationReceipt _ => Unsent l
  | .sponsorUserOperation id _ => ∃ m id' at' x, l = m ++ [⟨.transition id' .sponsor at', .ok (true, x)⟩] ∧
      x.operation.id = id
  | .proceed id => ∃ m at' x, l = m ++ [⟨.transition id .proceed at', .ok (true, x)⟩]
  | .request _ _ => l = []
  | .respond id answer => Answerable cfg l id answer
  | .transition id (.submit hash) _ => ∃ u r request, Requested l request u r ∧ r.operation.id = id ∧
      cfg.getUserOperationHash u = hash
  | .transition id (.settle s) _ => Settles cfg l id s
  | .transition id .reorganized _ => ∃ e r hash, Snapshot id hash r e ∧ e ∈ l
  | .transition id .closeUnaccepted _ => Closes l id
  | .admitOperation value => Fresh cfg value.operation
  | _ => True

/-- The programs of the service. -/
inductive Starts (cfg : ServiceConfig) : Prog Unit → Prop
  | serve (operationId : Nat) (rpc : Rpc) : Starts cfg (serve cfg operationId rpc)
  | policy (body : Option WireUserOperation) : Starts cfg (policy cfg body)
  | cancel (id : Nat) : Starts cfg (cancel id)
  | query (headFirst : Bool) (id : Nat) : Starts cfg (query cfg headFirst id)
  | tick (headFirst : Nat → Bool) : Starts cfg (tick cfg headFirst)
  | register (input : RegisterInput) (id : Nat) : Starts cfg (register cfg input id)

/-! ## The programs conform -/

/-- What neither asks for a request nor needs a permit. -/
def Await.isHarmless : Await → Bool
  | .check _ | .clock | .sessionPaymaster _ => true
  | _ => false

section

variable {cfg : ServiceConfig} {l : List Event}

/-- The awaits after `l` are harmless. -/
def Quiet (l m : List Event) : Prop := ∃ n, m = l ++ n ∧ ∀ e ∈ n, e.cmd.isHarmless = true

theorem Quiet.refl (l : List Event) : Quiet l l := ⟨[], (List.append_nil l).symm, by simp⟩

theorem Quiet.trans {l m k : List Event} (h : Quiet l m) (h' : Quiet m k) : Quiet l k := by
  obtain ⟨n, rfl, hn⟩ := h
  obtain ⟨n', rfl, hn'⟩ := h'
  refine ⟨n ++ n', by simp, ?_⟩
  intro e he
  rcases List.mem_append.mp he with he | he
  · exact hn e he
  · exact hn' e he

theorem Quiet.extend {m : List Event} (h : Quiet l m) {c : Await} {r : Except AppErr (Reply c)}
    (hc : c.isHarmless = true) :
    Quiet l (m ++ [⟨c, r⟩]) := by
  refine h.trans ⟨_, rfl, ?_⟩
  simp [hc]

theorem ensure_bind {α : Type} {c : Prop} [Decidable c] {e : AppErr} {f : Unit → Prog α} {S : α → List Event → Prop}
    (h : c → (f ()).Conforms (Permits cfg) S l) : (ensure c e >>= f).Conforms (Permits cfg) S l := by
  unfold ensure
  split
  · rename_i hc
    exact h hc
  · trivial

theorem ensure_conforms {c : Prop} [Decidable c] {e : AppErr} {S : Unit → List Event → Prop} (h : c → S () l) :
    (ensure c e).Conforms (Permits cfg) S l := by
  unfold ensure
  split
  · rename_i hc
    exact h hc
  · trivial

theorem ownedOperation_conforms (id : Nat) :
    (ownedOperation id).Conforms (Permits cfg)
      (fun o m => ∃ r, o = r.operation ∧ Quiet (l ++ [⟨.operation id, .ok (some r)⟩]) m) l := by
  unfold ownedOperation
  refine Conforms.await_bind (by trivial) ?_
  intro found
  cases found with
  | none => exact Conforms.fail
  | some r =>
    refine Conforms.await_bind (by trivial) ?_
    intro _
    exact ⟨r, rfl, (Quiet.refl _).extend rfl⟩

/-! ### The gateway -/

theorem checkRequest_conforms (o : Operation) (u : WireUserOperation) (entryPoint : Address) (sends : Bool) :
    (checkRequest o u entryPoint sends).Conforms (Permits cfg)
      (fun _ m => Quiet l m ∧ assertOperationBinding o u = .ok () ∧ assertGasCeiling o u sends = .ok ()) l := by
  unfold checkRequest
  refine ensure_bind ?_
  intro _
  refine Conforms.ofExcept_bind ?_
  intro _ hb
  refine Conforms.ofExcept_bind ?_
  intro _ hg
  split
  · refine Conforms.await_bind (by trivial) ?_
    intro paymaster
    refine ensure_conforms ?_
    intro _
    exact ⟨(Quiet.refl l).extend rfl, hb, hg⟩
  · exact ⟨Quiet.refl l, hb, hg⟩

theorem checkDeposit_conforms (o : Operation) :
    (checkDeposit o).Conforms (Permits cfg) (fun _ m => Quiet l m) l := by
  unfold checkDeposit
  split
  · refine Conforms.await (by trivial) ?_
    intro _
    exact (Quiet.refl l).extend rfl
  · exact Quiet.refl l

theorem checkOperation_conforms (o : Operation) :
    (checkOperation o).Conforms (Permits cfg) (fun _ m => Quiet l m) l := by
  unfold checkOperation
  refine Conforms.await_bind (by trivial) ?_
  intro now
  refine ensure_bind ?_
  intro _
  refine Conforms.await_bind (by trivial) ?_
  intro _
  refine Conforms.await_bind (by trivial) ?_
  intro _
  refine (checkDeposit_conforms o).mono ?_
  rintro _ m - hm
  exact (((Quiet.refl l).extend rfl).extend rfl).extend rfl |>.trans hm

/-- A request with a user operation answers by the record, or goes on when the operation has not been submitted. -/
theorem requestWith_conforms {o : Operation} {u : WireUserOperation} {entryPoint : Address} {sends : Bool}
    {go : Prog Answer}
    {S : Answer → List Event → Prop}
    (hanswer : ∀ m, Quiet l m → o.userOperationHash = some (cfg.getUserOperationHash u) → sends = true →
      S (.userOperationHash (cfg.getUserOperationHash u)) m)
    (hgo : ∀ m, Quiet l m → assertOperationBinding o u = .ok () → assertGasCeiling o u sends = .ok () →
      go.Conforms (Permits cfg) S m) :
    (requestWith cfg o u entryPoint sends go).Conforms (Permits cfg) S l := by
  unfold requestWith
  refine (checkRequest_conforms o u entryPoint sends).bind ?_
  rintro _ m - ⟨hm, hb, hg⟩
  cases ho : o.userOperationHash with
  | none =>
    refine (checkOperation_conforms o).bind ?_
    rintro _ n - hn
    exact hgo n (hm.trans hn) hb hg
  | some hash =>
    dsimp only
    split
    · rename_i hsends
      obtain ⟨hs, rfl⟩ := hsends
      exact hanswer m hm ho hs
    · trivial

/-- The thread `l` has only taken the request, so far. -/
theorem Quiet.mem {l m : List Event} (h : Quiet l m) {e : Event} (he : e ∈ l) : e ∈ m := by
  obtain ⟨n, rfl, -⟩ := h
  exact List.mem_append_left n he

/-- The awaits of a thread that has taken a request stay. -/
theorem Requested.extend {l m : List Event} {id : Nat} {u : WireUserOperation} {r : StoredOperation}
    (h : Requested l id u r)
    (hm : l <+: m) : Requested m id u r where
  request := h.request.imp fun _ hr => ⟨hr.1, hm.subset hr.2⟩
  operation := hm.subset h.operation
  binding := h.binding
  ceiling := h.ceiling

theorem Sending.extend {l m : List Event} {id : Nat} {u : WireUserOperation} (h : Sending l id u) (hm : l <+: m) :
    Sending m id u := by
  obtain ⟨rpc, k, hu, rfl⟩ := h
  obtain ⟨n, rfl⟩ := hm
  exact ⟨rpc, k ++ n, hu, rfl⟩

theorem send_conforms {id : Nat} {u : WireUserOperation} {r : StoredOperation} (h : Requested l id u r)
    (hl : Sending l id u) :
    (send cfg r.operation u).Conforms (Permits cfg) (fun a m => Answerable cfg m id a) l := by
  unfold send
  refine Conforms.await_bind (by trivial) ?_
  intro now
  have h' := h.extend (List.prefix_append l [⟨.clock, .ok now⟩])
  refine Conforms.await_bind ⟨u, r, id, h', rfl, rfl⟩ ?_
  rintro ⟨changed, x⟩
  have hr : ∀ {k : List Event}, ⟨.operation id, .ok (some r)⟩ ∈ (l ++ [⟨.clock, .ok now⟩]) ++ k :=
    List.mem_append_left _ h'.operation
  have hs : ∀ {k : List Event}, Sending ((l ++ [⟨.clock, .ok now⟩]) ++ k) id u := fun {k} =>
    hl.extend (List.append_assoc l _ k ▸ List.prefix_append l _)
  dsimp only
  split
  · split
    · rename_i hx
      exact ⟨⟨r, hr, .inr (.inl ⟨now, .submit (cfg.getUserOperationHash u), changed, x, by simp, hx⟩)⟩, u, hs, rfl⟩
    · exact Conforms.fail
  · rename_i hc
    obtain rfl : changed = true := by simpa using hc
    refine Conforms.attempt_bind ⟨_, now, x, r, id, rfl, h', rfl⟩ ?_
    intro returned
    cases returned with
    | ok returned =>
      dsimp only
      split
      · exact ⟨⟨r, List.mem_append_left _ hr, .inr (.inr ⟨now, x, by simp⟩)⟩, u, hs.extend (List.prefix_append _ _),
          rfl⟩
      · refine Conforms.await_bind (by trivial) ?_
        intro _
        refine Conforms.await_bind (by trivial) ?_
        intro _
        exact Conforms.fail
    | error e =>
      refine Conforms.await_bind (by trivial) ?_
      intro _
      refine Conforms.await_bind (by trivial) ?_
      intro _
      exact Conforms.fail

theorem sponsor_conforms (o : Operation) (u : WireUserOperation) :
    (sponsor o u).Conforms (Permits cfg) (fun a _ => a = .result) l := by
  unfold sponsor
  refine Conforms.await_bind (by trivial) ?_
  intro now
  refine Conforms.await_bind (by trivial) ?_
  rintro ⟨changed, x⟩
  dsimp only
  split
  · exact Conforms.fail
  · rename_i hc
    obtain rfl : changed = true := by simpa using hc
    refine Conforms.await_bind ⟨_, o.id, now, x, rfl, rfl⟩ ?_
    intro result
    refine Conforms.ofExcept_bind ?_
    intro _ _
    refine Conforms.ofExcept_bind ?_
    intro _ _
    rfl

theorem Unsent.extend {l m : List Event} (h : Unsent l) (hm : l <+: m) : Unsent m := by
  obtain ⟨e, k, rfl, he⟩ := h
  obtain ⟨n, rfl⟩ := hm
  exact ⟨e, k ++ n, rfl, he⟩

theorem Quiet.le {l m : List Event} (h : Quiet l m) : l <+: m := by
  obtain ⟨n, rfl, -⟩ := h
  exact List.prefix_append l n

/-- The program asks the bundler, and answers with what it says. -/
theorem bundler_conforms {S : Answer → List Event → Prop} (h : Unsent l) (hS : ∀ m, Unsent m → S .result m) :
    (do
      let _ ← ask .bundler
      .ret .result : Prog Answer).Conforms (Permits cfg) S l := by
  refine Conforms.await_bind h ?_
  intro _
  exact hS _ (h.extend (List.prefix_append l _))

theorem request_conforms (id : Nat) (rpc : Rpc) :
    (request cfg id rpc).Conforms (Permits cfg) (fun a m => Answerable cfg m id a) [⟨.request id rpc, .ok ()⟩] := by
  unfold request
  refine (ownedOperation_conforms id).bind ?_
  rintro _ m - ⟨r, rfl, hm⟩
  have hunsent : (∀ u, ¬rpc.Sends u) → Unsent m := by
    intro hs
    refine Unsent.extend ⟨_, [⟨.operation id, .ok (some r)⟩], rfl, ?_⟩ hm.le
    rintro id' rpc' u ⟨⟩
    exact hs u
  have hread : ⟨.operation id, .ok (some r)⟩ ∈ m := hm.mem (by simp)
  have hrequest : ⟨.request id rpc, .ok ()⟩ ∈ m := hm.mem (by simp)
  cases rpc with
  | getUserOperationReceipt hash =>
    refine ensure_bind ?_
    intro _
    exact bundler_conforms (hunsent (by rintro u ⟨_, ⟨⟩⟩)) fun _ h => h
  | getUserOperationGasPrice =>
    refine ensure_bind ?_
    intro _
    exact bundler_conforms (hunsent (by rintro u ⟨_, ⟨⟩⟩)) fun _ h => h
  | sponsorUserOperation u entryPoint =>
    refine ensure_bind ?_
    intro _
    refine ensure_bind ?_
    intro _
    refine requestWith_conforms (by rintro _ _ _ ⟨⟩) ?_
    intro n hn _ _
    refine (sponsor_conforms r.operation u).mono ?_
    rintro _ k hk rfl
    exact (hunsent (by rintro u ⟨_, ⟨⟩⟩)).extend (hn.le.trans hk)
  | estimateUserOperationGas u entryPoint =>
    refine ensure_bind ?_
    intro _
    refine requestWith_conforms (by rintro _ _ _ ⟨⟩) ?_
    intro n hn _ _
    exact bundler_conforms ((hunsent (by rintro u ⟨_, ⟨⟩⟩)).extend hn.le) fun _ h => h
  | sendUserOperation u entryPoint =>
    refine ensure_bind ?_
    intro _
    have hsends : Sending m id u := Sending.extend ⟨_, [⟨.operation id, .ok (some r)⟩], ⟨entryPoint, rfl⟩, rfl⟩ hm.le
    refine requestWith_conforms ?_ ?_
    · intro n hn ho _
      exact ⟨⟨r, hn.mem hread, .inl ho⟩, u, hsends.extend hn.le, rfl⟩
    · intro n hn hb hg
      exact send_conforms ⟨⟨_, ⟨entryPoint, rfl⟩, hn.mem hrequest⟩, hn.mem hread, hb, hg⟩ (hsends.extend hn.le)
  | other =>
    refine ensure_bind ?_
    intro _
    exact Conforms.fail

theorem serve_conforms (id : Nat) (rpc : Rpc) : (serve cfg id rpc).Conforms (Permits cfg) (fun _ _ => True) [] := by
  unfold serve
  refine Conforms.await_bind rfl ?_
  intro _
  refine (request_conforms id rpc).bind ?_
  intro answer m _ hm
  exact Conforms.await hm fun _ => trivial

/-! ### The policy -/

theorem checkSession_conforms (o : Operation) :
    (checkSession o).Conforms (Permits cfg) (fun _ m => Quiet l m) l := by
  unfold checkSession
  split
  · refine Conforms.await_bind (by trivial) ?_
    intro _
    refine Conforms.await (by trivial) ?_
    intro _
    exact ((Quiet.refl l).extend rfl).extend rfl
  · exact Quiet.refl l

/-- The last await is the acknowledged mark of the operation. -/
def Marked (a : Option Nat) (m : List Event) : Prop :=
  ∀ id, a = some id → ∃ k at' x, m = k ++ [⟨.transition id .proceed at', .ok (true, x)⟩]

theorem markProceed_conforms (o : Operation) : (markProceed o).Conforms (Permits cfg) Marked l := by
  unfold markProceed
  refine Conforms.await_bind (by trivial) ?_
  intro now
  refine Conforms.await_bind (by trivial) ?_
  rintro ⟨changed, x⟩
  dsimp only
  split
  · rename_i hc
    obtain rfl : changed = true := hc
    rintro id ⟨⟩
    exact ⟨_, now, x, rfl⟩
  · rintro id ⟨⟩

theorem admitted_conforms (u : WireUserOperation) : (admitted u).Conforms (Permits cfg) Marked l := by
  unfold admitted
  refine Conforms.await_bind (by trivial) ?_
  intro found
  cases found with
  | none => rintro id ⟨⟩
  | some record =>
    dsimp only
    split
    · rintro id ⟨⟩
    · refine (checkSession_conforms record.operation).bind ?_
      intro _ m _ _
      refine Conforms.await_bind (by trivial) ?_
      intro now
      split
      · rintro id ⟨⟩
      · refine Conforms.ofExcept_bind ?_
        intro _ _
        refine (checkDeposit_conforms record.operation).bind ?_
        intro _ _ _ _
        refine Conforms.ofExcept_bind ?_
        intro _ _
        exact markProceed_conforms record.operation

theorem policy_conforms (body : Option WireUserOperation) :
    (policy cfg body).Conforms (Permits cfg) (fun _ _ => True) [] := by
  unfold policy
  split
  · trivial
  · cases body with
    | none => trivial
    | some u =>
      refine (admitted_conforms u).attempt.bind ?_
      rintro r m - ⟨-, hm⟩
      cases r with
      | error e => trivial
      | ok a =>
        cases a with
        | none => trivial
        | some id => exact Conforms.await (hm _ rfl id rfl) fun _ => trivial

theorem cancel_conforms (id : Nat) : (cancel id).Conforms (Permits cfg) (fun _ _ => True) [] := by
  unfold cancel
  refine (ownedOperation_conforms id).bind ?_
  intro _ _ _ _
  refine Conforms.await_bind (by trivial) ?_
  intro now
  refine Conforms.await_bind (by trivial) ?_
  rintro ⟨changed, x⟩
  exact ensure_conforms fun _ => trivial

/-! ### The recovery -/

theorem write_conforms {id : Nat} {c : Change}
    (h : ∀ now, Permits cfg (l ++ [⟨.clock, .ok now⟩]) (.transition id c now)) :
    (write id c).Conforms (Permits cfg) (fun _ _ => True) l := by
  unfold write
  refine Conforms.await_bind (by trivial) ?_
  intro now
  refine Conforms.await_bind (h now) ?_
  rintro ⟨changed, x⟩
  trivial

theorem sublist_extend {a l : List Event} (h : a.Sublist l) (m : List Event) : a.Sublist (l ++ m) :=
  h.trans (List.sublist_append_left l m)

/-- The newest await comes last. -/
theorem sublist_concat {a l : List Event} (h : a.Sublist l) (e : Event) : (a ++ [e]).Sublist (l ++ [e]) :=
  h.append (List.Sublist.refl [e])

theorem readFinality_conforms (receipt : Receipt) (enough : Bool) :
    (readFinality receipt enough).Conforms (Permits cfg) (fun finality m => (finality ≠ .pending → enough = true) ∧
      (finality = .finalized → ∃ number, receipt.blockNumber ≤ number ∧ m = l ++ [finalizedRead number])) l := by
  unfold readFinality
  split
  · exact ⟨fun h => absurd rfl h, nofun⟩
  · rename_i henough
    have hc : enough = true := by simpa using henough
    refine Conforms.attempt_bind (by trivial) ?_
    intro number
    cases number with
    | ok number =>
      dsimp only
      split
      · rename_i hn
        exact ⟨fun _ => hc, fun _ => ⟨number, hn, rfl⟩⟩
      · exact ⟨fun _ => hc, nofun⟩
    | error e => exact ⟨fun _ => hc, nofun⟩

theorem settledAt_conforms (o : Operation) : (settledAt o).Conforms (Permits cfg) (fun _ _ => True) l := by
  unfold settledAt
  split
  · trivial
  · exact Conforms.await (by trivial) fun _ => trivial

section

variable {e : Event} {r : StoredOperation} {id : Nat} {hash transactionHash : Bytes32} {receipt : Receipt}

theorem settle_conforms {event : UserOperationEvent} {head : Nat} {u v : List Event}
    (hs : Snapshot r.operation.id hash r e)
    (he : operationEvent receipt hash r.operation.account r.operation.nonce = .ok event)
    (hh : [e, receiptRead transactionHash receipt, headRead head].Sublist l)
    (hb : ReadsBlock l e transactionHash receipt u v) (hv : OnlyHeads v) :
    (settle r.operation transactionHash receipt event (depositVerified r.operation hash receipt event)
      (decide (receipt.blockNumber + cfg.confirmations ≤ head + 1))).Conforms (Permits cfg) (fun _ _ => True) l := by
  unfold settle
  refine (readFinality_conforms receipt _).bind ?_
  rintro finality m hm ⟨henough, hfinal⟩
  have hsettles : ∀ n settled, m <+: n → Settles cfg n r.operation.id (settlement transactionHash receipt event
      (depositVerified r.operation hash receipt event)
      (decide (receipt.blockNumber + cfg.confirmations ≤ head + 1)) finality settled) := by
    rintro n settled ⟨k, rfl⟩
    obtain ⟨k', rfl⟩ := hm
    have hread : ReadsBlock (l ++ k' ++ k) e transactionHash receipt u (v ++ (k' ++ k)) :=
      ⟨by simp [hb.whole], hb.first⟩
    refine .intro hs he rfl (hh.trans (by simp)) hread henough ?_
    intro hc
    obtain ⟨number, hnumber, hk⟩ := hfinal hc
    obtain rfl := List.append_cancel_left hk
    exact ⟨number, v, k, hnumber, by simp, hv⟩
  split
  · refine (settledAt_conforms r.operation).bind ?_
    intro t n hn _
    exact write_conforms fun now => hsettles _ _ (hn.trans (List.prefix_append n _))
  · exact write_conforms fun now => hsettles _ _ (List.prefix_append m _)

theorem reorganized_conforms (hs : Snapshot r.operation.id hash r e) (he : e ∈ l) :
    (write r.operation.id .reorganized).Conforms (Permits cfg) (fun _ _ => True) l :=
  write_conforms fun _ => ⟨e, r, hash, hs, List.mem_append_left _ he⟩

theorem readBlocks_conforms (headFirst : Bool) (number : Nat) :
    (readBlocks headFirst number).Conforms (Permits cfg) (fun x m =>
      ∃ u v, m = l ++ (u ++ ⟨.getBlock number, .ok x.2⟩ :: v) ∧ headRead x.1 ∈ u ++ v ∧ OnlyHeads v) l := by
  unfold readBlocks
  split
  · refine Conforms.await_bind (by trivial) ?_
    intro head
    refine Conforms.await_bind (by trivial) ?_
    intro block
    exact ⟨[headRead head], [], List.append_assoc _ _ _, by simp, fun _ h => absurd h List.not_mem_nil⟩
  · refine Conforms.await_bind (by trivial) ?_
    intro block
    refine Conforms.await_bind (by trivial) ?_
    intro head
    refine ⟨[], [headRead head], List.append_assoc _ _ _, by simp, ?_⟩
    intro x hx
    exact ⟨head, List.mem_singleton.mp hx⟩

theorem refreshTransaction_conforms (headFirst : Bool) (hs : Snapshot r.operation.id hash r e) (he : e ∈ l) :
    (refreshTransaction cfg headFirst r.operation hash transactionHash).Conforms (Permits cfg) (fun _ _ => True) l := by
  unfold refreshTransaction
  refine Conforms.attempt_bind (by trivial) ?_
  intro found
  cases found with
  | error err => exact Conforms.fail
  | ok found =>
    cases found with
    | none => exact reorganized_conforms hs (List.mem_append_left _ he)
    | some receipt =>
      refine Conforms.ofExcept_bind ?_
      intro event hev
      refine (readBlocks_conforms headFirst receipt.blockNumber).bind ?_
      rintro ⟨head, block⟩ m - ⟨u, v, rfl, hh, hv⟩
      dsimp only at hh ⊢
      have hfirst : [e, receiptRead transactionHash receipt].Sublist
          (l ++ [⟨.getTransactionReceipt transactionHash, .ok (some receipt)⟩]) :=
        sublist_concat (List.singleton_sublist.mpr he) _
      split
      · exact reorganized_conforms hs (by simp [he])
      · rename_i hblock
        obtain rfl : block = receipt.blockHash := not_not.mp hblock
        refine settle_conforms hs hev ?_ ⟨(List.append_assoc _ u _).symm, sublist_extend hfirst u⟩ hv
        have hmem : headRead head ∈ u ++ ⟨.getBlock receipt.blockNumber, .ok receipt.blockHash⟩ :: v := by
          rcases List.mem_append.mp hh with hu | hv'
          · exact List.mem_append_left _ hu
          · exact List.mem_append_right u (List.mem_cons_of_mem _ hv')
        exact hfirst.append (List.singleton_sublist.mpr hmem)

theorem cancelExpiredUnaccepted_conforms (hs : Snapshot r.operation.id hash r e)
    (hl : [e, ⟨.userOperationReceipt hash, .ok none⟩].Sublist l) :
    (cancelExpiredUnaccepted r.operation).Conforms (Permits cfg) (fun _ _ => True) l := by
  unfold cancelExpiredUnaccepted
  split
  · trivial
  · rename_i hstate
    refine Conforms.await_bind (by trivial) ?_
    intro now
    split
    · trivial
    · rename_i hnow
      refine Conforms.await_bind (by trivial) ?_
      intro nonce
      split
      · trivial
      · rename_i hnonce
        obtain rfl : nonce = r.operation.nonce := not_not.mp hnonce
        have hw : (write r.operation.id .closeUnaccepted).Conforms (Permits cfg) (fun _ _ => True)
            ((l ++ [⟨.clock, .ok now⟩]) ++
              [⟨.getNonce r.operation.account (r.operation.nonce / 2 ^ 64), .ok r.operation.nonce⟩]) := by
          refine write_conforms fun _ => ?_
          refine .intro hs (not_not.mp hstate) (not_lt.mp hnow) ?_
          exact sublist_extend (sublist_concat (sublist_concat hl _) _) _
        refine hw.bind ?_
        intros
        trivial

theorem refreshSubmitted_conforms (headFirst : Bool) (hs : Snapshot r.operation.id hash r e) (he : e ∈ l)
    (hl : Unsent l) :
    (refreshSubmitted cfg headFirst r.operation hash).Conforms (Permits cfg) (fun _ _ => True) l := by
  unfold refreshSubmitted
  cases r.operation.transactionHash with
  | some transactionHash => exact refreshTransaction_conforms headFirst hs he
  | none =>
    refine Conforms.await_bind hl ?_
    intro found
    cases found with
    | none =>
      refine (cancelExpiredUnaccepted_conforms hs (sublist_concat (List.singleton_sublist.mpr he) _)).bind ?_
      intro closed m _ _
      cases closed with
      | some cancelled => trivial
      | none => exact write_conforms fun _ => trivial
    | some found =>
      refine ensure_bind ?_
      intro _
      exact refreshTransaction_conforms headFirst hs (List.mem_append_left _ he)

theorem refresh_conforms (headFirst : Bool) (hr : ReadsRecord r e) (he : e ∈ l) (hl : Unsent l) :
    (refresh cfg headFirst r.operation).Conforms (Permits cfg) (fun _ _ => True) l := by
  unfold refresh
  cases hh : r.operation.userOperationHash with
  | none =>
    dsimp only
    split
    · refine Conforms.await_bind (by trivial) ?_
      intro now
      split
      · exact write_conforms fun _ => trivial
      · trivial
    · trivial
  | some hash =>
    dsimp only
    split
    · trivial
    · rename_i hfinal
      exact refreshSubmitted_conforms headFirst ⟨hr, rfl, hh, hfinal⟩ he hl

end

theorem query_conforms (headFirst : Bool) (id : Nat) : (query cfg headFirst id).Conforms (Permits cfg)
    (fun _ _ => True) [] := by
  unfold query
  refine (ownedOperation_conforms id).bind ?_
  rintro _ m - ⟨r, rfl, hm⟩
  have hl : Unsent m := by
    refine Unsent.extend ⟨_, [], rfl, ?_⟩ hm.le
    rintro id' rpc' u ⟨⟩
  refine (refresh_conforms headFirst (e := ⟨.operation id, .ok (some r)⟩) .operation (hm.mem (by simp)) hl).bind ?_
  intros
  trivial

theorem refreshAll_conforms (headFirst : Nat → Bool) {items rest : List StoredOperation} {n : Nat}
    (hrest : ∀ r ∈ rest, r ∈ items) (hl : ⟨.pending n, .ok items⟩ ∈ l)
    (hunsent : Unsent l) :
    (refreshAll cfg headFirst rest).Conforms (Permits cfg) (fun _ _ => True) l := by
  induction rest generalizing l with
  | nil => trivial
  | cons r rest ih =>
    unfold refreshAll
    have hr : ReadsRecord r ⟨.pending n, .ok items⟩ := .pending (hrest r List.mem_cons_self)
    refine (refresh_conforms (headFirst r.operation.id) hr hl hunsent).attempt.bind ?_
    rintro _ m hm -
    exact ih (fun x hx => hrest x (List.mem_cons_of_mem r hx)) (hm.subset hl) (hunsent.extend hm)

theorem tick_conforms (headFirst : Nat → Bool) : (tick cfg headFirst).Conforms (Permits cfg) (fun _ _ => True) [] := by
  unfold tick
  refine Conforms.await_bind (by trivial) ?_
  intro items
  refine refreshAll_conforms headFirst (fun _ h => h) (List.mem_singleton_self _) ⟨_, [], rfl, ?_⟩
  rintro id rpc u ⟨⟩

/-! ### Registration -/

theorem checkOrder_conforms (account : Address) (intent : BusinessIntent) (order : OrderView) :
    (checkOrder cfg account intent order).Conforms (Permits cfg) (fun _ _ => True) l := by
  unfold checkOrder
  refine ensure_bind ?_
  intro _
  split
  · exact ensure_conforms fun _ => trivial
  · refine Conforms.ofExcept_bind ?_
    intro _ _
    exact ensure_conforms fun _ => trivial

theorem admittedOrder_conforms (account : Address) (intent : BusinessIntent) :
    (admittedOrder cfg account intent).Conforms (Permits cfg) (fun _ _ => True) l := by
  unfold admittedOrder
  cases intent.orderId with
  | none => trivial
  | some id =>
    refine Conforms.await_bind (by trivial) ?_
    intro order
    refine (checkOrder_conforms account intent order).bind ?_
    intros
    trivial

theorem admittedListing_conforms (account : Address) (intent : BusinessIntent) :
    (admittedListing account intent).Conforms (Permits cfg) (fun _ _ => True) l := by
  unfold admittedListing
  cases intent.listingId with
  | none => trivial
  | some id =>
    refine Conforms.await_bind (by trivial) ?_
    intro listing
    refine ensure_bind ?_
    intro _
    refine ensure_bind ?_
    intro _
    trivial

theorem checkMarket_conforms (intent : BusinessIntent) (market : Option Address) :
    (checkMarket intent market).Conforms (Permits cfg) (fun _ _ => True) l := by
  unfold checkMarket
  cases market with
  | none => trivial
  | some market =>
    refine Conforms.await_bind (by trivial) ?_
    intro _
    split
    · exact Conforms.await (by trivial) fun _ => trivial
    · trivial

theorem buildBusinessCalls_conforms (account : Address) (intent : BusinessIntent) (nowSeconds : Nat) :
    (buildBusinessCalls cfg account intent nowSeconds).Conforms (Permits cfg) (fun calls _ =>
      supportsQuickTrading intent = true → ∃ order, callsOf cfg.deployment account order nowSeconds intent =
        .ok calls) l := by
  unfold buildBusinessCalls
  refine ensure_bind ?_
  intro _
  split
  · rename_i hs
    refine Conforms.await (by trivial) ?_
    intro _ hq
    rw [hq] at hs
    cases hs
  · refine ensure_bind ?_
    intro _
    refine (admittedOrder_conforms account intent).bind ?_
    intro order _ _ _
    refine ensure_bind ?_
    intro _
    refine (admittedListing_conforms account intent).bind ?_
    intro listing _ _ _
    refine (checkMarket_conforms intent _).bind ?_
    intro _ _ _ _
    refine ensure_bind ?_
    intro _
    refine ensure_bind ?_
    intro _
    refine ensure_bind ?_
    intro _
    refine Conforms.ofExcept ?_
    intro calls hc _
    exact ⟨order, hc⟩

theorem checkInput_conforms (input : RegisterInput) :
    (checkInput input).Conforms (Permits cfg) (fun _ _ =>
      (input.signingMode = some .session ↔ input.sessionId.isSome = true) ∧
        (input.sessionId.isSome = true → supportsQuickTrading input.intent = true)) l := by
  unfold checkInput
  refine ensure_bind ?_
  intro hmode
  refine ensure_bind ?_
  intro _
  cases hs : input.sessionId with
  | none =>
    rw [hs] at hmode
    dsimp only
    split
    · exact Conforms.await (by trivial) fun _ => ⟨hmode, nofun⟩
    · exact ⟨hmode, nofun⟩
  | some id =>
    rw [hs] at hmode
    refine ensure_bind ?_
    intro hq
    exact Conforms.await (by trivial) fun _ => ⟨hmode, fun _ => hq⟩

theorem prepare_conforms (input : RegisterInput) :
    (prepare cfg input).Conforms (Permits cfg) (fun prepared _ =>
      (input.signingMode = some .session ↔ input.sessionId.isSome = true) ∧
        (input.sessionId.isSome = true → ∃ order nowSeconds calls,
          callsOf cfg.deployment prepared.account order nowSeconds input.intent = .ok calls ∧
          prepared.callData = cfg.encodeCalls input.sessionId (calls.map fun c => { c with value := 0 }))) l := by
  unfold prepare
  refine ensure_bind ?_
  intro _
  refine Conforms.await_bind (by trivial) ?_
  intro _
  refine Conforms.await_bind (by trivial) ?_
  intro account
  refine (checkInput_conforms input).bind ?_
  rintro _ _ _ ⟨hmode, hquick⟩
  refine Conforms.await_bind (by trivial) ?_
  intro nowSeconds
  refine (buildBusinessCalls_conforms account input.intent nowSeconds).bind ?_
  intro calls _ _ hcalls
  refine Conforms.await_bind (by trivial) ?_
  intro nonce
  refine Conforms.await_bind (by trivial) ?_
  rintro ⟨factory, factoryData⟩
  refine ⟨hmode, ?_⟩
  intro hs
  obtain ⟨order, hc⟩ := hcalls (hquick hs)
  exact ⟨order, nowSeconds, calls, hc, rfl⟩

theorem register_conforms (input : RegisterInput) (id : Nat) :
    (register cfg input id).Conforms (Permits cfg) (fun _ _ => True) [] := by
  unfold register
  refine Conforms.await_bind (by trivial) ?_
  intro _
  refine Conforms.await_bind (by trivial) ?_
  intro old
  cases old with
  | some old => exact ensure_conforms fun _ => trivial
  | none =>
    refine (prepare_conforms input).bind ?_
    rintro prepared _ _ ⟨hmode, hcalls⟩
    refine ensure_bind ?_
    rintro ⟨hcallData, -⟩
    refine Conforms.await_bind (by trivial) ?_
    intro now
    refine Conforms.await_bind ?_ fun _ => trivial
    refine ⟨rfl, rfl, rfl, rfl, rfl, rfl, rfl, rfl, rfl, rfl, rfl, hmode, ?_⟩
    intro hs
    obtain ⟨order, nowSeconds, calls, hc, hd⟩ := hcalls hs
    exact ⟨order, nowSeconds, calls, hc, hcallData.trans hd⟩

/-- **Every program of the service conforms to the protocol.** -/
theorem Starts.conforms {p : Prog Unit} (h : Starts cfg p) : p.Conforms (Permits cfg) (fun _ _ => True) [] := by
  cases h with
  | serve operationId rpc => exact serve_conforms operationId rpc
  | policy body => exact policy_conforms body
  | cancel id => exact cancel_conforms id
  | query headFirst id => exact query_conforms headFirst id
  | tick headFirst => exact tick_conforms headFirst
  | register input id => exact register_conforms input id

end

/-! ## Runs -/

/-- The beginning: there are no operations. -/
def Init (w : World) : Prop := w.rows = [] ∧ w.chain.Valid

/-- Threads of the service, in a world that goes on. -/
abbrev Service (cfg : ServiceConfig) : Threads → Threads → Prop := Threads.Step Effect (Starts cfg) Env

abbrev Service.Reachable (cfg : ServiceConfig) : Threads → Prop := Reach.Reachable (Threads.Initial Init) (Service cfg)

/-- A step of the protocol. -/
abbrev Legal (cfg : ServiceConfig) : Recorded → Recorded → Prop := Recorded.Step Effect Env (Permits cfg)

abbrev Legal.Reachable (cfg : ServiceConfig) : Recorded → Prop := Reach.Reachable (Recorded.Initial Init) (Legal cfg)

/-- **What the service has done keeps to the protocol.** -/
theorem Service.Reachable.legal {cfg : ServiceConfig} {X : Threads} (h : Service.Reachable cfg X) :
    Legal.Reachable cfg X.recorded :=
  (Threads.reachable (fun _ hp => hp.conforms) h).2

theorem Service.Reachable.run {cfg : ServiceConfig} {X Y : Threads} (h : Service.Reachable cfg X)
    (hr : Reach.Run (Service cfg) X Y) : Reach.Run (Legal cfg) X.recorded Y.recorded :=
  ((Threads.reachable (fun _ hp => hp.conforms) h).1.run (fun _ hp => hp.conforms) hr).2

end Cpredict.Operations
