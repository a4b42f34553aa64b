import Cpredict.Paymaster.BudgetStore
import Cpredict.Lib.Threads

/-!
# The paymaster service

`POST /v1/sponsorship`: the budget is reserved, the sponsorship is signed, and the lease is committed before the
sponsorship is returned. It is released when nothing was signed. Between any two awaits other requests run, of this
process and of others; a process may stop at an await; and an await of the database may throw although its
transaction took effect.

The validation of a body, the policy and the identity of a caller are whatever they are; the clock is read once, and
`leaseId` is random.
-/

namespace Cpredict

namespace Sponsor

open Program Paymaster

/-! ## Awaits -/

inductive Response
  /-- The sponsorship; the reply does not say for which lease and request, which are kept for the record. -/
  | issued (leaseId : Nat) (request : SponsorBudgetRequest) (sponsorship : Sponsorship)
  | rejected (code : Nat) (error : String)
deriving DecidableEq

inductive Command
  | authorize (authorization : Option String)
  | validatePolicy (userOperation : PackedUserOperationInput) (requestedMaxCost : Int)
  | reserve (leaseId : Nat) (request : SponsorBudgetRequest)
  | signDigest (digest : Bytes32)
  | transitionLease (leaseId : Nat) (target : Reservations.Phase)
  | reply (response : Response)
deriving DecidableEq

/-- What an await is answered by. -/
abbrev Answer : Command → Type
  | .authorize _ => Option String
  | .validatePolicy _ _ => SponsorOperationCounts
  | .reserve _ _ => Unit
  | .signDigest _ => Bytes
  | .transitionLease _ _ => Unit
  | .reply _ => Unit

abbrev Handler (α : Type) := Program Answer Failure α

/-- `await` -/
def ask (c : Command) : Handler (Answer c) := Program.await c

/-! ## The handler -/

structure Options where
  keccak256 : Bytes → Bytes32
  hashTypedData : Eip712.TypedData → Option Bytes32
  config : SponsorshipConfig
  budgetLimits : SponsorBudgetLimits

/-- A request, and what the process adds to it. -/
structure Incoming where
  authorization : Option String
  /-- `sponsorshipRequestSchema.parse(request.body)` -/
  body : Except Failure (PackedUserOperationInput × Int)
  nowSeconds : Int
  leaseId : Nat

def ofSponsorship {α : Type} : Except SponsorshipFailure α → Handler α
  | .ok a => .ret a
  | .error (.RangeError message) => .fail (.RangeError message)
  | .error (.Error message) => .fail (.Error message)
  | .error .NotEncodable => .fail (.Error "value is not encodable")

section

variable (o : Options)

/-- `createSponsorship`, with the signer awaited. -/
def sign (userOperation : PackedUserOperationInput) (maxCost nowSeconds : Int) : Handler Sponsorship := do
  let (digest, validAfter, validUntil) ← ofSponsorship
    (prepareSponsorship o.keccak256 o.hashTypedData o.config userOperation maxCost nowSeconds)
  let signature ← ask (.signDigest digest)
  ofSponsorship (packSponsorship o.config maxCost validAfter validUntil signature)

/-- What is reserved for a request. -/
def budgetRequest (q : Incoming) (subject : String) (userOperation : PackedUserOperationInput) (requestedMaxCost : Int)
    (operationCounts : SponsorOperationCounts) : SponsorBudgetRequest where
  subject := subject
  sender := userOperation.sender
  maxCost := requestedMaxCost
  validUntil := q.nowSeconds + o.config.validitySeconds
  policyDay := q.nowSeconds / 86400
  operationCounts := operationCounts
  limits := o.budgetLimits

/-- From the reservation on. -/
def reserveAndSign (q : Incoming) (request : SponsorBudgetRequest) (userOperation : PackedUserOperationInput) :
    Handler Response := do
  ofExcept (validateRequest request)
  ask (.reserve q.leaseId request)
  let result ← (sign o userOperation request.maxCost q.nowSeconds).attempt
  match result with
  | .ok sponsorship => do
    ask (.transitionLease q.leaseId .committed)
    .ret (.issued q.leaseId request sponsorship)
  | .error e => do
    ask (.transitionLease q.leaseId .released)
    .fail e

def respond (q : Incoming) : Handler Response := do
  let identity ← ask (.authorize q.authorization)
  match identity with
  | none => .ret (.rejected 401 "unauthorized")
  | some subject => do
    let (userOperation, requestedMaxCost) ← ofExcept q.body
    let operationCounts ← ask (.validatePolicy userOperation requestedMaxCost)
    reserveAndSign o q (budgetRequest o q subject userOperation requestedMaxCost operationCounts) userOperation

/-- The reply to an error. -/
def rejection : Failure → Response
  | .ZodError | .RangeError _ | .TypeError _ => .rejected 400 "invalid sponsorship request"
  | .SponsorPolicyDeniedError => .rejected 403 "sponsorship denied"
  | .SponsorBudgetExceededError => .rejected 429 "sponsorship budget exceeded"
  | .Error _ => .rejected 503 "sponsorship unavailable"

/-- `POST /v1/sponsorship` -/
def handle (q : Incoming) : Handler Unit := do
  let outcome ← (respond o q).attempt
  match outcome with
  | .ok response => ask (.reply response)
  | .error e => ask (.reply (rejection e))

end

/-! ## The database -/

/-- The transaction of an await. -/
def Command.transaction : Command → Option (Database → Except Failure Database)
  | .reserve leaseId request => some (Sponsor.reserveLease leaseId request)
  | .transitionLease leaseId target => some (Sponsor.transitionLease leaseId target)
  | _ => none

/-- How an await is answered: one without a transaction in any way; a transaction takes effect and is confirmed or
not, or it does not take effect and throws. -/
inductive Effects : Effect Answer Failure Database
  | other {c : Command} {r : Except Failure (Answer c)} {db : Database} : c.transaction = none → Effects c db r db
  | failed {c : Command} {e : Failure} {db : Database} : Effects c db (.error e) db
  | done {c : Command} {f : Database → Except Failure Database} {r : Except Failure (Answer c)} {db db' : Database} :
      c.transaction = some f → f db = .ok db' → Effects c db r db'

/-- The handler is started for any request. -/
def Starts (o : Options) (p : Handler Unit) : Prop := ∃ q, p = handle o q

abbrev Event := Program.Event Answer Failure

/-- The requests that run, the tables, and what has been awaited. -/
abbrev Service := Threads Answer Failure Database

def Service.Reachable (o : Options) (X : Service) : Prop :=
  Reach.Reachable (Threads.Initial (· = Database.empty)) (Threads.Step Effects (Starts o) fun _ _ => False) X

end Sponsor

end Cpredict
