import Cpredict.Operations.Charges
import Cpredict.Operations.Register

/-!
# Sponsorship quotas

What the sponsor has reserved for a day and a week limits what is admitted (`assertQuota`). The calendars are the
UTC day, the week from Monday in Shanghai, and an hour for the faucet. Admission reads the operations that have been
created or updated since the earliest of the three, and those that are unresolved (`Loaded`); the reports of the
budget read the same (`budgetTotals`).
-/

namespace Cpredict.Operations

open Outcome

/-! ## Calendars -/

def DAY : Nat := 86400000

def FAUCET_COOLDOWN_MS : Nat := 60 * 60 * 1000

def SHANGHAI_OFFSET : Nat := 8 * 60 * 60 * 1000

/-- From the start up to the end. -/
structure Week where
  start : Int
  finish : Int
deriving DecidableEq

/-- The Monday is that of the local date; `getUTCDay` counts from Sunday, and the epoch was a Thursday. -/
@[irreducible] def weeklyBudgetWindow (instant : Nat) : Week :=
  let localDay := (instant + SHANGHAI_OFFSET) / DAY
  let daysSinceMonday := ((localDay + 4) % 7 + 6) % 7
  let start : Int := (localDay : Int) * DAY - daysSinceMonday * DAY - SHANGHAI_OFFSET
  ⟨start, start + 7 * DAY⟩

example : (weeklyBudgetWindow 1789315199999).start = 1788710400000 ∧
    (weeklyBudgetWindow 1789315200000).start = 1789315200000 := by
  decide +kernel

/-- The date in UTC, as the first ten characters of the text of a time. -/
def dateOf (instant : Nat) : Nat := instant / DAY

def countsTowardWeek (o : Operation) (week : Week) : Bool :=
  decide (week.start ≤ o.createdAt ∧ (o.createdAt : Int) < week.finish) ||
    decide ((o.createdAt : Int) < week.start) && (isRecoverable o.state || decide (o.state = .preparing) ||
      decide (o.state = .awaitingSignature) || decide (week.start ≤ o.gasSettledAt.getD o.updatedAt))

@[irreducible] def quotaHistoryStart (createdAt : Nat) : Int :=
  min (weeklyBudgetWindow createdAt).start (min (dateOf createdAt * DAY : Nat) ((createdAt : Int) - FAUCET_COOLDOWN_MS))

/-! ## Limits -/

structure LaneLimit where
  projectWei : Nat
  accountWei : Nat
  subjectWei : Nat
  projectOperations : Nat
  accountOperations : Nat
  subjectOperations : Nat

structure WeeklyBudget where
  projectWei : Nat
  exitReserveWei : Nat
  /-- `weekly exit reserve must be smaller than the total project budget` -/
  reserve : exitReserveWei < projectWei

structure SponsorConfig where
  exposure : LaneLimit
  exit : LaneLimit
  methodDailyOperations : Nat
  weekly : WeeklyBudget

def SponsorConfig.lane (limits : SponsorConfig) : BudgetLane → LaneLimit
  | .exposure => limits.exposure
  | .exit => limits.exit

def weeklyLaneLimit (limits : SponsorConfig) : BudgetLane → Nat
  | .exit => limits.weekly.exitReserveWei
  | .exposure => limits.weekly.projectWei - limits.weekly.exitReserveWei

inductive OperationKind
  | depositUsdc
  | buy
  | createOrder
  | fillOrder
  | cancelOrder
  | releaseOrder
  | createListing
  | fillListing
  | cancelListing
  | returnListing
  | claim (kind : MarketClaim)
  | claimBond
  | claimFees
  | other (kind : OtherKind)
deriving DecidableEq

def BusinessIntent.kind : BusinessIntent → OperationKind
  | .depositUsdc _ _ => .depositUsdc
  | .buy _ _ _ _ _ _ => .buy
  | .createOrder _ _ _ _ _ _ _ => .createOrder
  | .fillOrder _ _ _ _ _ _ => .fillOrder
  | .cancelOrder _ => .cancelOrder
  | .releaseOrder _ => .releaseOrder
  | .createListing _ _ _ _ _ => .createListing
  | .fillListing _ _ _ _ _ => .fillListing
  | .cancelListing _ => .cancelListing
  | .returnListing _ => .returnListing
  | .claim kind _ => .claim kind
  | .claimBond => .claimBond
  | .claimFees => .claimFees
  | .other kind => .other kind

/-- The account that a deposit takes from. -/
def BusinessIntent.depositSource : BusinessIntent → Option Address
  | .depositUsdc _ authorization => some authorization.source
  | _ => none

/-! ## assertQuota -/

inductive QuotaErr
  | operationInProgress (id : Nat)
  | faucetCooldown
  | sponsorshipWeeklyBudgetExhausted
  | sponsorshipBudgetExhausted
  | methodQuotaExhausted
  | depositSourceQuotaExhausted
deriving DecidableEq

section

variable (existing : Rows)

def sponsored : Rows := existing.filter fun v => decide (v.operation.gasPayment ≠ some .selfFunded)

/-- What some of the operations are charged. -/
def chargesOf (records : Rows) : Nat :=
  (records.map fun v => charge (finalNonces (existing.map StoredOperation.operation)) v.operation).sum

/-- A pending operation of the account with the nonce. -/
def isUnfinished (o : Operation) (v : StoredOperation) : Bool :=
  decide (v.operation.account = o.account) && decide (v.operation.nonce = o.nonce) &&
    (isRecoverable v.operation.state ||
    decide (v.operation.state ∈ [OperationState.preparing, .awaitingSignature]))

def usesFaucet (o : Operation) (v : StoredOperation) : Bool :=
  decide (v.operation.account = o.account) && v.operation.intent.isFaucet && decide (v.operation.state ≠ .cancelled) &&
    decide ((o.createdAt : Int) - FAUCET_COOLDOWN_MS < v.operation.createdAt)

/-- Of the day and the lane of the operation. -/
def sameDay (o : Operation) : Rows :=
  (sponsored existing).filter fun v => decide (dateOf v.operation.createdAt = dateOf o.createdAt) &&
    decide (v.operation.lane = o.lane)

/-- Of the week and the lane of the operation. -/
def sameWeek (o : Operation) : Rows :=
  (sponsored existing).filter fun v => decide (v.operation.lane = o.lane) &&
    countsTowardWeek v.operation (weeklyBudgetWindow o.createdAt)

/-- Neither as many operations nor as much gas as the limit. -/
def withinLimit (reserved : Nat) (records : Rows) (cost count : Nat) : Except QuotaErr Unit :=
  revertIf (count ≤ records.length ∨ cost < chargesOf existing records + reserved) .sponsorshipBudgetExhausted

def assertQuota (next : StoredOperation) (limits : SponsorConfig) : Except QuotaErr Unit :=
  let o := next.operation
  match existing.find? (isUnfinished o) with
  | some unfinished => .error (.operationInProgress unfinished.operation.id)
  | none => do
    revertIf (o.intent.isFaucet = true ∧ existing.any (usesFaucet o) = true) .faucetCooldown
    -- self-funded operations take no part in the quotas of sponsorship
    if o.gasPayment = some .selfFunded then .ok ()
    else do
      let sameDay := sameDay existing o
      let cap := limits.lane o.lane
      let reserved := o.maxGasCost
      revertIf (weeklyLaneLimit limits o.lane < chargesOf existing (sameWeek existing o) + reserved)
        .sponsorshipWeeklyBudgetExhausted
      withinLimit existing reserved sameDay cap.projectWei cap.projectOperations
      withinLimit existing reserved (sameDay.filter fun v => decide (v.operation.account = o.account)) cap.accountWei
        cap.accountOperations
      withinLimit existing reserved (sameDay.filter fun v => decide (v.subject = next.subject)) cap.subjectWei
        cap.subjectOperations
      revertIf (limits.methodDailyOperations ≤ (sameDay.filter fun v => decide (v.operation.account = o.account) &&
        decide (v.operation.intent.kind = o.intent.kind)).length) .methodQuotaExhausted
      revertIf (limits.methodDailyOperations ≤ (sameDay.filter fun v => decide (v.subject = next.subject) &&
        decide (v.operation.intent.kind = o.intent.kind)).length) .methodQuotaExhausted
      revertIf (o.intent.depositSource.isSome = true ∧ limits.methodDailyOperations ≤ (sameDay.filter fun v =>
        decide (v.operation.intent.depositSource = o.intent.depositSource)).length) .depositSourceQuotaExhausted

end

/-! ## Reports -/

structure BudgetTotals where
  dailyWei : Nat
  dailyOperations : Nat
  weeklyWei : Nat
deriving DecidableEq

/-- The totals of a lane. -/
def budgetTotals (operations : List Operation) (instant : Nat) (lane : BudgetLane) : BudgetTotals :=
  let charges := charge (finalNonces operations)
  let rows := (operations.filter fun o => decide (o.gasPayment ≠ some .selfFunded)).filter fun o =>
    decide (o.lane = lane)
  let daily := rows.filter fun o => decide (dateOf o.createdAt = dateOf instant)
  { dailyWei := (daily.map charges).sum
    dailyOperations := daily.length
    weeklyWei := ((rows.filter fun o => countsTowardWeek o (weeklyBudgetWindow instant)).map charges).sum }

/-! ## Rows that are loaded -/

/-- `created_at >= ${start} OR updated_at >= ${start} OR state IN (..)` -/
def inWindow (start : Int) (v : StoredOperation) : Bool :=
  decide (start ≤ v.operation.createdAt) || decide (start ≤ v.operation.updatedAt) ||
    decide (v.operation.state ∈ [OperationState.preparing, .awaitingSignature, .submitted, .confirming, .unknown])

/-- The rows that a query at an instant returns, in whatever order. -/
def Loaded (rows : Rows) (instant : Nat) (l : Rows) :
    Prop := l.Perm (rows.filter (inWindow (quotaHistoryStart instant)))

end Cpredict.Operations
