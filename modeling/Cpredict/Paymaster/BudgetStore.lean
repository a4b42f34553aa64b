import Cpredict.Paymaster.Sponsorship
import Cpredict.Lib.Reservations

/-!
# The budget store of the paymaster service

`PostgresSponsorBudgetStore`: what every subject, and everybody together, has reserved and committed on a day of the
policy, and a lease for each request. A transaction is a function on the tables: the rows that it locks are those
that it reads and writes.

The types of the columns and their checks are left to the invariant, which shows that they are never violated. The
numbers of the source are integers here, and `lease_id` is a number. The error of a failed query is one of the
errors that an await may throw.
-/

namespace Cpredict

namespace Sponsor

open Outcome Reservations

/-- What the service throws. -/
inductive Failure
  | ZodError
  | RangeError (message : String)
  | TypeError (message : String)
  | SponsorPolicyDeniedError
  | SponsorBudgetExceededError
  | Error (message : String)
deriving DecidableEq

/-! ## Requests -/

structure SponsorOperationCounts where
  createListing : Int
  cancelListing : Int
deriving DecidableEq

structure SponsorBudgetLimits where
  maxCostPerUserDay : Int
  maxCostGlobalDay : Int
  createListingPerUserDay : Int
  cancelListingPerUserDay : Int
deriving DecidableEq

structure SponsorBudgetRequest where
  subject : String
  sender : Address
  maxCost : Int
  validUntil : Int
  policyDay : Int
  operationCounts : SponsorOperationCounts
  limits : SponsorBudgetLimits
deriving DecidableEq

/-- `length` of a string: the characters beyond the first plane count twice. -/
def utf16Length (s : String) : Nat := (s.toList.map fun c => if c.toNat < 0x10000 then 1 else 2).sum

def validateRequest (request : SponsorBudgetRequest) : Except Failure Unit := do
  revertIf (¬Paymaster.isSafeInteger request.policyDay ∨ request.policyDay < 0)
    (.TypeError "policyDay must be a non-negative safe integer")
  revertIf (utf16Length request.subject < 1 ∨ 256 < utf16Length request.subject)
    (.TypeError "subject must be an opaque identifier of 1-256 characters")
  revertIf (request.maxCost ≤ 0 ∨ request.validUntil ≤ 0)
    (.TypeError "budget reservation cost and validity must be positive")
  let integers := [request.operationCounts.createListing, request.operationCounts.cancelListing,
    request.limits.createListingPerUserDay, request.limits.cancelListingPerUserDay]
  revertIf (∃ value ∈ integers, ¬Paymaster.isSafeInteger value ∨ value < 0)
    (.TypeError "operation counts and limits must be non-negative safe integers")
  revertIf (request.limits.maxCostPerUserDay < request.maxCost ∨
    request.limits.maxCostGlobalDay < request.limits.maxCostPerUserDay)
      (.TypeError "budget cost limits are inconsistent")

/-! ## Tables -/

/-- `sponsor_budget_global_usage` -/
structure GlobalUsageRow where
  policyDay : Int
  reservedCost : Int
  committedCost : Int
deriving DecidableEq

/-- `sponsor_budget_user_usage` -/
structure UserUsageRow where
  policyDay : Int
  subject : String
  reservedCost : Int
  committedCost : Int
  reservedCreateListing : Int
  committedCreateListing : Int
  reservedCancelListing : Int
  committedCancelListing : Int
deriving DecidableEq

/-- `sponsor_budget_leases` -/
structure LeaseRow where
  leaseId : Nat
  policyDay : Int
  subject : String
  sender : Address
  maxCost : Int
  createListingCount : Int
  cancelListingCount : Int
  validUntil : Int
  state : Phase
deriving DecidableEq

structure Database where
  globalUsage : List GlobalUsageRow
  userUsage : List UserUsageRow
  leases : List LeaseRow
deriving DecidableEq

def Database.empty : Database := ⟨[], [], []⟩

/-- The primary key of `sponsor_budget_user_usage`. -/
def UserUsageRow.key (r : UserUsageRow) : Int × String := (r.policyDay, r.subject)

/-- The row of usage that a lease refers to. -/
def LeaseRow.key (l : LeaseRow) : Int × String := (l.policyDay, l.subject)

/-! ## Transactions -/

def lockGlobalUsage (rows : List GlobalUsageRow) (policyDay : Int) : Except Failure GlobalUsageRow :=
  (Table.find GlobalUsageRow.policyDay policyDay rows).elim (.error (.Error "global budget row is missing")) .ok

def lockUserUsage (rows : List UserUsageRow) (policyDay : Int) (subject : String) : Except Failure UserUsageRow :=
  (Table.find UserUsageRow.key (policyDay, subject) rows).elim (.error (.Error "user budget row is missing")) .ok

def assertWithinLimits (request : SponsorBudgetRequest) (global : GlobalUsageRow) (user : UserUsageRow) :
    Except Failure Unit :=
  let nextGlobalCost := global.reservedCost + global.committedCost + request.maxCost
  let nextUserCost := user.reservedCost + user.committedCost + request.maxCost
  let nextCreate := user.reservedCreateListing + user.committedCreateListing + request.operationCounts.createListing
  let nextCancel := user.reservedCancelListing + user.committedCancelListing + request.operationCounts.cancelListing
  revertIf (request.limits.maxCostGlobalDay < nextGlobalCost ∨ request.limits.maxCostPerUserDay < nextUserCost ∨
    request.limits.createListingPerUserDay < nextCreate ∨ request.limits.cancelListingPerUserDay < nextCancel)
    .SponsorBudgetExceededError

/-- The lease that a request opens. -/
def SponsorBudgetRequest.lease (request : SponsorBudgetRequest) (leaseId : Nat) : LeaseRow where
  leaseId := leaseId
  policyDay := request.policyDay
  subject := request.subject
  sender := request.sender
  maxCost := request.maxCost
  createListingCount := request.operationCounts.createListing
  cancelListingCount := request.operationCounts.cancelListing
  validUntil := request.validUntil
  state := .reserved

/-- `UPDATE sponsor_budget_global_usage` of `reserve`. -/
def GlobalUsageRow.reserve (request : SponsorBudgetRequest) (r : GlobalUsageRow) : GlobalUsageRow :=
  { r with reservedCost := r.reservedCost + request.maxCost }

/-- `UPDATE sponsor_budget_user_usage` of `reserve`. -/
def UserUsageRow.reserve (request : SponsorBudgetRequest) (r : UserUsageRow) : UserUsageRow :=
  { r with
    reservedCost := r.reservedCost + request.maxCost
    reservedCreateListing := r.reservedCreateListing + request.operationCounts.createListing
    reservedCancelListing := r.reservedCancelListing + request.operationCounts.cancelListing }

/-- The transaction of `reserve`. -/
def reserveLease (leaseId : Nat) (request : SponsorBudgetRequest) (db : Database) : Except Failure Database := do
  let globalUsage := Table.insertNew GlobalUsageRow.policyDay ⟨request.policyDay, 0, 0⟩ db.globalUsage
  let userUsage := Table.insertNew UserUsageRow.key ⟨request.policyDay, request.subject, 0, 0, 0, 0, 0, 0⟩ db.userUsage
  let global ← lockGlobalUsage globalUsage request.policyDay
  let user ← lockUserUsage userUsage request.policyDay request.subject
  assertWithinLimits request global user
  revertIf ((Table.find LeaseRow.leaseId leaseId db.leases).isSome)
    (.Error "duplicate key value violates unique constraint")
  .ok {
    globalUsage := Table.update GlobalUsageRow.policyDay request.policyDay (GlobalUsageRow.reserve request) globalUsage
    userUsage := Table.update UserUsageRow.key (request.policyDay, request.subject) (UserUsageRow.reserve request)
      userUsage
    leases := db.leases ++ [request.lease leaseId] }

/-- What of a lease is committed when it ends in a phase. -/
def committedPart (target : Phase) (amount : Int) : Int := if target = .committed then amount else 0

/-- `UPDATE sponsor_budget_global_usage` of `transitionLease`. -/
def GlobalUsageRow.finish (lease : LeaseRow) (target : Phase) (r : GlobalUsageRow) : GlobalUsageRow :=
  { r with
    reservedCost := r.reservedCost - lease.maxCost
    committedCost := r.committedCost + committedPart target lease.maxCost }

/-- `UPDATE sponsor_budget_user_usage` of `transitionLease`. -/
def UserUsageRow.finish (lease : LeaseRow) (target : Phase) (r : UserUsageRow) : UserUsageRow :=
  { r with
    reservedCost := r.reservedCost - lease.maxCost
    committedCost := r.committedCost + committedPart target lease.maxCost
    reservedCreateListing := r.reservedCreateListing - lease.createListingCount
    committedCreateListing := r.committedCreateListing + committedPart target lease.createListingCount
    reservedCancelListing := r.reservedCancelListing - lease.cancelListingCount
    committedCancelListing := r.committedCancelListing + committedPart target lease.cancelListingCount }

/-- The transaction of `transitionLease`. -/
def transitionLease (leaseId : Nat) (target : Phase) (db : Database) : Except Failure Database := do
  let lease ← (Table.find LeaseRow.leaseId leaseId db.leases).elim (.error (.Error "budget lease does not exist")) .ok
  if lease.state = target then .ok db
  else do
    revertIf (lease.state ≠ .reserved) (.Error "budget lease is already finalized")
    let _ ← lockGlobalUsage db.globalUsage lease.policyDay
    let _ ← lockUserUsage db.userUsage lease.policyDay lease.subject
    .ok {
      globalUsage := Table.update GlobalUsageRow.policyDay lease.policyDay (GlobalUsageRow.finish lease target)
        db.globalUsage
      userUsage := Table.update UserUsageRow.key lease.key (UserUsageRow.finish lease target) db.userUsage
      leases := Table.update LeaseRow.leaseId leaseId (fun l => { l with state := target }) db.leases }

/-! ## The books -/

/-- What a row of a subject counts: the cost, the listings created and those cancelled. -/
abbrev Amounts := Int × Int × Int

def UserUsageRow.reserved (r : UserUsageRow) :
    Amounts := (r.reservedCost, r.reservedCreateListing, r.reservedCancelListing)

def UserUsageRow.committed (r : UserUsageRow) :
    Amounts := (r.committedCost, r.committedCreateListing, r.committedCancelListing)

def LeaseRow.amounts (l : LeaseRow) : Amounts := (l.maxCost, l.createListingCount, l.cancelListingCount)

/-- What a subject may use on a day. -/
def SponsorBudgetLimits.user (limits : SponsorBudgetLimits) : Amounts :=
  (limits.maxCostPerUserDay, limits.createListingPerUserDay, limits.cancelListingPerUserDay)

/-- The tables agree with the leases, and keep the limits. -/
structure Books (limits : SponsorBudgetLimits) (db : Database) : Prop where
  ids : (db.leases.map LeaseRow.leaseId).Nodup
  global : Tracks GlobalUsageRow.policyDay GlobalUsageRow.reservedCost GlobalUsageRow.committedCost
    LeaseRow.policyDay LeaseRow.state
    LeaseRow.maxCost db.globalUsage db.leases
  user : Tracks UserUsageRow.key UserUsageRow.reserved UserUsageRow.committed LeaseRow.key LeaseRow.state
    LeaseRow.amounts db.userUsage
    db.leases
  days : ∀ r ∈ db.userUsage, (Table.find GlobalUsageRow.policyDay r.policyDay db.globalUsage).isSome
  amounts : ∀ l ∈ db.leases, 0 ≤ l.amounts
  globalLimit : ∀ r ∈ db.globalUsage, r.reservedCost + r.committedCost ≤ limits.maxCostGlobalDay
  userLimit : ∀ r ∈ db.userUsage, r.reserved + r.committed ≤ limits.user

/-- What the checks of a request leave to its reservation. -/
structure ValidRequest (limits : SponsorBudgetLimits) (request : SponsorBudgetRequest) : Prop where
  limits_eq : request.limits = limits
  amounts : ∀ leaseId, 0 ≤ (request.lease leaseId).amounts

theorem validateRequest_ok {request : SponsorBudgetRequest} (h : validateRequest request = .ok ()) :
    ValidRequest request.limits request := by
  unfold validateRequest at h
  simp only [bind_eq_ok, revertIf_eq_ok, not_or, not_lt, not_le, not_exists, not_and, not_not,
    List.forall_mem_cons] at h
  obtain ⟨-, -, -, -, -, hcost, -, ⟨⟨-, hcreate⟩, ⟨-, hcancel⟩, -⟩, -⟩ := h
  exact ⟨rfl, fun _ => ⟨hcost.1.le, hcreate, hcancel⟩⟩

theorem Books.empty (limits : SponsorBudgetLimits) : Books limits .empty :=
  ⟨List.nodup_nil, Tracks.start _ _ _ _ _ _,
    Tracks.start _ _ _ _ _ _, by simp [Database.empty], by simp [Database.empty],
    by simp [Database.empty], by simp [Database.empty]⟩

section

variable {limits : SponsorBudgetLimits} {db db' : Database} {leaseId : Nat} {request : SponsorBudgetRequest}
  {target : Phase}

theorem lockGlobalUsage_ok {rows : List GlobalUsageRow} {policyDay : Int} {r : GlobalUsageRow}
    (h : lockGlobalUsage rows policyDay = .ok r) : Table.find GlobalUsageRow.policyDay policyDay rows = some r := by
  unfold lockGlobalUsage at h
  cases hf : Table.find GlobalUsageRow.policyDay policyDay rows with
  | none =>
    rw [hf] at h
    cases h
  | some q =>
    rw [hf] at h
    cases h
    rfl

theorem lockUserUsage_ok {rows : List UserUsageRow} {policyDay : Int} {subject : String} {r : UserUsageRow}
    (h : lockUserUsage rows policyDay subject = .ok r) :
    Table.find UserUsageRow.key (policyDay, subject) rows = some r := by
  unfold lockUserUsage at h
  cases hf : Table.find UserUsageRow.key (policyDay, subject) rows with
  | none =>
    rw [hf] at h
    cases h
  | some q =>
    rw [hf] at h
    cases h
    rfl

/-- A reservation within the limits. -/
theorem assertWithinLimits_ok (leaseId : Nat) {global : GlobalUsageRow} {user : UserUsageRow}
    (h : assertWithinLimits request global user = .ok ()) :
    global.reservedCost + global.committedCost + request.maxCost ≤ request.limits.maxCostGlobalDay ∧
      user.reserved + user.committed + (request.lease leaseId).amounts ≤ request.limits.user := by
  unfold assertWithinLimits at h
  simp only [revertIf_eq_ok, not_or, not_lt] at h
  obtain ⟨hglobal, hcost, hcreate, hcancel⟩ := h
  exact ⟨hglobal, hcost, hcreate, hcancel⟩

/-- **A reservation keeps the books.** The lease is new, and it is the only one that is added. -/
theorem reserveLease_books (h : Books limits db) (hv : ValidRequest limits request)
    (ht : reserveLease leaseId request db = .ok db') :
    Books limits db' ∧ db'.leases = db.leases ++ [request.lease leaseId] ∧ ∀ l ∈ db.leases, l.leaseId ≠ leaseId := by
  unfold reserveLease at ht
  simp only [bind_eq_ok, revertIf_eq_ok] at ht
  obtain ⟨g, hg, u, hu, ⟨⟩, hlimits, -, hfresh, ht⟩ := ht
  have hsame := Except.ok.inj ht
  subst hsame
  replace hg := lockGlobalUsage_ok hg
  replace hu := lockUserUsage_ok hu
  obtain ⟨hgl, hul⟩ := assertWithinLimits_ok leaseId hlimits
  rw [hv.limits_eq] at hgl hul
  have hnew : ∀ l ∈ db.leases, l.leaseId ≠ leaseId := by
    rw [Bool.not_eq_true, Option.isSome_eq_false_iff, Option.isNone_iff_eq_none] at hfresh
    exact Table.find_eq_none.mp hfresh
  have hopenG := h.global.openRow (r := ⟨request.policyDay, 0, 0⟩) rfl rfl
  have hopenU := h.user.openRow (r := ⟨request.policyDay, request.subject, 0, 0, 0, 0, 0, 0⟩) rfl rfl
  have hglobal := hopenG.reserve (a := request.lease leaseId) (f := GlobalUsageRow.reserve request) (fun _ => rfl)
    (Option.isSome_of_eq_some hg) rfl (fun _ => rfl) (fun _ => rfl)
  have huser := hopenU.reserve (a := request.lease leaseId) (f := UserUsageRow.reserve request) (fun _ => rfl)
    (Option.isSome_of_eq_some hu) rfl (fun _ => rfl) (fun _ => rfl)
  refine ⟨⟨?_, hglobal, huser, ?_, ?_, ?_, ?_⟩, rfl, hnew⟩
  · rw [List.map_append, List.nodup_append]
    refine ⟨h.ids, List.nodup_singleton _, ?_⟩
    rintro _ hx _ hy rfl
    obtain ⟨l, hl, he⟩ := List.mem_map.mp hx
    exact hnew l hl (he.trans (List.mem_singleton.mp hy))
  · intro r hr
    obtain ⟨q, hq, rfl⟩ := Table.mem_update.mp hr
    have hday : (Table.find GlobalUsageRow.policyDay q.policyDay
        (Table.insertNew GlobalUsageRow.policyDay ⟨request.policyDay, 0, 0⟩ db.globalUsage)).isSome := by
      rcases Table.mem_insertNew hq with hq | ⟨rfl, -⟩
      · exact Table.isSome_find_of_insertNew (h.days q hq)
      · exact Table.isSome_find_insertNew GlobalUsageRow.policyDay ⟨request.policyDay, 0, 0⟩ db.globalUsage
    have hkeep : (if q.key = (request.policyDay, request.subject) then q.reserve request else q).policyDay =
      q.policyDay := by
      split <;> rfl
    have hrow := Table.isSome_find_update GlobalUsageRow.policyDay (f := GlobalUsageRow.reserve request) (fun _ => rfl)
      request.policyDay q.policyDay (Table.insertNew GlobalUsageRow.policyDay ⟨request.policyDay, 0, 0⟩ db.globalUsage)
    rw [hkeep]
    exact hrow.trans hday
  · intro l hl
    rcases List.mem_append.mp hl with hl | hl
    · exact h.amounts l hl
    · rw [List.mem_singleton.mp hl]
      exact hv.amounts leaseId
  · intro r hr
    obtain ⟨q, hq, rfl⟩ := Table.mem_update.mp hr
    split
    case isTrue hk =>
      have hqg : q = g := by
        have hfind := Table.find_of_mem hopenG.nodup hq
        rw [hk, hg] at hfind
        exact (Option.some.inj hfind).symm
      rw [hqg]
      unfold GlobalUsageRow.reserve
      dsimp only
      omega
    case isFalse hk =>
      rcases Table.mem_insertNew hq with hq | ⟨rfl, -⟩
      · exact h.globalLimit q hq
      · exact absurd rfl hk
  · intro r hr
    obtain ⟨q, hq, rfl⟩ := Table.mem_update.mp hr
    split
    case isTrue hk =>
      have hqu : q = u := by
        have hfind := Table.find_of_mem hopenU.nodup hq
        rw [hk, hu] at hfind
        exact (Option.some.inj hfind).symm
      rw [hqu]
      refine le_of_eq_of_le ?_ hul
      simp only [UserUsageRow.reserved, UserUsageRow.committed, UserUsageRow.reserve, LeaseRow.amounts,
        SponsorBudgetRequest.lease,
        Prod.mk_add_mk]
      congr 1
      · omega
      · congr 1 <;> omega
    case isFalse hk =>
      rcases Table.mem_insertNew hq with hq | ⟨rfl, -⟩
      · exact h.userLimit q hq
      · exact absurd rfl hk

/-- What ending a lease does: nothing, if it has ended so before; or its reservation ends. -/
inductive Ended (leaseId : Nat) (target : Phase) (db db' : Database) : Prop
  | before {l : LeaseRow} (hfind : Table.find LeaseRow.leaseId leaseId db.leases = some l) (hstate : l.state = target)
      (hsame : db' = db)
  | now {l : LeaseRow} (hfind : Table.find LeaseRow.leaseId leaseId db.leases = some l) (hstate : l.state = .reserved)
      (hleases : db'.leases = Table.update LeaseRow.leaseId leaseId (fun l => { l with state := target }) db.leases)

theorem committed_finish (l : LeaseRow) (target : Phase) (r : UserUsageRow) :
    (r.finish l target).committed = r.committed + if target = .committed then l.amounts else 0 := by
  by_cases hc : target = .committed
  · simp [UserUsageRow.committed, UserUsageRow.finish, committedPart, LeaseRow.amounts, hc]
  · simp [UserUsageRow.committed, UserUsageRow.finish, committedPart, hc]

/-- **Ending a lease keeps the books.** -/
theorem transitionLease_books (h : Books limits db) (htarget : target ≠ .reserved)
    (ht : transitionLease leaseId target db = .ok db') :
    Books limits db' ∧ Ended leaseId target db db' := by
  unfold transitionLease at ht
  simp only [bind_eq_ok] at ht
  obtain ⟨l, hl, ht⟩ := ht
  have hfind : Table.find LeaseRow.leaseId leaseId db.leases = some l := by
    cases hf : Table.find LeaseRow.leaseId leaseId db.leases with
    | none =>
      rw [hf] at hl
      cases hl
    | some q =>
      rw [hf] at hl
      cases hl
      rfl
  split at ht
  case isTrue hstate =>
    cases ht
    exact ⟨h, .before hfind hstate rfl⟩
  case isFalse hstate =>
    simp only [bind_eq_ok, revertIf_eq_ok, not_not] at ht
    obtain ⟨-, hreserved, g, hg, u, hu, ht⟩ := ht
    have hsame := Except.ok.inj ht
    subst hsame
    replace hg := lockGlobalUsage_ok hg
    replace hu := lockUserUsage_ok hu
    obtain ⟨hmem, hid⟩ := Table.mem_of_find hfind
    have hamounts := h.amounts l hmem
    have hfind' : Table.find LeaseRow.leaseId l.leaseId db.leases = some l := by rw [hid, hfind]
    have hrows : Table.update LeaseRow.leaseId leaseId (fun l => { l with state := target }) db.leases =
        Table.update LeaseRow.leaseId l.leaseId (fun _ => { l with state := target }) db.leases := by
      unfold Table.update
      refine List.map_congr_left fun q hq => ?_
      by_cases hk : q.leaseId = leaseId
      · have hql : q = l := by
          have hq' := Table.find_of_mem h.ids hq
          rw [hk, hfind] at hq'
          exact (Option.some.inj hq').symm
        rw [if_pos hk, if_pos (hk.trans hid.symm), hql]
      · rw [if_neg hk, if_neg fun he => hk (he.trans hid)]
    have hglobal := h.global.finish (f := GlobalUsageRow.finish l target) (fun _ => rfl) h.ids hfind' hreserved
      (b := { l with state := target }) rfl rfl htarget (fun _ => rfl) (fun _ => rfl)
    have huser := h.user.finish (f := UserUsageRow.finish l target) (fun _ => rfl) h.ids hfind' hreserved
      (b := { l with state := target }) rfl rfl htarget (fun _ => rfl) (fun r => committed_finish l target r)
    obtain ⟨hcost, hcreate, hcancel⟩ : 0 ≤ l.maxCost ∧ 0 ≤ l.createListingCount ∧ 0 ≤ l.cancelListingCount := hamounts
    refine ⟨⟨?_, ?_, ?_, ?_, ?_, ?_, ?_⟩, .now hfind hreserved rfl⟩
    · have hkeep := Table.map_key_update LeaseRow.leaseId (f := fun l => { l with state := target })
        (fun _ => rfl) leaseId
        db.leases
      rw [hkeep]
      exact h.ids
    · rw [hrows]
      exact hglobal
    · rw [hrows]
      exact huser
    · intro r hr
      obtain ⟨q, hq, rfl⟩ := Table.mem_update.mp hr
      have hkeep : (if q.key = l.key then q.finish l target else q).policyDay = q.policyDay := by
        split <;> rfl
      have hrow := Table.isSome_find_update GlobalUsageRow.policyDay (f := GlobalUsageRow.finish l target)
        (fun _ => rfl)
        l.policyDay q.policyDay db.globalUsage
      rw [hkeep]
      exact hrow.trans (h.days q hq)
    · intro q hq
      obtain ⟨q', hq', rfl⟩ := Table.mem_update.mp hq
      split
      · exact h.amounts q' hq'
      · exact h.amounts q' hq'
    · intro r hr
      obtain ⟨q, hq, rfl⟩ := Table.mem_update.mp hr
      have hold := h.globalLimit q hq
      split
      · unfold GlobalUsageRow.finish committedPart
        dsimp only
        split <;> omega
      · exact hold
    · intro r hr
      obtain ⟨q, hq, rfl⟩ := Table.mem_update.mp hr
      have hold := h.userLimit q hq
      split
      · obtain ⟨h₁, h₂, h₃⟩ : q.reservedCost + q.committedCost ≤ limits.maxCostPerUserDay ∧
            q.reservedCreateListing + q.committedCreateListing ≤ limits.createListingPerUserDay ∧
            q.reservedCancelListing + q.committedCancelListing ≤ limits.cancelListingPerUserDay := hold
        simp only [UserUsageRow.reserved, UserUsageRow.committed, UserUsageRow.finish, committedPart,
          SponsorBudgetLimits.user,
          Prod.mk_add_mk, Prod.mk_le_mk]
        by_cases hc : target = .committed
        · simp only [if_pos hc]
          omega
        · simp only [if_neg hc]
          omega
      · exact hold

end

end Sponsor

end Cpredict
