import Cpredict.Lib.Quota
import Cpredict.Lib.Reach
import Cpredict.Paymaster.State

/-!
# The daily budgets of the paymaster

The EntryPoint settles each context that it was given at most once, in any order (`Step`). `Inv` relates the four
tables to the reservations that are open and those that are settled; validating and settling an operation are the
reservation and the settlement of `Quota.Books`, by day and sender and by day.
-/

namespace Cpredict.Paymaster

open Outcome Abi Quota Tally

/-! ## Runs -/

/-- The paymaster, and the contexts that the EntryPoint has not settled. -/
structure System where
  paymaster : Storage
  outstanding : List Bytes

def Init (D : Setup) (s : System) : Prop :=
  ∃ emergencyController signer operation user global,
    deploy D emergencyController signer operation user global = .ok s.paymaster ∧ s.outstanding = []

/-- A successful call. The EntryPoint calls `postOp` with a context that it got and has not settled. -/
inductive Step (C : Crypto) (D : Setup) : System → System → Prop
  | validate {s : System} {b : Block} {caller : Address} {userOp : PackedUserOperation} {maxCost : Nat} {p : Storage}
      {context : Bytes} {validationData : Nat}
      (h : validatePaymasterUserOp C D b s.paymaster caller userOp maxCost = .ok (p, context, validationData)) :
      Step C D s ⟨p, if context = [] then s.outstanding else s.outstanding ++ [context]⟩
  | settle {s : System} {caller : Address} {mode gas fee : Nat} {p : Storage} {pre post : List Bytes} {context : Bytes}
      (ho : s.outstanding = pre ++ context :: post) (h : postOp D s.paymaster caller mode context gas fee = .ok p) :
      Step C D s ⟨p, pre ++ post⟩
  | signer {s : System} {caller newSigner : Address} {p : Storage}
      (h : setSponsorSigner D s.paymaster caller newSigner = .ok p) : Step C D s ⟨p, s.outstanding⟩
  | budgets {s : System} {caller : Address} {operation user global : Nat} {p : Storage}
      (h : setBudgets D s.paymaster caller operation user global = .ok p) : Step C D s ⟨p, s.outstanding⟩

/-- What was reserved. -/
structure Reservation where
  sender : Address
  day : Nat
  cost : Nat

def Reservation.context (r : Reservation) : Bytes := encodeContext r.sender r.day r.cost

/-- The reservations of a log. -/
def reservations (log : List SponsorEvent) : List Reservation :=
  log.filterMap fun
    | .SponsorshipReserved _ sender day cost _ => some ⟨sender, day, cost⟩
    | _ => none

/-- The sponsorships that have been accepted. -/
def acceptedHashes (log : List SponsorEvent) : List Bytes32 :=
  log.filterMap fun
    | .SponsorshipReserved hash _ _ _ _ => some hash
    | _ => none

/-- The tables by day and sender. -/
def Storage.users (p : Storage) : Tables (Nat × Address) where
  reserved k := p.reservedUserByDay k.1 k.2
  spent k := p.spentUserByDay k.1 k.2

/-- The tables by day. -/
def Storage.globals (p : Storage) : Tables Nat := ⟨p.reservedGlobalByDay, p.spentGlobalByDay⟩

/-! ## What the calls do -/

section

variable {C : Crypto} {D : Setup} {b : Block} {p p' : Storage} {caller : Address} {userOp : PackedUserOperation}
  {maxCost validationData : Nat} {context : Bytes}

theorem checkedAdd_eq_ok {w a b r : Nat} : checkedAdd w a b = .ok r ↔ a + b < 2 ^ w ∧ a + b = r := by
  unfold checkedAdd
  split <;> simp_all

/-- A reservation. -/
structure Reserved (b : Block) (p : Storage) (hash : Bytes32) (r : Reservation) (signed : Nat) (p' : Storage) :
    Prop where
  day : r.day = b.day
  cost_lt : r.cost < 2 ^ 256
  user : p'.reservedUserByDay = Balances.update₂ p.reservedUserByDay r.day r.sender
    (p.reservedUserByDay r.day r.sender + r.cost)
  global : p'.reservedGlobalByDay = Function.update p.reservedGlobalByDay r.day (p.reservedGlobalByDay r.day + r.cost)
  spentUser : p'.spentUserByDay = p.spentUserByDay
  spentGlobal : p'.spentGlobalByDay = p.spentGlobalByDay
  consumed : p'.consumedSponsorship = Function.update p.consumedSponsorship hash true
  version : p'.policyVersion = p.policyVersion
  log : p'.log = p.log ++ [.SponsorshipReserved hash r.sender r.day r.cost signed]
  userBudget : saturatingAdd (p.spentUserByDay r.day r.sender) (p.reservedUserByDay r.day r.sender + r.cost) ≤
    p.maxCostPerUserPerDay
  globalBudget : saturatingAdd (p.spentGlobalByDay r.day) (p.reservedGlobalByDay r.day + r.cost) ≤ p.maxCostGlobalPerDay

theorem reserveSponsorship_reserved {hash : Bytes32} {sender : Address} {version : Nat}
    (h : reserveSponsorship b p hash sender maxCost version = .ok (p', context)) :
    Reserved b p hash ⟨sender, b.day, maxCost⟩ version p' ∧ context = encodeContext sender b.day maxCost := by
  unfold reserveSponsorship at h
  simp only [bind_eq_ok, revertIf_eq_ok, checkedAdd_eq_ok] at h
  obtain ⟨_, ⟨hu, rfl⟩, _, ⟨-, rfl⟩, -, hb, h⟩ := h
  cases h
  simp only [not_or, Nat.not_lt] at hb
  exact ⟨⟨rfl, by simp only; omega, rfl, rfl, rfl, rfl, rfl, rfl, rfl, hb.1, hb.2⟩, rfl⟩

/-- What the signed data says of the version of the policy. -/
def signedVersion (userOp : PackedUserOperation) : Nat :=
  numberAt (userOp.paymasterAndData.drop PAYMASTER_DATA_OFFSET) 44 48

theorem validateAuthorization_ok {a : AuthorizationValidation}
    (h : validateAuthorization C D b p userOp maxCost = .ok a) :
    p.consumedSponsorship a.sponsorshipHash = false ∧ signedVersion userOp = p.policyVersion ∧
      maxCost ≤ p.maxCostPerOperation := by
  unfold validateAuthorization at h
  simp only [bind_eq_ok, revertIf_eq_ok] at h
  obtain ⟨-, -, -, -, _, -, -, -, -, hv, -, hm, -, hc, h⟩ := h
  cases h
  simp only [not_or, Nat.not_lt, not_not, Bool.not_eq_true] at hv hm hc
  exact ⟨hc, hv, hm.2⟩

/-- A validation that succeeds returns no context and changes nothing, or reserves the cost. -/
theorem validatePaymasterUserOp_cases
    (h : validatePaymasterUserOp C D b p caller userOp maxCost = .ok (p', context, validationData)) :
    ∃ a, validateAuthorization C D b p userOp maxCost = .ok a ∧
      (a.signatureValid = false ∧ context = [] ∧ p' = p ∨
        a.signatureValid = true ∧ context = encodeContext userOp.sender b.day maxCost ∧
          Reserved b p a.sponsorshipHash ⟨userOp.sender, b.day, maxCost⟩ a.policyVersion p') := by
  unfold validatePaymasterUserOp at h
  simp only [bind_eq_ok, revertIf_eq_ok] at h
  obtain ⟨-, -, -, -, a, ha, h⟩ := h
  refine ⟨a, ha, ?_⟩
  split at h
  case isTrue hs =>
    cases h
    exact .inl ⟨hs, rfl, rfl⟩
  case isFalse hs =>
    simp only [bind_eq_ok] at h
    obtain ⟨⟨p₁, ctx⟩, hr, h⟩ := h
    cases h
    obtain ⟨hr, hctx⟩ := reserveSponsorship_reserved hr
    exact .inr ⟨by simpa using hs, hctx, hr⟩

theorem encodeContext_ne_nil (sender : Address) (day cost : Nat) : encodeContext sender day cost ≠ [] := by
  intro h
  have hlen := congrArg List.length h
  simp [encodeContext] at hlen

/-- What was encoded is decoded. -/
theorem decodeContext_encodeContext {sender : Address} {day cost : Nat} (hd : day < 2 ^ 256) (hc : cost < 2 ^ 256) :
    decodeContext (encodeContext sender day cost) = some (sender, day, cost) := by
  have hs : sender.word.val < 2 ^ 256 := sender.word.isLt.trans (by norm_num)
  have hall : ∀ n ∈ [sender.word.val, day, cost], n < 2 ^ 256 := by
    intro n hn
    simp only [List.mem_cons, List.not_mem_nil, or_false] at hn
    rcases hn with rfl | rfl | rfl
    · exact hs
    · exact hd
    · exact hc
  have hw : ∀ k (hk : k < 3), wordAt (encodeContext sender day cost) (32 * k) =
    some ([sender.word.val, day, cost][k]) := by
    intro k hk
    have hk' : k < [sender.word.val, day, cost].length := hk
    have := wordAt_words [] [] hk' hall
    simpa [encodeContext] using this
  have haddr : addr sender.word.val = sender := by
    cases sender
    simp [addr]
  unfold decodeContext
  rw [show wordAt (encodeContext sender day cost) 0 = some sender.word.val from hw 0 (by omega),
    show wordAt (encodeContext sender day cost) 32 = some day from hw 1 (by omega),
    show wordAt (encodeContext sender day cost) 64 = some cost from hw 2 (by omega)]
  simp [haddr]

/-- A settlement. -/
structure Settled (p : Storage) (r : Reservation) (p' : Storage) : Prop where
  reservedUser : p'.reservedUserByDay =
    Balances.update₂ p.reservedUserByDay r.day r.sender (p.reservedUserByDay r.day r.sender - r.cost)
  reservedGlobal : p'.reservedGlobalByDay =
    Function.update p.reservedGlobalByDay r.day (p.reservedGlobalByDay r.day - r.cost)
  spentUser : p'.spentUserByDay = Balances.update₂ p.spentUserByDay r.day r.sender
    (p.spentUserByDay r.day r.sender + r.cost)
  spentGlobal : p'.spentGlobalByDay = Function.update p.spentGlobalByDay r.day (p.spentGlobalByDay r.day + r.cost)
  consumed : p'.consumedSponsorship = p.consumedSponsorship
  version : p'.policyVersion = p.policyVersion
  accepted : reservations p'.log = reservations p.log ∧ acceptedHashes p'.log = acceptedHashes p.log

theorem postOp_settled {r : Reservation} {mode gas fee : Nat} (hd : r.day < 2 ^ 256) (hc : r.cost < 2 ^ 256)
    (h : postOp D p caller mode r.context gas fee = .ok p') : Settled p r p' := by
  unfold postOp at h
  simp only [Reservation.context, decodeContext_encodeContext hd hc, Option.elim_some, bind_eq_ok, revertIf_eq_ok,
    checkedSub_eq_ok, checkedAdd_eq_ok, Except.ok.injEq] at h
  obtain ⟨-, -, _, rfl, _, ⟨-, rfl⟩, _, ⟨-, rfl⟩, _, ⟨-, rfl⟩, _, ⟨-, rfl⟩, rfl⟩ := h
  exact ⟨rfl, rfl, rfl, rfl, rfl, rfl, by simp [Storage.emit, reservations], by simp [Storage.emit, acceptedHashes]⟩

/-- `postOp` fails for an open reservation only where the spent amounts would not fit in 256 bits. -/
theorem postOp_ok {r : Reservation} (mode gas fee : Nat) (hd : r.day < 2 ^ 256) (hc : r.cost < 2 ^ 256)
    (hu : r.cost ≤ p.reservedUserByDay r.day r.sender) (hg : r.cost ≤ p.reservedGlobalByDay r.day)
    (hu' : p.spentUserByDay r.day r.sender + r.cost < 2 ^ 256) (hg' : p.spentGlobalByDay r.day + r.cost < 2 ^ 256) :
    ∃ p', postOp D p D.entryPoint mode r.context gas fee = .ok p' := by
  unfold postOp
  simp only [Reservation.context, decodeContext_encodeContext hd hc, Option.elim_some, checkedSub_of_le _ hu,
    checkedSub_of_le _ hg, checkedAdd, if_pos hu', if_pos hg', ne_eq, not_true, revertIf_neg,
      not_false_eq_true, ok_bind]
  exact ⟨_, rfl⟩

end

/-! ## The invariant -/

structure Inv (s : System) : Prop where
  books : ∃ opened settled, s.outstanding = opened.map Reservation.context ∧
    (∀ r ∈ opened, r.day < 2 ^ 256 ∧ r.cost < 2 ^ 256) ∧
    (reservations s.paymaster.log).Perm (opened ++ settled) ∧
    Books (fun r => (r.day, r.sender)) Reservation.cost s.paymaster.users opened settled ∧
    Books Reservation.day Reservation.cost s.paymaster.globals opened settled
  once : (acceptedHashes s.paymaster.log).Nodup
  consumed : ∀ hash ∈ acceptedHashes s.paymaster.log, s.paymaster.consumedSponsorship hash = true

/-- A call that leaves the tables and the reservations alone. -/
structure Kept (p p' : Storage) : Prop where
  users : p'.users = p.users
  globals : p'.globals = p.globals
  consumed : p'.consumedSponsorship = p.consumedSponsorship
  reservations : reservations p'.log = reservations p.log
  accepted : acceptedHashes p'.log = acceptedHashes p.log

theorem Kept.inv {s : System} {p : Storage} (h : Inv s) (hk : Kept s.paymaster p) : Inv ⟨p, s.outstanding⟩ where
  books := by rw [hk.users, hk.globals, hk.reservations]; exact h.books
  once := by rw [hk.accepted]; exact h.once
  consumed := by rw [hk.accepted, hk.consumed]; exact h.consumed

theorem setSponsorSigner_ok {D : Setup} {p p' : Storage} {caller newSigner : Address}
    (h : setSponsorSigner D p caller newSigner = .ok p') : Kept p p' ∧ p'.policyVersion = p.policyVersion + 1 := by
  simp only [setSponsorSigner, bind_eq_ok, revertIf_eq_ok, checkedAdd_eq_ok, Except.ok.injEq] at h
  obtain ⟨-, -, -, -, version, ⟨-, hv⟩, hp⟩ := h
  subst hv
  rw [← hp]
  exact ⟨⟨rfl, rfl, rfl, by simp [Storage.emit, reservations], by simp [Storage.emit, acceptedHashes]⟩, rfl⟩

theorem setBudgets_ok {D : Setup} {p p' : Storage} {caller : Address} {operation user global : Nat}
    (h : setBudgets D p caller operation user global = .ok p') :
    Kept p p' ∧ p'.policyVersion = p.policyVersion := by
  simp only [setBudgets, writeBudgets, bind_eq_ok, revertIf_eq_ok, Except.ok.injEq] at h
  obtain ⟨-, -, -, -, hp⟩ := h
  rw [← hp]
  exact ⟨⟨rfl, rfl, rfl, by simp [Storage.emit, reservations], by simp [Storage.emit, acceptedHashes]⟩, rfl⟩

section

variable {C : Crypto} {D : Setup} {s t : System} {p' : Storage}

theorem init_inv (h : Init D s) : Inv s := by
  obtain ⟨controller, signer, operation, user, global, hd, ho⟩ := h
  simp only [deploy, writeBudgets, bind_eq_ok, revertIf_eq_ok, Except.ok.injEq] at hd
  obtain ⟨-, -, -, -, hp⟩ := hd
  refine ⟨⟨[], [], ho, ?_, ?_, ?_, ?_⟩, ?_, ?_⟩
  · intro r hr
    cases hr
  · rw [← hp]
    exact .refl _
  · rw [← hp]
    exact Books.start _ _
  · rw [← hp]
    exact Books.start _ _
  · rw [← hp]
    exact List.nodup_nil
  · rw [← hp]
    intro hash hh
    cases hh

/-- A reservation is entered in both books. -/
theorem Reserved.inv {b : Block} {hash : Bytes32} {r : Reservation} {signed : Nat} (h : Inv s)
    (hr : Reserved b s.paymaster hash r signed p') (hfresh : s.paymaster.consumedSponsorship hash = false) :
    Inv ⟨p', s.outstanding ++ [r.context]⟩ := by
  obtain ⟨opened, settled, ho, hlt, hp, hu, hg⟩ := h.books
  have hlog : reservations p'.log = reservations s.paymaster.log ++ [r] := by rw [hr.log]; simp [reservations]
  have hhash : acceptedHashes p'.log = acceptedHashes s.paymaster.log ++ [hash] := by
    rw [hr.log]; simp [acceptedHashes]
  refine ⟨⟨opened ++ [r], settled, ?_, ?_, ?_, ?_, ?_⟩, ?_, ?_⟩
  · simp [ho]
  · intro q hq
    rcases List.mem_append.mp hq with hq | hq
    · exact hlt q hq
    · obtain rfl := List.mem_singleton.mp hq
      refine ⟨?_, hr.cost_lt⟩
      rw [hr.day]
      exact (Nat.div_le_self _ _).trans_lt b.timestamp_lt
  · rw [hlog, List.append_assoc]
    refine (hp.append_right [r]).trans ?_
    rw [List.append_assoc]
    exact List.perm_append_comm.append_left opened
  · refine hu.reserve ?_ ?_
    · simp only [Storage.users, hr.user, Balances.uncurry_update₂]
    · simp only [Storage.users, hr.spentUser]
  · exact hg.reserve hr.global hr.spentGlobal
  · rw [hhash]
    refine List.nodup_append.mpr ⟨h.once, List.nodup_singleton _, ?_⟩
    intro x hx y hy he
    obtain rfl := List.mem_singleton.mp hy
    rw [he] at hx
    rw [h.consumed _ hx] at hfresh
    cases hfresh
  · intro x hx
    rw [hhash, List.mem_append, List.mem_singleton] at hx
    rw [hr.consumed]
    by_cases he : x = hash
    · rw [he, Function.update_self]
    · rw [Function.update_of_ne he]
      exact h.consumed x (hx.resolve_right he)

/-- A settlement moves a reservation from the open ones to the settled ones. -/
theorem Settled.inv {r : Reservation} {opened settled pre post : List Reservation} (h : Inv s)
    (hs : Settled s.paymaster r p') (he : opened = pre ++ r :: post)
    (hlt : ∀ r ∈ opened, r.day < 2 ^ 256 ∧ r.cost < 2 ^ 256)
    (hp : (reservations s.paymaster.log).Perm (opened ++ settled))
    (hu : Books (fun r => (r.day, r.sender)) Reservation.cost s.paymaster.users opened settled)
    (hg : Books Reservation.day Reservation.cost s.paymaster.globals opened settled) :
    Inv ⟨p', pre.map Reservation.context ++ post.map Reservation.context⟩ := by
  subst he
  refine ⟨⟨pre ++ post, settled ++ [r], ?_, ?_, ?_, ?_, ?_⟩, ?_, ?_⟩
  · rw [List.map_append]
  · intro q hq
    apply hlt
    rcases List.mem_append.mp hq with hq | hq
    · exact List.mem_append_left _ hq
    · exact List.mem_append_right _ (List.mem_cons_of_mem _ hq)
  · rw [hs.accepted.1]
    refine hp.trans ?_
    rw [← List.append_assoc (pre ++ post) settled, List.append_assoc pre, List.cons_append]
    refine List.perm_middle.trans ?_
    rw [← List.append_assoc pre]
    exact (List.perm_append_singleton r _).symm
  · refine hu.settle ?_ ?_
    · simp only [Storage.users, hs.reservedUser, Balances.uncurry_update₂]
    · simp only [Storage.users, hs.spentUser, Balances.uncurry_update₂]
  · exact hg.settle hs.reservedGlobal hs.spentGlobal
  · rw [hs.accepted.2]
    exact h.once
  · rw [hs.accepted.2, hs.consumed]
    exact h.consumed

/-- An outstanding context is that of an open reservation, with the rest of the contexts around it. -/
theorem exists_opened {opened : List Reservation} {pre post : List Bytes} {context : Bytes}
    (h : opened.map Reservation.context = pre ++ context :: post) :
    ∃ pre' r post', opened = pre' ++ r :: post' ∧ pre'.map Reservation.context = pre ∧ r.context = context ∧
      post'.map Reservation.context = post := by
  obtain ⟨pre', rest, ho, hpre, hrest⟩ := List.map_eq_append_iff.mp h
  obtain ⟨r, post', rfl, hr, hpost⟩ := List.map_eq_cons_iff.mp hrest
  exact ⟨pre', r, post', ho, hpre, hr, hpost⟩

theorem step_inv (h : Inv s) (hs : Step C D s t) : Inv t := by
  cases hs with
  | validate hv =>
    obtain ⟨a, ha, ⟨-, hc, hp⟩ | ⟨-, hc, hr⟩⟩ := validatePaymasterUserOp_cases hv
    · rw [if_pos hc, hp]
      exact h
    · have hi := hr.inv h (validateAuthorization_ok ha).1
      simp only [Reservation.context] at hi
      rw [hc, if_neg (encodeContext_ne_nil _ _ _)]
      exact hi
  | settle ho hp =>
    obtain ⟨opened, settled, hmap, hlt, hperm, hu, hg⟩ := h.books
    obtain ⟨pre', r, post', rfl, rfl, rfl, rfl⟩ := exists_opened (hmap.symm.trans ho)
    obtain ⟨hd, hc⟩ := hlt r (by simp)
    exact (postOp_settled hd hc hp).inv h rfl hlt hperm hu hg
  | signer hp => exact (setSponsorSigner_ok hp).1.inv h
  | budgets hp => exact (setBudgets_ok hp).1.inv h

/-- The states of the paymaster and its EntryPoint. -/
abbrev Reachable (C : Crypto) (D : Setup) : System → Prop := Reach.Reachable (Init D) (Step C D)

theorem reachable_inv (h : Reachable C D s) : Inv s :=
  h.invariant (fun _ => init_inv) fun _ _ _ hi hs => step_inv hi hs

/-! ## Versions -/

/-- No step lowers the version of the policy. -/
theorem step_version (h : Inv s) (hs : Step C D s t) : s.paymaster.policyVersion ≤ t.paymaster.policyVersion := by
  cases hs with
  | validate hv =>
    obtain ⟨a, -, ⟨-, -, hp⟩ | ⟨-, -, hr⟩⟩ := validatePaymasterUserOp_cases hv
    · rw [hp]
    · exact hr.version.ge
  | settle ho hp =>
    obtain ⟨opened, settled, hmap, hlt, -, -, -⟩ := h.books
    obtain ⟨pre', r, post', rfl, rfl, rfl, rfl⟩ := exists_opened (hmap.symm.trans ho)
    obtain ⟨hd, hc⟩ := hlt r (by simp)
    exact (postOp_settled hd hc hp).version.ge
  | signer hp => exact (Nat.le_succ _).trans_eq (setSponsorSigner_ok hp).2.symm
  | budgets hp => exact (setBudgets_ok hp).2.ge

theorem run_version (h : Reachable C D s) (hr : Reach.Run (Step C D) s t) :
    s.paymaster.policyVersion ≤ t.paymaster.policyVersion :=
  hr.since (R := fun s t => s.paymaster.policyVersion ≤ t.paymaster.policyVersion) h le_rfl
    fun _ _ hu hle hs => hle.trans (step_version (reachable_inv hu) hs)

/-! ## The budgets -/

/-- The cost of a reservation, for its sender and day. -/
def userCost (day : Nat) (sender : Address) : Reservation → Nat :=
  costAt (fun r => (r.day, r.sender)) Reservation.cost (day, sender)

/-- The cost of a reservation, for its day. -/
def dayCost (day : Nat) : Reservation → Nat := costAt Reservation.day Reservation.cost day

/-- What holds of the paymaster after every run. -/
structure DailyBudgets (C : Crypto) (D : Setup) (s : System) : Prop where
  /-- The global tables are the sums of those by sender. -/
  sums : ∀ day, s.paymaster.reservedGlobalByDay day = ∑ a, s.paymaster.reservedUserByDay day a ∧
    s.paymaster.spentGlobalByDay day = ∑ a, s.paymaster.spentUserByDay day a
  /-- Reserved and spent are together what was accepted on that day. -/
  countedUser : ∀ day a, s.paymaster.spentUserByDay day a + s.paymaster.reservedUserByDay day a =
    tally (userCost day a) (reservations s.paymaster.log)
  countedGlobal : ∀ day, s.paymaster.spentGlobalByDay day + s.paymaster.reservedGlobalByDay day =
    tally (dayCost day) (reservations s.paymaster.log)
  /-- A reservation counts its cost and leaves both totals within the budgets in force, where these are not the largest
  number of 256 bits. -/
  reserve : ∀ b caller userOp maxCost p context validationData,
    validatePaymasterUserOp C D b s.paymaster caller userOp maxCost = .ok (p, context, validationData) → context ≠ [] →
      reservations p.log = reservations s.paymaster.log ++ [⟨userOp.sender, b.day, maxCost⟩] ∧
      (p.spentUserByDay b.day userOp.sender + p.reservedUserByDay b.day userOp.sender ≤
        s.paymaster.maxCostPerUserPerDay ∨
        2 ^ 256 - 1 ≤ s.paymaster.maxCostPerUserPerDay) ∧
      (p.spentGlobalByDay b.day + p.reservedGlobalByDay b.day ≤ s.paymaster.maxCostGlobalPerDay ∨
        2 ^ 256 - 1 ≤ s.paymaster.maxCostGlobalPerDay)
  /-- Every outstanding context is that of a reservation, which `postOp` moves from the reserved to the spent amounts
  of its own day; the subtractions do not underflow. -/
  settle : ∀ context ∈ s.outstanding, ∃ r ∈ reservations s.paymaster.log, r.context = context ∧
    r.cost ≤ s.paymaster.reservedUserByDay r.day r.sender ∧ r.cost ≤ s.paymaster.reservedGlobalByDay r.day ∧
    (∀ caller mode gas fee p, postOp D s.paymaster caller mode context gas fee = .ok p → Settled s.paymaster r p) ∧
    (s.paymaster.spentUserByDay r.day r.sender + r.cost < 2 ^ 256 →
      s.paymaster.spentGlobalByDay r.day + r.cost < 2 ^ 256 →
      ∀ mode gas fee, ∃ p, postOp D s.paymaster D.entryPoint mode context gas fee = .ok p)
  /-- No sponsorship is accepted twice. -/
  once : (acceptedHashes s.paymaster.log).Nodup
  /-- An operation whose signature is rejected gets no context and changes nothing. -/
  rejected : ∀ b caller userOp maxCost a p context validationData,
    validateAuthorization C D b s.paymaster userOp maxCost = .ok a → a.signatureValid = false →
    validatePaymasterUserOp C D b s.paymaster caller userOp maxCost = .ok (p, context, validationData) →
      context = [] ∧ p = s.paymaster
  /-- A new signer raises the version, and what names an earlier one is never validated again. -/
  raised : ∀ caller newSigner p, setSponsorSigner D s.paymaster caller newSigner = .ok p →
    p.policyVersion = s.paymaster.policyVersion + 1
  versions : ∀ t, Reach.Run (Step C D) s t → ∀ b caller userOp maxCost,
    signedVersion userOp < s.paymaster.policyVersion →
      ∀ r, validatePaymasterUserOp C D b t.paymaster caller userOp maxCost ≠ .ok r

theorem le_of_saturatingAdd {a b n : Nat} (h : saturatingAdd a b ≤ n) : a + b ≤ n ∨ 2 ^ 256 - 1 ≤ n := by
  unfold saturatingAdd at h
  omega

/-- A reservation stays within the budgets. -/
theorem Reserved.budgets {b : Block} {p p' : Storage} {hash : Bytes32} {r : Reservation} {signed : Nat}
    (h : Reserved b p hash r signed p') :
    (p'.spentUserByDay r.day r.sender + p'.reservedUserByDay r.day r.sender ≤ p.maxCostPerUserPerDay ∨
      2 ^ 256 - 1 ≤ p.maxCostPerUserPerDay) ∧
    (p'.spentGlobalByDay r.day + p'.reservedGlobalByDay r.day ≤ p.maxCostGlobalPerDay ∨
      2 ^ 256 - 1 ≤ p.maxCostGlobalPerDay) := by
  rw [h.spentUser, h.user, h.spentGlobal, h.global, Balances.update₂_self, Function.update_self]
  exact ⟨le_of_saturatingAdd h.userBudget, le_of_saturatingAdd h.globalBudget⟩

theorem Inv.settle (h : Inv s) {context : Bytes} (hc : context ∈ s.outstanding) :
    ∃ r ∈ reservations s.paymaster.log, r.context = context ∧ r.day < 2 ^ 256 ∧ r.cost < 2 ^ 256 ∧
      r.cost ≤ s.paymaster.reservedUserByDay r.day r.sender ∧ r.cost ≤ s.paymaster.reservedGlobalByDay r.day := by
  obtain ⟨opened, settled, ho, hlt, hp, hu, hg⟩ := h.books
  rw [ho] at hc
  obtain ⟨r, hr, rfl⟩ := List.mem_map.mp hc
  have hmem : r ∈ reservations s.paymaster.log := hp.mem_iff.mpr (List.mem_append_left _ hr)
  obtain ⟨pre, post, rfl⟩ := List.append_of_mem hr
  exact ⟨r, hmem, rfl, (hlt r hr).1, (hlt r hr).2, hu.cost_le, hg.cost_le⟩

theorem daily_budgets (h : Reachable C D s) : DailyBudgets C D s := by
  have hi := reachable_inv h
  obtain ⟨opened, settled, -, -, hperm, hu, hg⟩ := hi.books
  refine ⟨hu.sum hg, fun day a => hu.total hperm (day, a), hg.total hperm, ?_, ?_, hi.once, ?_, ?_, ?_⟩
  · intro b caller userOp maxCost p context validationData hv hne
    obtain ⟨a, -, ⟨-, hc, -⟩ | ⟨-, -, hr⟩⟩ := validatePaymasterUserOp_cases hv
    · exact absurd hc hne
    · refine ⟨?_, hr.budgets⟩
      rw [hr.log]
      simp [reservations]
  · intro context hc
    obtain ⟨r, hr, rfl, hd, hlt, hle, hle'⟩ := hi.settle hc
    refine ⟨r, hr, rfl, hle, hle', ?_, ?_⟩
    · intro caller mode gas fee p hp
      exact postOp_settled hd hlt hp
    · intro hs hs' mode gas fee
      exact postOp_ok mode gas fee hd hlt hle hle' hs hs'
  · intro b caller userOp maxCost a p context validationData ha hs hv
    obtain ⟨a', ha', ⟨-, hc, hp⟩ | ⟨hs', -, -⟩⟩ := validatePaymasterUserOp_cases hv
    · exact ⟨hc, hp⟩
    · rw [ha] at ha'
      cases ha'
      rw [hs] at hs'
      cases hs'
  · intro caller newSigner p hp
    exact (setSponsorSigner_ok hp).2
  · rintro t ht b caller userOp maxCost hlt ⟨p, context, validationData⟩ hv
    obtain ⟨a, ha, -⟩ := validatePaymasterUserOp_cases hv
    have he := (validateAuthorization_ok ha).2.1
    have hle := run_version h ht
    omega

end

/-! ## The largest budget -/

/-- A sample: `keccak256` of the strings that are hashed here. -/
def budgetHashes : List (Bytes × Nat) :=
  [([], 0xc5d2460186f7233c927e7db2dcc703c0e500b653ca82273b7bfad8045d85a470),
    (words [0x8b73c3c69bb8fe3d512ecc4cf759cc79239f7b179b0ffacaa9a75d522b39400f,
        0x82374cfba2c7bd895a115577a45cc7046a0734a21f094c899eba2d3b54e682d0,
        0xc89efdaa54c0f20c7adf612882df0950f5a951637e0307cdcb4c672f298b8bc6, 1, 3],
      0x92ec43dc044485ba93de1f7d6b90f88648b70672ed4f7f541e300681b357927f),
    (words [0x39070a28be1963bb762731190b49ad07506b153b33189df78b2ca3683f46cc68, 9, 1,
        0xc5d2460186f7233c927e7db2dcc703c0e500b653ca82273b7bfad8045d85a470,
        0xc5d2460186f7233c927e7db2dcc703c0e500b653ca82273b7bfad8045d85a470, 0, 0, 0, 150000, 100000, 0, 100,
          2 ^ 255, 1, 1, 2, 3],
      0x5b19cb936ceb240ebdb3f4cbfef406c41551dae1655b4b242b9212f189e95890),
    (words [0x39070a28be1963bb762731190b49ad07506b153b33189df78b2ca3683f46cc68, 9, 2,
        0xc5d2460186f7233c927e7db2dcc703c0e500b653ca82273b7bfad8045d85a470,
        0xc5d2460186f7233c927e7db2dcc703c0e500b653ca82273b7bfad8045d85a470, 0, 0, 0, 150000, 100000, 0, 100,
          2 ^ 255, 1, 1, 2, 3],
      0xfcc06056d83b3cd96f4a1f76ace2504f388356df6d9eb6ca2e2cbafc90f0a396),
    ([0x19, 0x01] ++ words [0x92ec43dc044485ba93de1f7d6b90f88648b70672ed4f7f541e300681b357927f,
        0x5b19cb936ceb240ebdb3f4cbfef406c41551dae1655b4b242b9212f189e95890],
      0x437358c02b8d8ba8b758072c171cfe63edce2299e5ca4b3452b5e2412b8772ad),
    ([0x19, 0x01] ++ words [0x92ec43dc044485ba93de1f7d6b90f88648b70672ed4f7f541e300681b357927f,
        0xfcc06056d83b3cd96f4a1f76ace2504f388356df6d9eb6ca2e2cbafc90f0a396],
      0x61fd974e85e3bc5539399f76a07d6c4303e0754d6a49fc0fa9ea6cd97bc6b01d)]

def budgetKeccak (b : Bytes) : Nat := (budgetHashes.lookup b).getD 0

/-- The signer: the address of the key `1`. -/
def budgetSigner : Address := addr 0x7e5f4552091a69125d5dfcb7b8c2659029395bdf

/-- Its signatures of the two digests. -/
def budgetSignature (nonce : Nat) : Bytes :=
  if nonce = 1 then
    words [0x89b6bd7a7c385383ff466db721729e2f4ab4c650bb72e2dedfafd6ff61277a55,
      0x5cc97d68ed1a544ec713415e1dad51903e539db41e50a12ff243b3283b0aad16] ++ [28]
  else
    words [0x5906b1439b994465c9f3d4fdf7f09a4ab9ae0864262b0140def210148b097533,
      0x652240a75ffab9172cbe66e943b548cb7d0caf8207bb0f9a7a936878de477507] ++ [28]

/-- The hashes, and a recovery that knows the two signatures. -/
def sampleCrypto : Crypto where
  keccak256 := budgetKeccak
  hashTypedData chainid structHash := budgetKeccak ([0x19, 0x01] ++ words [budgetKeccak (words
    [0x8b73c3c69bb8fe3d512ecc4cf759cc79239f7b179b0ffacaa9a75d522b39400f,
      0x82374cfba2c7bd895a115577a45cc7046a0734a21f094c899eba2d3b54e682d0,
      0xc89efdaa54c0f20c7adf612882df0950f5a951637e0307cdcb4c672f298b8bc6, chainid, 3]), structHash])
  tryRecover hash signature :=
    if hash = 0x437358c02b8d8ba8b758072c171cfe63edce2299e5ca4b3452b5e2412b8772ad ∧ signature = budgetSignature 1 ∨
        hash = 0x61fd974e85e3bc5539399f76a07d6c4303e0754d6a49fc0fa9ea6cd97bc6b01d ∧ signature = budgetSignature 2 then
      some budgetSigner
    else none

def sampleSetup : Setup := ⟨addr 1, addr 2, addr 3, 0x39070a28be1963bb762731190b49ad07506b153b33189df78b2ca3683f46cc68⟩

def sampleBlock : Block := ⟨50, 1, false, by decide⟩

/-- An operation that is sponsored for `2 ^ 255`. -/
def sampleUserOp (nonce : Nat) (signature : Bytes) : PackedUserOperation where
  sender := addr 9
  nonce := nonce
  initCode := []
  callData := []
  accountGasLimits := 0
  preVerificationGas := 0
  gasFees := 0
  paymasterAndData := (word 3).drop 12 ++ (beBytes 16 150000 ++ (beBytes 16 100000 ++ (beBytes 6 0 ++ (beBytes 6 100 ++
    (word (2 ^ 255) ++ (beBytes 4 1 ++ signature))))))

def sponsored (nonce : Nat) : PackedUserOperation := sampleUserOp nonce (budgetSignature nonce)

/-- An operation with the signature of another one. -/
def forged : PackedUserOperation := sampleUserOp 3 (budgetSignature 2)

/-- With the largest budgets: `2 ^ 255` is reserved and settled, and reserved again; the forged operation is left
out. -/
def sampleRun : Except SponsorErr (Storage × Bytes × Storage × Storage × Bytes × Bytes) := do
  let p₀ ← deploy sampleSetup (addr 7) budgetSigner (2 ^ 256 - 1) (2 ^ 256 - 1) (2 ^ 256 - 1)
  let (p₁, c₁, _) ← validatePaymasterUserOp sampleCrypto sampleSetup sampleBlock p₀ (addr 2) (sponsored 1) (2 ^ 255)
  let p₂ ← postOp sampleSetup p₁ (addr 2) 0 c₁ 0 0
  let (p₃, c₃, _) ← validatePaymasterUserOp sampleCrypto sampleSetup sampleBlock p₂ (addr 2) (sponsored 2) (2 ^ 255)
  let (_, c₄, _) ← validatePaymasterUserOp sampleCrypto sampleSetup sampleBlock p₃ (addr 2) forged (2 ^ 255)
  .ok (p₁, c₁, p₂, p₃, c₃, c₄)

theorem sampleRun_reachable :
    ∃ p₂ p₃ c₃ validationData, Reachable sampleCrypto sampleSetup ⟨p₂, []⟩ ∧
      validatePaymasterUserOp sampleCrypto sampleSetup sampleBlock p₂ (addr 2) (sponsored 2) (2 ^ 255) =
        .ok (p₃, c₃, validationData) ∧ c₃.length = 96 ∧ p₂.maxCostPerUserPerDay = 2 ^ 256 - 1 ∧
      p₃.spentUserByDay 0 (addr 9) + p₃.reservedUserByDay 0 (addr 9) = 2 ^ 256 ∧
      ∃ p₄ v₄, validatePaymasterUserOp sampleCrypto sampleSetup sampleBlock p₃ (addr 2) forged (2 ^ 255) =
        .ok (p₄, [], v₄) := by
  have hx : sampleRun.map (fun r => (r.2.1.length, r.2.2.2.2.1.length, r.2.2.1.maxCostPerUserPerDay,
      r.2.2.2.1.spentUserByDay 0 (addr 9) + r.2.2.2.1.reservedUserByDay 0 (addr 9), r.2.2.2.2.2)) =
        .ok (96, 96, 2 ^ 256 - 1, 2 ^ 256, []) := by decide +kernel
  cases he : sampleRun with
  | error e =>
    rw [he] at hx
    cases hx
  | ok r =>
    obtain ⟨p₁, c₁, p₂, p₃, c₃, c₄⟩ := r
    rw [he] at hx
    simp only [Except.map, Except.ok.injEq, Prod.mk.injEq] at hx
    obtain ⟨hc₁, hc₃, hb, hsum, rfl⟩ := hx
    have hne : c₁ ≠ [] := by
      rintro rfl
      cases hc₁
    simp only [sampleRun, bind_eq_ok] at he
    obtain ⟨p₀, h₀, ⟨q₁, d₁, v₁⟩, h₁, q₂, h₂, ⟨q₃, d₃, v₃⟩, h₃, ⟨q₄, d₄, v₄⟩, h₄, hr⟩ := he
    cases hr
    have hr₀ : Reachable sampleCrypto sampleSetup ⟨p₀, []⟩ := .start ⟨_, _, _, _, _, h₀, rfl⟩
    have hr₁ := hr₀.next (.validate h₁)
    rw [if_neg hne, List.nil_append] at hr₁
    have ho := List.nil_append [d₁]
    have hr₂ := hr₁.next (.settle ho.symm h₂)
    exact ⟨_, _, _, v₃, hr₂, h₃, hc₃, hb, hsum, _, v₄, h₄⟩

/-- With the largest budget the saturating addition lets the total exceed it. -/
theorem budget_saturated :
    ∃ (s : System) (b : Block) (caller : Address) (userOp : PackedUserOperation) (maxCost : Nat) (p : Storage)
      (context : Bytes) (validationData : Nat), Reachable sampleCrypto sampleSetup s ∧
      validatePaymasterUserOp sampleCrypto sampleSetup b s.paymaster caller userOp maxCost =
        .ok (p, context, validationData) ∧ context ≠ [] ∧
      s.paymaster.maxCostPerUserPerDay < p.spentUserByDay b.day userOp.sender + p.reservedUserByDay b.day
        userOp.sender := by
  obtain ⟨p₂, p₃, c₃, v, hr, hv, hc, hb, hsum, -⟩ := sampleRun_reachable
  refine ⟨_, _, _, _, _, _, _, _, hr, hv, ?_, ?_⟩
  · rintro rfl
    cases hc
  · rw [hb]
    have hday : p₃.spentUserByDay sampleBlock.day (sponsored 2).sender +
        p₃.reservedUserByDay sampleBlock.day (sponsored 2).sender = 2 ^ 256 := hsum
    rw [hday]
    decide

/-- After the run one sponsorship is outstanding; the forged operation gets no context. -/
theorem daily_budgets_sample : ∃ s, DailyBudgets sampleCrypto sampleSetup s ∧ s.outstanding.length = 1 ∧
    ∃ p validationData,
    validatePaymasterUserOp sampleCrypto sampleSetup sampleBlock s.paymaster (addr 2) forged (2 ^ 255) =
      .ok (p, [], validationData) := by
  obtain ⟨p₂, p₃, c₃, v, hr, hv, hc, -, -, hforged⟩ := sampleRun_reachable
  have hne : c₃ ≠ [] := by
    rintro rfl
    cases hc
  have hr' := hr.next (.validate hv)
  refine ⟨_, daily_budgets hr', ?_⟩
  rw [if_neg hne]
  exact ⟨rfl, hforged⟩

end Cpredict.Paymaster
