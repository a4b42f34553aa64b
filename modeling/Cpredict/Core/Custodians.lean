import Cpredict.Core.Solvency

/-!
# The books of the fee vault and of the exposure guard

What the fee vault accrued for a beneficiary and what it paid out again can be read from the log, where a payment of
just that sum stands before what a contract accrues (`Deposited`), and the guard's reports are of what vaults owe.
`Booked` says that both books are right. It is kept by what concerns neither book (`Aloof`), by fees, by a claim and by
the two ways in which a vault comes to owe more: a purchase, which reserves first, and a bonus, which is reported at
once. So every call of the core keeps it (`exec_booked`).
-/

namespace Cpredict

open Outcome Balances Tally Finset

namespace Event

/-- What an event adds to the credit of `b`. -/
def accruedTo (b : Address) : Event → Nat
  | .FeeAccrued beneficiary _ _ _ amount => if beneficiary = b then amount else 0
  | _ => 0

/-- What an event takes from the fee vault for `b`. -/
def drawnBy (D : Deployment) (b : Address) : Event → Nat
  | .Transfer source target amount => if source = D.feeVault ∧ target = b then amount else 0
  | _ => 0

/-- An event that is in neither book. -/
def OffBooks (D : Deployment) (e : Event) : Prop := ∀ b, e.accruedTo b = 0 ∧ e.drawnBy D b = 0

/-- A fee that one of `S` accrued. -/
def AccruedBy (S : Set Address) : Event → Prop
  | .FeeAccrued _ source _ _ amount => source ∈ S ∧ amount ≠ 0
  | _ => False

theorem OffBooks.not_accruedBy {D : Deployment} {e : Event} (h : e.OffBooks D) (S : Set Address) : ¬e.AccruedBy S := by
  intro ha
  cases e with
  | FeeAccrued beneficiary source kind ref amount =>
    have hz := (h beneficiary).1
    simp only [accruedTo, if_true] at hz
    exact ha.2 hz
  | _ => exact ha

end Event

/-- The contracts of the core. -/
def Deployment.inside (D : Deployment) : Set Address := {a | D.outside a = false}

/-- One call of `accrue`. -/
structure Accrual where
  beneficiary : Address
  amount : Nat
  kind : FeeKind
  reference : FeeReference

/-- What `accrue`, called by `sender`, logs at the time `t`. -/
def accrualLog (t : Nat) (sender : Address) (a : Accrual) : Log :=
  if a.amount = 0 then [] else [⟨t, .FeeAccrued a.beneficiary sender a.kind a.reference a.amount⟩]

/-- Whatever one of `S` accrued it accrued in one or two calls, directly after a payment to the fee vault of just the
sum of both. -/
inductive Deposited (D : Deployment) (S : Set Address) : Log → Prop
  | nil : Deposited D S []
  | other (log : Log) (x : LogEntry) (h : Deposited D S log) (hx : ¬x.event.AccruedBy S) : Deposited D S (log ++ [x])
  | one (log : Log) (t : Nat) (source sender : Address) (a : Accrual) (h : Deposited D S log) :
    Deposited D S (log ++ [⟨t, .Transfer source D.feeVault a.amount⟩] ++ accrualLog t sender a)
  | two (log : Log) (t : Nat) (source sender : Address) (a b : Accrual) (h : Deposited D S log) :
    Deposited D S (log ++ [⟨t, .Transfer source D.feeVault (a.amount + b.amount)⟩] ++ accrualLog t sender a ++
      accrualLog t sender b)

theorem Deposited.append {D : Deployment} {S : Set Address} {log : Log} (h : Deposited D S log) (es : Log)
    (hes : ∀ x ∈ es, ¬x.event.AccruedBy S) : Deposited D S (log ++ es) := by
  induction es using List.reverseRecOn with
  | nil => rwa [List.append_nil]
  | append_singleton es x ih =>
    rw [← List.append_assoc]
    refine .other _ x (ih fun y hy => hes y (List.mem_append_left _ hy)) (hes x ?_)
    exact List.mem_append_right _ List.mem_cons_self

/-- Nobody is among nobody. -/
theorem deposited_empty (D : Deployment) (log : Log) : Deposited D ∅ log :=
  Deposited.nil.append log fun x _ ha => by
    cases hx : x.event with
    | FeeAccrued => rw [hx] at ha; exact ha.1
    | _ => rw [hx] at ha; exact ha

/-- What the fee vault has accrued for `b`. -/
def accruedTo (b : Address) (log : Log) : Nat := tally (fun x => x.event.accruedTo b) log

/-- What the fee vault has paid to `b`. -/
def drawnBy (D : Deployment) (b : Address) (log : Log) : Nat := tally (fun x => x.event.drawnBy D b) log

theorem accruedTo_append (b : Address) (xs ys : Log) : accruedTo b (xs ++ ys) = accruedTo b xs + accruedTo b ys :=
  tally_append _ xs ys

theorem drawnBy_append (D : Deployment) (b : Address) (xs ys : Log) :
    drawnBy D b (xs ++ ys) = drawnBy D b xs + drawnBy D b ys := tally_append _ xs ys

theorem accruedTo_one (b : Address) (t : Nat) (e : Event) : accruedTo b [⟨t, e⟩] = e.accruedTo b := by
  simp [accruedTo]

theorem drawnBy_one (D : Deployment) (b : Address) (t : Nat) (e : Event) : drawnBy D b [⟨t, e⟩] = e.drawnBy D b := by
  simp [drawnBy]

/-- A payment by another account than the fee vault. -/
theorem offBooks_transfer {D : Deployment} {source target : Address} {amount : Nat} (h : source ≠ D.feeVault) :
    (Event.Transfer source target amount).OffBooks D := fun _ => ⟨rfl, if_neg fun hc => h hc.1⟩

namespace Core

/-- The books of the two are right: the credits add up, each is what was accrued and not yet paid, what one of `S`
accrued was paid in for it, and until it is retired the guard has a report of at least what each vault owes. -/
structure Booked (D : Deployment) (S : Set Address) (w : Core) : Prop where
  credits : w.feeVault.credits.Balanced
  accrued : ∀ b, accruedTo b w.log = drawnBy D b w.log + w.feeVault.credits.creditOf b
  deposited : Deposited D S w.log
  reported : w.guard.retired = false → ∀ m, (w.vaults m).guardExposure ≤ w.guard.reportedExposure m

/-- A change that concerns neither book, in which no vault comes to owe more. -/
structure Aloof (D : Deployment) (w w' : Core) : Prop where
  credits : w'.feeVault.credits = w.feeVault.credits
  log : ∃ es, w'.log = w.log ++ es ∧ ∀ x ∈ es, x.event.OffBooks D
  reports : w'.guard.reportedExposure = w.guard.reportedExposure
  retired : w'.guard.retired = false → w.guard.retired = false
  owed : ∀ m, (w'.vaults m).guardExposure ≤ (w.vaults m).guardExposure

section

variable {D : Deployment} {S : Set Address} {w w₁ w' : Core} {caller market owner source target spender : Address}
  {amount : Nat}

theorem tally_offBooks {es : Log} (h : ∀ x ∈ es, x.event.OffBooks D) (b : Address) :
    accruedTo b es = 0 ∧ drawnBy D b es = 0 := by
  induction es with
  | nil => exact ⟨rfl, rfl⟩
  | cons x xs ih =>
    obtain ⟨hx, hxs⟩ := List.forall_mem_cons.mp h
    obtain ⟨h₁, h₂⟩ := ih hxs
    unfold accruedTo drawnBy at *
    simp only [tally_cons, h₁, h₂, (hx b).1, (hx b).2, and_self]

namespace Aloof

theorem refl (w : Core) : Aloof D w w := ⟨rfl, ⟨[], by simp, by simp⟩, rfl, id, fun _ => le_rfl⟩

theorem trans (h : Aloof D w w₁) (h' : Aloof D w₁ w') : Aloof D w w' := by
  obtain ⟨es, hl, he⟩ := h.log
  obtain ⟨es', hl', he'⟩ := h'.log
  refine ⟨h'.credits.trans h.credits, ⟨es ++ es', by rw [hl', hl, List.append_assoc], fun x hx => ?_⟩,
    h'.reports.trans h.reports, fun hr => h.retired (h'.retired hr), fun m => (h'.owed m).trans (h.owed m)⟩
  rcases List.mem_append.mp hx with hx | hx
  · exact he x hx
  · exact he' x hx

/-- A change of what neither of the two has. -/
theorem of_same (hf : w'.feeVault.credits = w.feeVault.credits) (hg : w'.guard = w.guard) (hv : w'.vaults = w.vaults)
    (hl : w'.log = w.log) : Aloof D w w' :=
  ⟨hf, ⟨[], by simpa using hl, by simp⟩, by rw [hg], by rw [hg]; exact id, fun m => by rw [hv]⟩

theorem emitAll {es : List Event} (h : ∀ e ∈ es, e.OffBooks D) : Aloof D w (w.emitAll es) := by
  refine ⟨rfl, ⟨es.map (LogEntry.mk w.now), rfl, fun x hx => ?_⟩, rfl, id, fun _ => le_rfl⟩
  obtain ⟨e, he, rfl⟩ := List.mem_map.mp hx
  exact h e he

theorem emit {e : Event} (h : e.OffBooks D) : Aloof D w (w.emit e) :=
  show Aloof D w (w.emitAll [e]) from emitAll fun x hx => by rw [List.mem_singleton.mp hx]; exact h

theorem setVault {v : Vault} (h : v.guardExposure ≤ (w.vaults market).guardExposure) :
    Aloof D w (w.setVault market v) := by
  refine ⟨rfl, ⟨[], by simp [Core.setVault], by simp⟩, rfl, id, fun m => ?_⟩
  by_cases hm : m = market
  · subst hm; simpa [Core.setVault] using h
  · simp [Core.setVault, hm]

/-- A payment by somebody else. -/
theorem pay (hs : source ≠ D.feeVault) (h : w.pay source target amount = .ok w') : Aloof D w w' := by
  obtain ⟨_, rfl⟩ := pay_eq_ok h
  refine ⟨rfl, ⟨_, rfl, fun x hx => ?_⟩, rfl, id, fun _ => le_rfl⟩
  rw [List.mem_singleton.mp hx]
  exact offBooks_transfer hs

/-- A payment on an allowance, of which the fee vault gives none. -/
theorem payFrom (hw : Wired D w) (h : w.payFrom spender source target amount = .ok w') : Aloof D w w' := by
  have hz : source = D.feeVault → amount = 0 := fun hs => hw.allowance_zero (hs ▸ D.feeVault_inside) h
  obtain ⟨t, _, rfl⟩ := payFrom_eq_ok h
  refine ⟨rfl, ⟨_, rfl, fun x hx b => ?_⟩, rfl, id, fun _ => le_rfl⟩
  rw [List.mem_singleton.mp hx]
  refine ⟨rfl, ?_⟩
  show (if source = D.feeVault ∧ target = b then amount else 0) = 0
  split
  · rename_i hc; exact hz hc.1
  · rfl

theorem pullExact (hw : Wired D w) (h : w.pullExact spender source target amount = .ok w') : Aloof D w w' :=
  payFrom hw (pullExact_eq_ok h).1

/-- What concerns neither book keeps both right. -/
theorem booked (h : Aloof D w w') (hb : Booked D S w) : Booked D S w' := by
  obtain ⟨es, hl, he⟩ := h.log
  refine ⟨by rw [h.credits]; exact hb.credits, fun b => ?_, ?_, fun hr m => ?_⟩
  · obtain ⟨h₁, h₂⟩ := tally_offBooks he b
    have hacc := hb.accrued b
    rw [hl, h.credits, accruedTo_append, drawnBy_append, h₁, h₂]
    omega
  · rw [hl]
    exact hb.deposited.append es fun x hx => (he x hx).not_accruedBy S
  · rw [h.reports]
    exact (h.owed m).trans (hb.reported (h.retired hr) m)

end Aloof

/-! ## What concerns one of the two -/

/-- What an accrual does to the books. -/
theorem accrue_entered {sender : Address} {a : Accrual}
    (h : w.accrue D sender a.beneficiary a.amount a.kind a.reference = .ok w') :
    (w.feeVault.credits.Balanced → w'.feeVault.credits.Balanced) ∧
      (∀ b, w'.feeVault.credits.creditOf b =
        w.feeVault.credits.creditOf b + if a.beneficiary = b then a.amount else 0) ∧
      w'.log = w.log ++ accrualLog w.now sender a ∧ w'.now = w.now ∧ w'.guard = w.guard ∧ w'.vaults = w.vaults := by
  simp only [Core.accrue, FeeVault.accrue, bind_eq_ok, revertIf_eq_ok, Except.ok.injEq] at h
  obtain ⟨f, ⟨_, _, _, _, hf⟩, rfl⟩ := h
  unfold accrualLog
  by_cases hz : a.amount = 0
  · rw [if_pos hz] at hf ⊢
    cases hf
    rw [if_pos hz]
    exact ⟨id, fun b => by simp [hz], (List.append_nil _).symm, rfl, rfl, rfl⟩
  · rw [if_neg hz] at hf ⊢
    simp only [bind_eq_ok, revertIf_eq_ok, Except.ok.injEq] at hf
    obtain ⟨_, _, rfl⟩ := hf
    rw [if_neg hz]
    refine ⟨fun hb => Credits.add_balanced hb _ _, fun b => ?_, rfl, rfl, rfl, rfl⟩
    simp only [emit, Credits.add]
    by_cases hbb : a.beneficiary = b
    · subst hbb; rw [Function.update_self, if_pos rfl]
    · rw [Function.update_of_ne (Ne.symm hbb), if_neg hbb, Nat.add_zero]

theorem accrualLog_accrued (t : Nat) (sender b : Address) (a : Accrual) :
    accruedTo b (accrualLog t sender a) = (if a.beneficiary = b then a.amount else 0) ∧
      drawnBy D b (accrualLog t sender a) = 0 := by
  unfold accrualLog
  split
  · rename_i hz
    simp [hz, accruedTo, drawnBy]
  · exact ⟨accruedTo_one _ _ _, drawnBy_one _ _ _ _⟩

/-- An accrual keeps the books right if what it says of deposits still holds. -/
theorem Booked.enter {S' : Set Address} {sender : Address} {a : Accrual} (hb : Booked D S w)
    (h : w.accrue D sender a.beneficiary a.amount a.kind a.reference = .ok w') (hd : Deposited D S' w'.log) :
    Booked D S' w' := by
  obtain ⟨hcredits, hcredit, hlog, _, hguard, hvaults⟩ := accrue_entered h
  refine ⟨hcredits hb.credits, fun b => ?_, hd, by rw [hguard, hvaults]; exact hb.reported⟩
  obtain ⟨h₁, h₂⟩ := accrualLog_accrued (D := D) w.now sender b a
  have hacc := hb.accrued b
  rw [hcredit, hlog, accruedTo_append, drawnBy_append, h₁, h₂]
  omega

/-- An accrual by an account that is not in `S`. -/
theorem Booked.accrue {sender : Address} {a : Accrual} (hs : sender ∉ S) (hb : Booked D S w)
    (h : w.accrue D sender a.beneficiary a.amount a.kind a.reference = .ok w') : Booked D S w' := by
  refine hb.enter h ?_
  rw [(accrue_entered h).2.2.1]
  refine hb.deposited.append _ fun x hx => ?_
  unfold accrualLog at hx
  split at hx
  · cases hx
  · rw [List.mem_singleton.mp hx]
    exact fun ha => hs ha.1

/-- The payment of a fee to the fee vault. -/
structure Deposit (D : Deployment) (w : Core) (amount : Nat) (w' : Core) : Prop where
  aloof : Aloof D w w'
  now : w'.now = w.now
  logged : ∃ source, w'.log = w.log ++ [⟨w.now, .Transfer source D.feeVault amount⟩]

theorem Deposit.pay (hs : source ≠ D.feeVault) (h : w.pay source D.feeVault amount = .ok w') :
    Deposit D w amount w' := by
  refine ⟨.pay hs h, ?_, source, ?_⟩ <;> obtain ⟨_, rfl⟩ := pay_eq_ok h <;> rfl

theorem Deposit.pullExact (hw : Wired D w) (h : w.pullExact spender source D.feeVault amount = .ok w') :
    Deposit D w amount w' := by
  refine ⟨.pullExact hw h, ?_, source, ?_⟩ <;> obtain ⟨_, _, rfl⟩ := payFrom_eq_ok (pullExact_eq_ok h).1 <;> rfl

/-- A fee in one part. -/
theorem Booked.fee {sender : Address} {a : Accrual} (hb : Booked D S w) (hd : Deposit D w a.amount w₁)
    (h : w₁.accrue D sender a.beneficiary a.amount a.kind a.reference = .ok w') : Booked D S w' := by
  refine (hd.aloof.booked hb).enter h ?_
  obtain ⟨source, hlog⟩ := hd.logged
  rw [(accrue_entered h).2.2.1, hlog, hd.now]
  exact .one _ _ source sender a hb.deposited

/-- Fees in two parts. -/
theorem Booked.fees {w₂ : Core} {sender : Address} {a b : Accrual} (hb : Booked D S w)
    (hd : Deposit D w (a.amount + b.amount) w₁)
    (ha : w₁.accrue D sender a.beneficiary a.amount a.kind a.reference = .ok w₂)
    (h : w₂.accrue D sender b.beneficiary b.amount b.kind b.reference = .ok w') : Booked D S w' := by
  -- between the two calls the payment is not used up, so there the log tells nothing of deposits
  have hmid : Booked D ∅ w₂ := (hd.aloof.booked hb).enter ha (deposited_empty D _)
  refine hmid.enter h ?_
  obtain ⟨source, hlog⟩ := hd.logged
  rw [(accrue_entered h).2.2.1, (accrue_entered ha).2.2.1, (accrue_entered ha).2.2.2.1, hlog, hd.now]
  exact .two _ _ source sender a b hb.deposited

/-- A claim pays out the whole credit, and nothing else. -/
theorem claimFeesFor_booked {beneficiary : Address} (hb : Booked D S w)
    (h : claimFeesFor D w caller beneficiary = .ok w') :
    Booked D S w' := by
  simp only [claimFeesFor, bind_eq_ok, Except.ok.injEq, Prod.exists] at h
  obtain ⟨credits, amount, hc, w₁, hp, rfl⟩ := h
  have hbal := Credits.claim_balanced hb.credits hc
  obtain ⟨rfl, _, _, rfl⟩ := Credits.claim_eq_ok hc
  obtain ⟨_, rfl⟩ := pay_eq_ok hp
  refine ⟨hbal, fun b => ?_, ?_, hb.reported⟩
  swap
  · exact .other _ _ (.other _ _ hb.deposited id) id
  have hacc := hb.accrued b
  simp only [emit, accruedTo_append, drawnBy_append, accruedTo_one, drawnBy_one, Event.accruedTo, Event.drawnBy]
  by_cases hbb : beneficiary = b
  · subst hbb; rw [Function.update_self, if_pos ⟨trivial, rfl⟩]; omega
  · rw [Function.update_of_ne (Ne.symm hbb), if_neg fun hc => hbb hc.2]; omega

/-- A report of what the vault owes, after which it is right whatever the vault owed before. -/
theorem sync_booked {previous current : Nat} (hf : w.feeVault.credits.Balanced)
    (ha : ∀ b, accruedTo b w.log = drawnBy D b w.log + w.feeVault.credits.creditOf b) (hd : Deposited D S w.log)
    (hr : w.guard.retired = false → ∀ m, m ≠ market → (w.vaults m).guardExposure ≤ w.guard.reportedExposure m)
    (h : w.sync market = .ok (w', previous, current)) : Booked D S w' := by
  simp only [sync, Guard.sync, bind_eq_ok, Except.ok.injEq, Prod.exists, Prod.mk.injEq] at h
  obtain ⟨g, p, c, ⟨_, _, hg⟩, rfl, _, _⟩ := h
  have hlog : ∀ u : Core, u.feeVault = w.feeVault → u.log = w.log → u.vaults = w.vaults → u.guard = g →
      (g.retired = false → ∀ m, (w.vaults m).guardExposure ≤ g.reportedExposure m) →
      Booked D S (if g.retired = true then u else u.emit (.ExposureSynced market p c g.totalReportedExposure)) := by
    intro u hu hl hv hgu hrep
    have hbook : Booked D S u := ⟨by rw [hu]; exact hf, fun b => by rw [hl, hu]; exact ha b, by rw [hl]; exact hd,
      fun hx m => by rw [hv, hgu]; exact hrep (hgu ▸ hx) m⟩
    split
    · exact hbook
    · exact (Aloof.emit fun _ => ⟨rfl, rfl⟩).booked hbook
  refine hlog _ rfl rfl rfl rfl fun hret m => ?_
  split at hg
  · rename_i hx
    obtain ⟨rfl, _, _⟩ := by simpa using hg
    rw [hx] at hret
    cases hret
  · rename_i hx
    simp only [bind_eq_ok, checkedSub_eq_ok, Except.ok.injEq, Prod.mk.injEq] at hg
    obtain ⟨_, _, rfl, _⟩ := hg
    by_cases hm : m = market
    · subst hm; simp
    · simp only [Function.update_of_ne hm]
      exact hr (by simpa using hx) m hm

/-! ## The functions of the core -/

/-- A step of a vault that brings it no income. -/
theorem Sound.eased {v : Vault} {e : Option VaultEvent} {p : Option Payment} (h : Sound D w)
    (hm : w.factory.isMarket market = true) (hs : VaultStep D market w.now (w.vaults market) v e p)
    (hi : tally VaultEvent.income e.toList = 0) : v.guardExposure ≤ (w.vaults market).guardExposure := by
  obtain ⟨hmkt, _⟩ := h.markets market hm
  obtain ⟨hcons, _⟩ := hs.conserves hmkt.configured hmkt.pools
  unfold Vault.guardExposure
  omega

/-- No event of a vault is in the books. -/
theorem offBooks_vault (e : VaultEvent) : (Event.vault market e).OffBooks D := fun _ => ⟨rfl, rfl⟩

theorem offBooks_finalRemainder (market : Address) (pool : PoolId) (owner : Address)
    (units remainingUnits amount : Nat) :
    ∀ x ∈ finalRemainder market pool owner units remainingUnits amount, x.OffBooks D := by
  intro x hx
  unfold finalRemainder at hx
  split at hx
  · rw [List.mem_singleton.mp hx]; exact offBooks_vault _
  · cases hx

/-- A step of a vault and its events. -/
theorem vault_aloof {v : Vault} {e : Option VaultEvent} {p : Option Payment} {x : VaultEvent} (h : Sound D w)
    (hm : w.factory.isMarket market = true) (hs : VaultStep D market w.now (w.vaults market) v e p)
    (hi : tally VaultEvent.income e.toList = 0) : Aloof D w ((w.setVault market v).emit (.vault market x)) :=
  (Aloof.setVault (h.eased hm hs hi)).trans (.emit (offBooks_vault x))

/-- A claim: the vault's new storage, some events, a payment from the vault, and one more event. -/
theorem claim_aloof {v : Vault} {es : List Event} {e : VaultEvent} {x : Option VaultEvent} {p : Option Payment}
    (h : Sound D w) (hm : w.factory.isMarket market = true)
    (hs : VaultStep D market w.now (w.vaults market) v x p) (hi : tally VaultEvent.income x.toList = 0)
    (hq : ∀ y ∈ es, y.OffBooks D) (hp : ((w.setVault market v).emitAll es).pay market owner amount = .ok w₁) :
    Aloof D w (w₁.emit (.vault market e)) :=
  (((Aloof.setVault (h.eased hm hs hi)).trans (.emitAll hq)).trans (.pay (h.wired.market_ne hm).1 hp)).trans
    (.emit (offBooks_vault e))

theorem updateBeforeFirstBuy_aloof {terms : MarketTerms} (h : Sound D w)
    (hx : updateBeforeFirstBuy w caller market terms = .ok w') : Aloof D w w' := by
  simp only [updateBeforeFirstBuy, bind_eq_ok, requireMarket_eq_ok, Except.ok.injEq] at hx
  obtain ⟨_, hm, v, hv, rfl⟩ := hx
  exact vault_aloof h hm (.terms caller terms v hv) rfl

theorem creatorVoid_aloof {evidenceHash : Bytes32} (h : Sound D w)
    (hx : creatorVoid w caller market evidenceHash = .ok w') : Aloof D w w' := by
  simp only [creatorVoid, bind_eq_ok, requireMarket_eq_ok, Except.ok.injEq] at hx
  obtain ⟨_, hm, v, hv, rfl⟩ := hx
  exact vault_aloof h hm (.creatorVoid caller evidenceHash v hv) rfl

theorem voidAfterDeadline_aloof (h : Sound D w) (hx : voidAfterDeadline w caller market = .ok w') : Aloof D w w' := by
  simp only [voidAfterDeadline, bind_eq_ok, requireMarket_eq_ok, Except.ok.injEq] at hx
  obtain ⟨_, hm, v, hv, rfl⟩ := hx
  exact vault_aloof h hm (.voidAfterDeadline caller v hv) rfl

theorem claimWinningsFor_aloof (h : Sound D w) (hx : claimWinningsFor D w caller market owner = .ok w') :
    Aloof D w w' := by
  simp only [claimWinningsFor, bind_eq_ok, requireMarket_eq_ok, Except.ok.injEq, Prod.exists] at hx
  obtain ⟨_, hm, v, units, payout, hv, w₁, hp, rfl⟩ := hx
  refine claim_aloof h hm (.claimWinningsFor caller owner v units payout hv) rfl (fun x hx => ?_) hp
  rcases List.mem_append.mp hx with hx | hx
  · exact offBooks_finalRemainder _ _ _ _ _ _ x hx
  · rw [List.mem_singleton.mp hx]; exact offBooks_vault _

theorem claimEarlyBirdFor_aloof (h : Sound D w) (hx : claimEarlyBirdFor w caller market owner = .ok w') :
    Aloof D w w' := by
  simp only [claimEarlyBirdFor, bind_eq_ok, requireMarket_eq_ok, Except.ok.injEq, Prod.exists] at hx
  obtain ⟨_, hm, v, score, reward, hv, w₁, hp, rfl⟩ := hx
  exact claim_aloof h hm (.claimEarlyBirdFor caller owner v score reward hv) rfl (offBooks_finalRemainder _ _ _ _ _ _)
    hp

theorem refundFor_aloof (h : Sound D w) (hx : refundFor D w caller market owner = .ok w') : Aloof D w w' := by
  simp only [refundFor, bind_eq_ok, requireMarket_eq_ok, Except.ok.injEq, Prod.exists] at hx
  obtain ⟨_, hm, v, amount, hv, w₁, hp, rfl⟩ := hx
  refine claim_aloof h hm (.refundFor caller owner v amount hv) rfl (fun x hx => ?_) hp
  obtain ⟨_, _, rfl⟩ := List.mem_map.mp hx
  exact offBooks_vault _

theorem claimTimeoutBonusFor_aloof (h : Sound D w) (hx : claimTimeoutBonusFor w caller market owner = .ok w') :
    Aloof D w w' := by
  simp only [claimTimeoutBonusFor, bind_eq_ok, requireMarket_eq_ok, Except.ok.injEq, Prod.exists] at hx
  obtain ⟨_, hm, v, units, reward, hv, w₁, hp, rfl⟩ := hx
  exact claim_aloof h hm (.claimTimeoutBonusFor caller owner v units reward hv)
    rfl (offBooks_finalRemainder _ _ _ _ _ _) hp

theorem burnLosingPosition_aloof {outcomeId : Nat} (h : Sound D w)
    (hx : burnLosingPosition w caller market outcomeId = .ok w') : Aloof D w w' := by
  simp only [burnLosingPosition, bind_eq_ok, requireMarket_eq_ok, Except.ok.injEq, Prod.exists] at hx
  obtain ⟨_, hm, v, units, hv, rfl⟩ := hx
  refine (Aloof.setVault (h.eased hm (.burnLosingPosition caller outcomeId units v hv) rfl)).trans
    (.emitAll fun x hx => ?_)
  rcases List.mem_pair.mp hx with rfl | rfl <;> exact offBooks_vault _

/-- Shares that move change nothing that a vault owes. -/
theorem shares_aloof {s : Shares} {e : VaultEvent} :
    Aloof D w ((w.setVault market { w.vaults market with shares := s }).emit (.vault market e)) := by
  have hset : Aloof D w (w.setVault market { w.vaults market with shares := s }) := .setVault le_rfl
  exact hset.trans (.emit (offBooks_vault e))

theorem moveShares_aloof {id value : Nat} (h : moveShares w caller market source target id value = .ok w') :
    Aloof D w w' := by
  simp only [moveShares, bind_eq_ok, Except.ok.injEq] at h
  obtain ⟨_, _, s, _, rfl⟩ := h
  exact shares_aloof

theorem safeTransferFrom_aloof {id value : Nat} {accepts : Bool}
    (h : safeTransferFrom D w caller market source target id value accepts = .ok w') : Aloof D w w' := by
  simp only [safeTransferFrom, bind_eq_ok, Except.ok.injEq] at h
  obtain ⟨w₁, hm, _, _, rfl⟩ := h
  exact moveShares_aloof hm

theorem safeBatchTransferFrom_aloof {parts : List (Nat × Nat)} {accepts : Bool}
    (h : safeBatchTransferFrom D w caller market source target parts accepts = .ok w') : Aloof D w w' := by
  simp only [safeBatchTransferFrom, bind_eq_ok, Except.ok.injEq] at h
  obtain ⟨_, _, s, _, _, _, rfl⟩ := h
  exact shares_aloof

theorem setApprovalForAll_aloof {operator : Address} {approved : Bool}
    (h : setApprovalForAll w caller market operator approved = .ok w') : Aloof D w w' := by
  simp only [setApprovalForAll, bind_eq_ok, Except.ok.injEq] at h
  obtain ⟨_, _, rfl⟩ := h
  exact shares_aloof

theorem claimBondFor_aloof {creator : Address} (h : claimBondFor D w caller creator = .ok w') : Aloof D w w' := by
  simp only [claimBondFor, bind_eq_ok, Except.ok.injEq, Prod.exists] at h
  obtain ⟨credits, amount, _, w₁, hp, rfl⟩ := h
  have hset : Aloof D w { w with escrow := { w.escrow with credits := credits } } := .of_same rfl rfl rfl rfl
  exact (hset.trans (.pay D.bondEscrow_ne_feeVault hp)).trans (.emit fun _ => ⟨rfl, rfl⟩)

/-! ## The functions that concern the books -/

/-- A purchase is reserved before the vault owes it. -/
theorem completeBuy_booked {buyer : Address} {outcomeId desiredUnits filledUnits : Nat} {accepts : Bool}
    (hb : Booked D S w) (ho : (w.vaults market).marketState = .open)
    (h : completeBuy D w caller market buyer outcomeId desiredUnits filledUnits accepts = .ok w') : Booked D S w' := by
  simp only [completeBuy, bind_eq_ok, Except.ok.injEq] at h
  obtain ⟨g, hg, v, hv, _, _, rfl⟩ := h
  have hh := Vault.bought_halves hv
  have howed : v.guardExposure = (w.vaults market).guardExposure + filledUnits := by
    obtain ⟨_, _, _, _, _, _, rfl⟩ := Vault.completeBuy_eq_ok.mp hv
    simp only [Vault.guardExposure, Vault.liabilities, Vault.bought, ho] at hh ⊢
    exact hh.totalPrincipal
  have hbook : Booked D S ({ w with guard := g }.setVault market v) := by
    refine ⟨hb.credits, hb.accrued, hb.deposited, fun hret m => ?_⟩
    change g.retired = false at hret
    simp only [Guard.reserve, bind_eq_ok, revertIf_eq_ok] at hg
    obtain ⟨_, _, hg⟩ := hg
    split at hg
    · rename_i hx; cases hg; rw [hx] at hret; cases hret
    · rename_i hx
      simp only [bind_eq_ok, revertIf_eq_ok, Except.ok.injEq] at hg
      obtain ⟨_, _, rfl⟩ := hg
      have hrep := hb.reported (by simpa using hx)
      by_cases hm : m = market
      · subst hm
        simpa [setVault, howed] using hrep m
      · simpa [setVault, hm] using hrep m
  refine ((Aloof.emitAll fun e he => ?_).trans (.emitAll fun e he => ?_)).booked hbook
  · split at he
    · cases he
    · rw [List.mem_singleton.mp he]; exact fun _ => ⟨rfl, rfl⟩
  · rcases List.mem_pair.mp he with rfl | rfl <;> exact offBooks_vault _

theorem buy_booked {outcomeId desiredUnits minUnits maxPayment deadline : Nat} {accepts : Bool} (h : Sound D w)
    (hb : Booked D S w)
    (hx : buy D w caller market outcomeId desiredUnits minUnits maxPayment deadline accepts = .ok w') :
    Booked D S w' := by
  simp only [buy, bind_eq_ok] at hx
  obtain ⟨_, _, _, hf, w₁, hp, hx⟩ := hx
  have ho := (Vault.prepareBuy_eq_ok hf).isOpen
  rw [← (kept_pullExact hp).vaults] at ho
  exact completeBuy_booked ((Aloof.pullExact h.wired hp).booked hb) ho hx

theorem buyWithPermit2_booked {outcomeId desiredUnits minUnits maxPayment callDeadline permittedAmount : Nat}
    {permittedToken : Address} {permitAccepted accepts : Bool} (h : Sound D w) (hb : Booked D S w)
    (hx : buyWithPermit2 D w caller market owner outcomeId desiredUnits minUnits maxPayment callDeadline permittedToken
      permittedAmount permitAccepted accepts = .ok w') : Booked D S w' := by
  simp only [buyWithPermit2, bind_eq_ok] at hx
  obtain ⟨_, _, _, _, _, _, _, hf, _, _, _, _, w₁, hp, hx⟩ := hx
  have ho := (Vault.prepareBuy_eq_ok hf).isOpen
  rw [← (kept_pullExact hp).vaults] at ho
  exact completeBuy_booked ((Aloof.pullExact h.wired hp).booked hb) ho hx

theorem payRake_booked {b : PayoutBreakdown} (hne : market ≠ D.feeVault) (hb : Booked D S w)
    (h : payRake D w market b = .ok w') : Booked D S w' := by
  unfold payRake at h
  simp only at h
  split at h
  · cases h; exact hb
  · simp only [bind_eq_ok] at h
    obtain ⟨w₁, h₁, w₂, h₂, h₃⟩ := h
    exact Booked.fees (a := ⟨_, _, _, _⟩) (b := ⟨_, _, _, _⟩) hb (.pay hne h₁) h₂ h₃

theorem resolve_booked {outcomeId : Nat} {evidenceHash : Bytes32} (h : Sound D w) (hb : Booked D S w)
    (hx : resolve D w caller market outcomeId evidenceHash = .ok w') : Booked D S w' := by
  simp only [resolve, bind_eq_ok, requireMarket_eq_ok, Prod.exists] at hx
  obtain ⟨_, hm, v, payouts, hv, hx⟩ := hx
  cases payouts with
  | none =>
    cases hx
    exact (vault_aloof h hm (.resolveEmpty caller outcomeId evidenceHash v hv) rfl).booked hb
  | some b =>
    simp only [bind_eq_ok, Except.ok.injEq] at hx
    obtain ⟨w₁, h₁, _, _, rfl⟩ := hx
    have hset : Aloof D w (w.setVault market v) :=
      .setVault (h.eased hm (.resolve caller outcomeId evidenceHash v b hv) rfl)
    exact (Aloof.emit (offBooks_vault _)).booked (payRake_booked (h.wired.market_ne hm).1 (hset.booked hb) h₁)

/-- A bond that becomes a bonus is reported before the call ends. -/
theorem settleBond_booked (hb : Booked D S w) (h : settleBond D w market = .ok w') : Booked D S w' := by
  simp only [settleBond, bind_eq_ok, Prod.exists] at h
  obtain ⟨_, _, _, _, _, _, e, b, _, h⟩ := h
  have hset : ∀ e : Escrow, Aloof D w { w with escrow := e } := fun e => .of_same rfl rfl rfl rfl
  split at h
  · simp only [fundTimeoutBonus, bind_eq_ok, Except.ok.injEq, Prod.exists] at h
    obtain ⟨w₁, hp, _, ⟨_, _, v, _, w₂, _, _, hs, _, _, rfl⟩, rfl⟩ := h
    have hb₁ := ((hset e).trans (.pay D.bondEscrow_ne_feeVault hp)).booked hb
    have hb₂ : Booked D S w₂ := by
      refine sync_booked (w := w₁.setVault market v) hb₁.credits hb₁.accrued hb₁.deposited (fun hr m hm => ?_) hs
      simpa [setVault, hm] using hb₁.reported hr m
    exact ((Aloof.emit (offBooks_vault _)).trans (.emit fun _ => ⟨rfl, rfl⟩)).booked hb₂
  · cases h
    refine ((hset _).trans (.emitAll fun x hx => ?_)).booked hb
    rcases List.mem_append.mp hx with hx | hx
    · split at hx
      · rw [List.mem_singleton.mp hx]; exact fun _ => ⟨rfl, rfl⟩
      · cases hx
    · rw [List.mem_singleton.mp hx]; exact fun _ => ⟨rfl, rfl⟩

theorem blank_exposure : Vault.blank.guardExposure = 0 := by
  simp [Vault.guardExposure, Vault.liabilities, Vault.blank, Vault.totalPrincipal, Packing.low]

/-- A new vault owes nothing. -/
theorem registered_aloof {v : Vault} {g : Guard} {f : FeeVault} (hv : v.guardExposure = 0)
    (hg : w.guard.registerMarket market = .ok g) (hf : w.feeVault.registerAccruer market = .ok f) :
    Aloof D w (registered w caller market v g f) := by
  simp only [Guard.registerMarket, FeeVault.registerAccruer, bind_eq_ok, revertIf_eq_ok, Except.ok.injEq] at hg hf
  obtain ⟨_, _, _, _, rfl⟩ := hg
  obtain ⟨_, _, rfl⟩ := hf
  refine ⟨rfl, ⟨[], by simp [registered], by simp⟩, rfl, id, fun m => ?_⟩
  by_cases hm : m = market
  · subst hm; simp [registered, hv]
  · simp [registered, hm]

theorem payCreationFee_booked (hw : Wired D w) (hb : Booked D S w) (h : payCreationFee D w caller market = .ok w') :
    Booked D S w' ∧ Wired D w' := by
  unfold payCreationFee at h
  split at h
  · cases h; exact ⟨hb, hw⟩
  · simp only [bind_eq_ok] at h
    obtain ⟨w₁, hp, ha⟩ := h
    have hconfig : w₁.config = w.config := by
      obtain ⟨_, _, rfl⟩ := payFrom_eq_ok (pullExact_eq_ok hp).1
      rfl
    have hw' := (hw.pullExact hp).accrue ha
    rw [hconfig] at ha
    exact ⟨Booked.fee (a := ⟨_, _, _, _⟩) hb (.pullExact hw hp) ha, hw'⟩

theorem createMarket_booked {p : CreateMarketParams} {platformFees : Option (Nat × Nat)} (h : Sound D w)
    (hb : Booked D S w)
    (hx : createMarket D w caller p platformFees market = .ok w') : Booked D S w' := by
  simp only [createMarket, lockBond, bind_eq_ok, revertIf_eq_ok, Bool.not_eq_true, Except.ok.injEq] at hx
  obtain ⟨_, _, _, _, _, _, _, _, _, _, _, _, _, hnew, v, hv, g, hg, f, hf, w₁, hfee, w₂, ⟨w₃, hp, e, _, rfl⟩, rfl⟩ :=
    hx
  have hzero : v.guardExposure = 0 := by
    rw [(Vault.initializeVault_eq_ok hv).1]
    exact blank_exposure
  have hreg : Aloof D w (registered w caller market v g f) := registered_aloof hzero hg hf
  have hlog := hreg.trans (Aloof.emitAll fun e (he : e ∈ [.vault market (.MarketInitialized v.init),
      .vault market (.MarketMetadataUpdated p.terms), .MarketRegistered market, .AccruerRegistered market]) => by
    simp only [List.mem_cons, List.not_mem_nil, or_false] at he
    rcases he with rfl | rfl | rfl | rfl <;> exact fun _ => ⟨rfl, rfl⟩)
  obtain ⟨hb₁, hw₁⟩ := payCreationFee_booked ((registered_wired h.wired hnew hg hf).emitAll _) (hlog.booked hb) hfee
  have hset : Aloof D w₃ { w₃ with escrow := e } := .of_same rfl rfl rfl rfl
  exact ((((Aloof.pullExact hw₁ hp).trans hset).trans (.emit fun _ => ⟨rfl, rfl⟩)).trans
    (.emit fun _ => ⟨rfl, rfl⟩)).booked hb₁

/-- Only accounts that are none of the contracts make calls of their own. -/
theorem exec_outside {c : CoreCall} (hx : exec D w caller c = .ok w') : caller ∉ D.inside := by
  simp only [exec, bind_eq_ok, revertIf_eq_ok] at hx
  obtain ⟨_, ho, _⟩ := hx
  exact ho

/-- Every call keeps both books right. -/
theorem exec_booked {c : CoreCall} (h : Sound D w) (hs : caller ∉ S) (hb : Booked D S w)
    (hx : exec D w caller c = .ok w') :
    Booked D S w' := by
  simp only [exec, bind_eq_ok, revertIf_eq_ok, Bool.not_eq_false] at hx
  obtain ⟨_, ho, hx⟩ := hx
  have hne : caller ≠ D.feeVault := by rintro rfl; rw [D.feeVault_inside] at ho; cases ho
  have hsame : ∀ {u : Core}, u.feeVault = w.feeVault → u.guard = w.guard → u.vaults = w.vaults → u.log = w.log →
      Booked D S u := fun hf hg hv hl => (Aloof.of_same (by rw [hf]) hg hv hl).booked hb
  cases c with
  | createMarket params platformFees market => exact createMarket_booked h hb hx
  | updateBeforeFirstBuy market terms => exact (updateBeforeFirstBuy_aloof h hx).booked hb
  | buy => exact buy_booked h hb hx
  | buyWithPermit2 => exact buyWithPermit2_booked h hb hx
  | resolve => exact resolve_booked h hb hx
  | creatorVoid => exact (creatorVoid_aloof h hx).booked hb
  | voidAfterDeadline => exact (voidAfterDeadline_aloof h hx).booked hb
  | claimWinningsFor => exact (claimWinningsFor_aloof h hx).booked hb
  | claimEarlyBirdFor => exact (claimEarlyBirdFor_aloof h hx).booked hb
  | refundFor => exact (refundFor_aloof h hx).booked hb
  | claimTimeoutBonusFor => exact (claimTimeoutBonusFor_aloof h hx).booked hb
  | burnLosingPosition => exact (burnLosingPosition_aloof h hx).booked hb
  | safeTransferFrom => exact (safeTransferFrom_aloof hx).booked hb
  | safeBatchTransferFrom => exact (safeBatchTransferFrom_aloof hx).booked hb
  | setApprovalForAll => exact (setApprovalForAll_aloof hx).booked hb
  | settleBond => exact settleBond_booked hb hx
  | claimBondFor => exact (claimBondFor_aloof hx).booked hb
  | claimFeesFor => exact claimFeesFor_booked hb hx
  | accrue beneficiary amount kind ref => exact Booked.accrue (a := ⟨beneficiary, amount, kind, ref⟩) hs hb hx
  | sync =>
    simp only [bind_eq_ok, Except.ok.injEq, Prod.exists] at hx
    obtain ⟨w₁, _, _, hs, rfl⟩ := hx
    exact sync_booked hb.credits hb.accrued hb.deposited (fun hr m _ => hb.reported hr m) hs
  | raiseCap =>
    simp only [Guard.raiseCap, bind_eq_ok, revertIf_eq_ok, Except.ok.injEq] at hx
    obtain ⟨_, _, g, ⟨_, _, rfl⟩, rfl⟩ := hx
    exact ⟨hb.credits, hb.accrued, hb.deposited, hb.reported⟩
  | retireForever =>
    simp only [Guard.retireForever, bind_eq_ok, revertIf_eq_ok, Except.ok.injEq] at hx
    obtain ⟨_, _, g, ⟨_, _, rfl⟩, rfl⟩ := hx
    exact ⟨hb.credits, hb.accrued, hb.deposited, fun hr => by cases hr⟩
  | updateConfig =>
    simp only [bind_eq_ok, Except.ok.injEq] at hx
    obtain ⟨_, _, c, _, rfl⟩ := hx
    exact hsame rfl rfl rfl rfl
  | setDeprecated =>
    simp only [bind_eq_ok, Except.ok.injEq] at hx
    obtain ⟨_, _, rfl⟩ := hx
    exact hsame rfl rfl rfl rfl
  | transferToken => exact (Aloof.pay hne hx).booked hb
  | transferTokenFrom => exact (Aloof.payFrom h.wired hx).booked hb
  | approveToken => cases hx; exact hsame rfl rfl rfl rfl
  | issueToken target amount =>
    cases hx
    have hset := hsame (u := { w with token := { w.token with
        balanceOf := Function.update w.token.balanceOf target (w.token.balanceOf target + amount) } }) rfl rfl rfl rfl
    exact (Aloof.emit (offBooks_transfer D.feeVault_ne_zero.symm)).booked hset
  | setRefusals => cases hx; exact hsame rfl rfl rfl rfl
  | setEmergency => cases hx; exact hsame rfl rfl rfl rfl

theorem genesis_booked (h : Genesis D w) : Booked D S w := by
  refine ⟨by rw [h.feeVault.1]; exact Credits.none_balanced, fun b => ?_, by rw [h.log]; exact .nil, fun _ m => ?_⟩
  · rw [h.log, h.feeVault.1]; rfl
  · rw [h.vaults m, blank_exposure]; exact Nat.zero_le _

theorem tick_booked (hb : Booked D S w) (seconds : Nat) : Booked D S { w with now := w.now + seconds } :=
  ⟨hb.credits, hb.accrued, hb.deposited, hb.reported⟩

theorem Reachable.booked (h : Reachable D w) : Booked D D.inside w := by
  refine Reach.Reachable.invariant (I := Booked D D.inside) (fun _ h₀ => genesis_booked h₀) (fun s t hr hb hs => ?_) h
  cases hs with
  | call _ caller c hx => exact exec_booked (Reachable.sound hr) (exec_outside hx) hb hx
  | tick seconds => exact tick_booked hb seconds

end

end Core

end Cpredict
