import Cpredict.Financial.Balances

/-!
# Reconciliation

The facts of the ledger are added up to what the views of the contracts are expected to return
(`reconciliationChecks`). For the shares the checks cannot fail: what is expected of an account is its balance on
the chain, and no holder is left out (`share_checks_hold`).
-/

namespace Cpredict.Financial

open Outcome Indexer Transfers Tally

inductive ReconciliationErr
  | coverageGap
  | factIncomplete
  | bondHistoryMissing
  | capacityExceeded
  | invalidConsumed
deriving DecidableEq

/-- The views that are read, with their arguments. -/
inductive View
  | totalPrincipal
  | remainingWinnerPool
  | remainingEarlyBirdPool
  | remainingEarlyBirdScore
  | remainingRefundPrincipal
  | remainingTimeoutBonusPool
  | remainingTimeoutBonusUnits
  | marketState
  | totalEarlyBirdScore
  | totalCredits
  | totalLocked
  | sharesOf (owner : Address) (outcomeId : Nat)
  | totalSupply (outcomeId : Nat)
  | principalByOutcome (outcomeId : Nat)
  | earlyBirdScore (owner : Address)
  | timeoutBonusUnits (owner : Address)
  | creditOf (owner : Address)
  | balanceOf (account : Address)
deriving DecidableEq

inductive Comparison
  | equal
  | atLeast
deriving DecidableEq

structure Check where
  contract : Address
  view : View
  expected : Int
  comparison : Comparison
deriving DecidableEq

structure BondRecord where
  creator : Address
  amount : Nat
  settled : Bool
deriving DecidableEq

/-- What the facts have added up to, and the bonds and markets that they are about. -/
structure Expectation where
  values : OrderedMap (Address × View) Int
  bonds : OrderedMap Address BondRecord
  markets : List Address
  distinct : (values.entries.map Prod.fst).Nodup

namespace Expectation

variable (s : Expectation)

def get (contract : Address) (view : View) : Int := (s.values.get (contract, view)).getD 0

/-- `add`, where the value is replaced. -/
def put (contract : Address) (view : View) (value : Int) : Expectation :=
  { s with
    values := s.values.set (contract, view) value
    distinct := OrderedMap.nodup_set s.distinct _ _ }

def add (contract : Address) (view : View) (delta : Int) : Expectation :=
  s.put contract view (s.get contract view + delta)

def shares (market : Address) (owner : Option Address) (outcomeId : Nat) (delta : Int) : Expectation :=
  match owner with
  | some owner => s.add market (.sharesOf owner outcomeId) delta
  | none => s

def supply (market : Address) (outcomeId : Nat) (delta : Int) : Expectation :=
  s.add market (.totalSupply outcomeId) delta

def credit (contract owner : Address) (delta : Int) : Expectation :=
  (s.add contract (.creditOf owner) delta).add contract .totalCredits delta

/-- `markets.add` -/
def addMarket (market : Option Address) : Expectation :=
  match market with
  | some m => { s with markets := if m ∈ s.markets then s.markets else s.markets ++ [m] }
  | none => s

end Expectation

namespace LedgerFact

variable (f : LedgerFact)

def number (name : String) : Except ReconciliationErr Nat :=
  match f.extra.get name with
  | some (.decimal n) => if 0 ≤ n then .ok n.toNat else .error .factIncomplete
  | _ => .error .factIncomplete

/-- `Number(f.extra.outcomeCount)`, in the bounds of a market. -/
def outcomeCount : Except ReconciliationErr Nat :=
  let bounded (n : Int) : Except ReconciliationErr Nat := if n < 2 ∨ 32 < n then .error .factIncomplete else .ok n.toNat
  match f.extra.get "outcomeCount" with
  | some (.number n) => bounded n
  | some (.decimal n) => bounded n
  | _ => .error .factIncomplete

def consumedParts : Except ReconciliationErr (List Used) :=
  match f.extra.get "consumed" with
  | some (.used parts) => .ok parts
  | _ => .error .invalidConsumed

end LedgerFact

/-! ## The facts, one after the other -/

section

variable (c : Deployment) (accounts : List Address) (f : LedgerFact) (s : Expectation)

def expectInitialized : Except ReconciliationErr Expectation :=
  match f.market with
  | some m => do
    let views : List View := [.totalPrincipal, .remainingWinnerPool, .remainingEarlyBirdPool, .remainingEarlyBirdScore,
      .remainingRefundPrincipal, .remainingTimeoutBonusPool, .remainingTimeoutBonusUnits, .marketState]
    let count ← f.outcomeCount
    .ok ((List.range count).foldl (fun s i => s.supply m i 0) (views.foldl (fun s v => s.add m v 0) s))
  | none => .ok s

def expectPurchase : Except ReconciliationErr Expectation :=
  match f.market, f.owner, f.outcomeId with
  | some m, some o, some outcomeId => do
    let u : Int := f.units.getD 0
    let a : Int := f.amount.getD 0
    let score ← f.number "score"
    let s := ((s.shares m (some o) outcomeId u).supply m outcomeId u).add m .totalPrincipal a
    .ok (((s.add m (.principalByOutcome outcomeId) a).add m (.earlyBirdScore o) score).add m .totalEarlyBirdScore score)
  | _, _, _ => .ok s

def expectTransfer : Except ReconciliationErr Expectation :=
  match f.market, f.outcomeId with
  | some m, some outcomeId =>
    let u : Int := f.units.getD 0
    let s := (s.shares m f.owner outcomeId (-u)).shares m f.counterparty outcomeId u
    let s := if f.owner = none then s.supply m outcomeId u else s
    .ok (if f.counterparty = none then s.supply m outcomeId (-u) else s)
  | _, _ => .ok s

def expectListingCreated : Except ReconciliationErr Expectation :=
  match f.market, f.owner, f.outcomeId with
  | some m, some o, some outcomeId =>
    let u : Int := f.units.getD 0
    .ok ((s.shares m (some o) outcomeId (-u)).shares m (some c.marketplace) outcomeId u)
  | _, _, _ => .ok s

/-- A listing that is filled, cancelled or returned. -/
def expectListingClosed : Except ReconciliationErr Expectation :=
  match f.market, f.owner, f.outcomeId with
  | some m, some o, some outcomeId =>
    let u : Int := f.units.getD 0
    let source := if f.kind = .listingFilled ∧ f.extra.get "escrowed" = some (.bool false) then f.counterparty
      else some c.marketplace
    .ok ((s.shares m source outcomeId (-u)).shares m (some o) outcomeId u)
  | _, _, _ => .ok s

def expectBurned : Except ReconciliationErr Expectation :=
  match f.market, f.owner with
  | some m, some o => do
    let u : Int := f.units.getD 0
    let a : Int := f.amount.getD 0
    let parts ← f.consumedParts
    let s := parts.foldl (fun s p => (s.shares m (some o) p.outcomeId (-p.units)).supply m p.outcomeId (-p.units)) s
    let s := if f.kind = .winnerClaimed then s.add m .remainingWinnerPool (-a) else s
    let s := if f.kind = .refunded then s.add m .remainingRefundPrincipal (-a) else s
    .ok (if f.kind = .refunded ∧ f.extra.get "timeoutEligibilityRecorded" = some (.bool true) then
        s.add m (.timeoutBonusUnits o) u
      else s)
  | _, _ => .ok s

def expectResolved : Except ReconciliationErr Expectation :=
  match f.market with
  | some m => do
    let winnerPool ← f.number "winnerPool"
    let earlyBirdPool ← f.number "earlyBirdPool"
    let s := ((s.put m .marketState 1).put m .remainingWinnerPool winnerPool).put m
      .remainingEarlyBirdPool earlyBirdPool
    .ok (s.put m .remainingEarlyBirdScore (s.get m .totalEarlyBirdScore))
  | none => .ok s

def expectVoided : Except ReconciliationErr Expectation :=
  match f.market with
  | some m => do
    let refundPrincipal ← f.number "refundPrincipal"
    .ok ((s.put m .marketState 2).put m .remainingRefundPrincipal refundPrincipal)
  | none => .ok s

def expectEarlyBird : Except ReconciliationErr Expectation :=
  match f.market, f.owner with
  | some m, some o => do
    let a : Int := f.amount.getD 0
    let score ← f.number "score"
    .ok (((s.put m (.earlyBirdScore o) 0).add m .remainingEarlyBirdPool (-a)).add m .remainingEarlyBirdScore (-score))
  | _, _ => .ok s

def expectTimeoutFunded : Except ReconciliationErr Expectation :=
  match f.market with
  | some m => do
    let a : Int := f.amount.getD 0
    let eligibleUnits ← f.number "eligibleUnits"
    .ok ((s.put m .remainingTimeoutBonusPool a).put m .remainingTimeoutBonusUnits eligibleUnits)
  | none => .ok s

def expectTimeoutClaimed : Except ReconciliationErr Expectation :=
  match f.market, f.owner with
  | some m, some o =>
    let u : Int := f.units.getD 0
    let a : Int := f.amount.getD 0
    .ok (((s.add m .remainingTimeoutBonusPool (-a)).add m .remainingTimeoutBonusUnits (-u)).put m
      (.timeoutBonusUnits o) 0)
  | _, _ => .ok s

/-- Credits of a contract that are accrued or claimed. -/
def expectCredit (contract : Address) (delta : Int) : Except ReconciliationErr Expectation :=
  match f.owner with
  | some o => .ok (s.credit contract o delta)
  | none => .ok s

def expectBondLocked : Except ReconciliationErr Expectation :=
  match f.market, f.owner with
  | some m, some o =>
    let a := f.amount.getD 0
    let s := { s with bonds := s.bonds.set m ⟨o, a, false⟩ }
    .ok (s.add c.bondEscrow .totalLocked a)
  | _, _ => .ok s

/-- A bond that is credited, or funds the timeout bonus. -/
def expectBondSettled : Except ReconciliationErr Expectation :=
  match f.market with
  | some m =>
    match s.bonds.get m with
    | some bond =>
      if bond.settled = true then .error .bondHistoryMissing
      else
        let s := { s with bonds := s.bonds.set m { bond with settled := true } }
        let s := s.add c.bondEscrow .totalLocked (-bond.amount)
        .ok (if f.kind = .bondCredited then s.credit c.bondEscrow bond.creator (f.amount.getD 0 : Nat) else s)
    | none => .error .bondHistoryMissing
  | none => .ok s

/-- A payment of an account that is tracked. -/
def expectPayment : Expectation :=
  let tracked (account : Option Address) (delta : Int) (s : Expectation) : Expectation :=
    match account with
    | some o => if o ∈ accounts then s.add c.paymentToken (.balanceOf o) delta else s
    | none => s
  let a : Int := f.amount.getD 0
  tracked f.counterparty a (tracked f.owner (-a) s)

/-- The body of the loop. -/
def expectFact : Except ReconciliationErr Expectation :=
  let s := s.addMarket f.market
  let a : Int := f.amount.getD 0
  match f.kind with
  | .coverageGap => .error .coverageGap
  | .marketInitialized => expectInitialized f s
  | .primaryBuy => expectPurchase f s
  | .shareTransfer => expectTransfer f s
  | .listingCreated => expectListingCreated c f s
  | .listingFilled | .listingCancelled | .listingReturned => expectListingClosed c f s
  | .winnerClaimed | .refunded | .losingBurned => expectBurned f s
  | .marketResolved => expectResolved f s
  | .marketVoided => expectVoided f s
  | .earlyBirdClaimed => expectEarlyBird f s
  | .timeoutFunded => expectTimeoutFunded f s
  | .timeoutClaimed => expectTimeoutClaimed f s
  | .feeAccrued => expectCredit f s c.feeVault a
  | .feeClaimed => expectCredit f s c.feeVault (-a)
  | .bondLocked => expectBondLocked c f s
  | .bondCredited | .bondTimeoutFunded => expectBondSettled c f s
  | .bondClaimed => expectCredit f s c.bondEscrow (-a)
  | .paymentTransfer => .ok (expectPayment c accounts f s)
  | _ => .ok s

/-- What a market owes in its state. -/
def liability (m : Address) : Int :=
  if s.get m .marketState = 0 then s.get m .totalPrincipal
  else if s.get m .marketState = 1 then s.get m .remainingWinnerPool + s.get m .remainingEarlyBirdPool
  else s.get m .remainingRefundPrincipal + s.get m .remainingTimeoutBonusPool

def checksOf : List Check :=
  s.values.entries.map (fun x => ⟨x.1.1, x.1.2, x.2, .equal⟩) ++
    s.markets.map (fun m => ⟨c.paymentToken, .balanceOf m, liability s m, .atLeast⟩) ++
    [c.feeVault, c.bondEscrow].map fun x =>
      ⟨c.paymentToken, .balanceOf x, s.get x .totalCredits + s.get x .totalLocked, .atLeast⟩

/-- The accounts with their opening balances, and the contracts that hold credits. -/
def opening (openingBalances : OrderedMap Address Nat) : Expectation :=
  let s := accounts.foldl (fun s a => s.add c.paymentToken (.balanceOf a) ((openingBalances.get a).getD 0 : Nat))
    (⟨.empty, .empty, [], List.nodup_nil⟩ : Expectation)
  let s := [c.feeVault, c.bondEscrow].foldl (fun s x => s.add x .totalCredits 0) s
  s.add c.bondEscrow .totalLocked 0

end

/-- `financialOrder` sorts the facts as `compareFacts` does. -/
def reconciliationChecks (c : Deployment) (facts : List LedgerFact) (accounts : List Address)
    (openingBalances : OrderedMap Address Nat) : Except ReconciliationErr (List Check) := do
  let s ← (facts.insertionSort (factLe · ·)).foldlM (fun s f => expectFact c accounts f s)
    (opening c accounts openingBalances)
  revertIf (20000 < (checksOf c s).length) .capacityExceeded
  .ok (checksOf c s)

/-! ## The shares that are expected -/

namespace Expectation

variable {s s' s'' : Expectation} {xs ys : List ShareMove}

@[simp] theorem get_put (s : Expectation) (contract contract' : Address) (view view' : View) (value : Int) :
    (s.put contract view value).get contract' view' =
      if contract' = contract ∧ view' = view then value else s.get contract' view' := by
  unfold get put
  by_cases h : contract' = contract ∧ view' = view
  · obtain ⟨rfl, rfl⟩ := h
    simp [OrderedMap.get_set_self]
  · rw [if_neg h, OrderedMap.get_set_of_ne]
    simpa [Prod.ext_iff] using h

@[simp] theorem get_add (s : Expectation) (contract contract' : Address) (view view' : View) (delta : Int) :
    (s.add contract view delta).get contract' view' =
      s.get contract' view' + if contract' = contract ∧ view' = view then delta else 0 := by
  rw [add, get_put]
  by_cases h : contract' = contract ∧ view' = view
  · rw [if_pos h, if_pos h, h.1, h.2]
  · rw [if_neg h, if_neg h, add_zero]

@[simp] theorem get_bonds (s : Expectation) (bonds : OrderedMap Address BondRecord) :
    ({ s with bonds } : Expectation).get = s.get := rfl

@[simp] theorem get_addMarket (s : Expectation) (market : Option Address) : (s.addMarket market).get = s.get := by
  cases market <;> rfl

theorem get_shares (s : Expectation) (m m' : Address) (owner : Option Address) (o o' : Nat) (delta : Int)
    (a : Address) :
    (s.shares m owner o delta).get m' (.sharesOf a o') =
      s.get m' (.sharesOf a o') + if m = m' ∧ owner = some a ∧ o = o' then delta else 0 := by
  cases owner with
  | none => simp [shares]
  | some owner =>
    simp only [shares, get_add, View.sharesOf.injEq, Option.some.injEq]
    congr 1
    exact if_congr ⟨fun h => ⟨h.1.symm, h.2.1.symm, h.2.2.symm⟩, fun h => ⟨h.1.symm, h.2.1.symm, h.2.2.symm⟩⟩ rfl rfl

/-- The expectation of shares is as it was. -/
def Keeps (s s' : Expectation) : Prop := ∀ m a o, s'.get m (.sharesOf a o) = s.get m (.sharesOf a o)

theorem Keeps.refl (s : Expectation) : Keeps s s := fun _ _ _ => rfl

theorem Keeps.trans (h : Keeps s s') (h' : Keeps s' s'') : Keeps s s'' := fun m a o => (h' m a o).trans (h m a o)

theorem Keeps.foldl {ι : Type} {g : Expectation → ι → Expectation} (hg : ∀ s i, Keeps s (g s i)) (is : List ι)
    (s : Expectation) :
    Keeps s (is.foldl g s) := by
  induction is generalizing s with
  | nil => exact .refl s
  | cons i is ih => exact (hg s i).trans (ih (g s i))

theorem keeps_supply (s : Expectation) (m : Address) (o : Nat) (delta : Int) : Keeps s (s.supply m o delta) :=
  fun m' a o' => by
  simp [supply]

theorem keeps_credit (s : Expectation) (contract owner : Address) (delta : Int) :
    Keeps s (s.credit contract owner delta) :=
  fun m' a o' => by simp [credit]

/-- The expectation of shares has followed the moves. -/
def Follows (xs : List ShareMove) (s s' : Expectation) : Prop :=
  ∀ m o a, a ≠ 0 → s'.get m (.sharesOf a o) + tally (sent (m, o) a) xs = s.get m (.sharesOf a o) + tally
    (received (m, o) a) xs

theorem Keeps.follows (h : Keeps s s') : Follows [] s s' := fun m o a _ => by
  simp [h m a o]

theorem Follows.trans (h : Follows xs s s') (h' : Follows ys s' s'') : Follows (xs ++ ys) s s'' := fun m o a ha => by
  have h₁ := h m o a ha
  have h₂ := h' m o a ha
  simp only [tally_append, Nat.cast_add]
  omega

theorem Follows.keeps (h : Follows xs s s') (h' : Keeps s' s'') : Follows xs s s'' := fun m o a ha => by
  rw [h' m a o]
  exact h m o a ha

end Expectation

open Expectation

/-! ## What each fact adds -/

section

variable {c : Deployment} {accounts : List Address} {f : LedgerFact} {s s' : Expectation}
  {m source target a : Address} {o : Nat}

theorem one_eq_nil (h : ∀ m o, f.market = some m → f.outcomeId = some o → False) : f.one source target = [] := by
  unfold LedgerFact.one
  split
  · rename_i hm ho _
    exact (h _ _ hm ho).elim
  · rfl

/-- Units that are expected of one account less, and of another more. -/
theorem shares_follows (m : Address) (giver taker : Option Address) (o units : Nat) (s : Expectation) :
    Follows [⟨(m, o), giver.getD 0, taker.getD 0, units⟩] s ((s.shares m giver o (-units)).shares m taker o units) := by
  intro m' o' a ha
  have hsome : ∀ x : Option Address, x = some a ↔ x.getD 0 = a := fun x => by
    cases x with
    | none => simpa using fun h : (0 : Address) = a => ha h.symm
    | some x => simp
  rw [get_shares, get_shares]
  simp only [tally_cons, tally_nil, sent, received, hsome, Prod.mk.injEq, and_assoc, and_comm (a := o = o')]
  split_ifs <;> simp

/-- The units of one fact. -/
theorem follows_one (hm : f.market = some m) (ho : f.outcomeId = some o) (giver taker : Option Address)
    (s : Expectation) :
    Follows (f.one (giver.getD 0) (taker.getD 0)) s
      ((s.shares m giver o (-(f.units.getD 0 : Nat))).shares m taker o (f.units.getD 0 : Nat)) := by
  have hmoves := shares_follows m giver taker o (f.units.getD 0) s
  unfold LedgerFact.one
  rw [hm, ho]
  cases hu : f.units with
  | none =>
    intro m' o' a ha
    rw [hu] at hmoves
    simpa [sent, received] using hmoves m' o' a ha
  | some units =>
    rw [hu] at hmoves
    exact hmoves

theorem expectInitialized_keeps (h : expectInitialized f s = .ok s') : Keeps s s' := by
  unfold expectInitialized at h
  split at h
  · obtain ⟨count, -, h⟩ := bind_eq_ok.mp h
    obtain rfl := Except.ok.inj h
    refine Keeps.trans (fun m' a o' => ?_) (.foldl (fun s i => keeps_supply s _ i 0) _ _)
    simp
  · exact Except.ok.inj h ▸ .refl s

/-- A fact that lacks its market, its owner or its outcome. -/
theorem lacking_follows {g : Address → Address × Address}
    (h : ∀ m owner o, f.market = some m → f.owner = some owner → f.outcomeId = some o → False) (s : Expectation) :
    Follows (f.owner.elim [] fun owner => f.one (g owner).1 (g owner).2) s s := by
  cases howner : f.owner with
  | none => exact (Keeps.refl s).follows
  | some owner =>
    rw [Option.elim_some, one_eq_nil fun m o hm ho => h m owner o hm howner ho]
    exact (Keeps.refl s).follows

theorem expectPurchase_follows (h : expectPurchase f s = .ok s') :
    Follows (f.owner.elim [] fun owner => f.one 0 owner) s s' := by
  unfold expectPurchase at h
  split at h
  · rename_i m owner o hm howner ho
    obtain ⟨score, -, h⟩ := bind_eq_ok.mp h
    obtain rfl := Except.ok.inj h
    rw [howner, Option.elim_some]
    refine (follows_one hm ho none (some owner) s).keeps fun m' a o' => ?_
    simp [supply, Expectation.shares]
  · rename_i hno
    obtain rfl := Except.ok.inj h
    exact lacking_follows (g := fun owner => (0, owner)) hno s

theorem expectTransfer_follows (h : expectTransfer f s = .ok s') :
    Follows (f.one (f.owner.getD 0) (f.counterparty.getD 0)) s s' := by
  unfold expectTransfer at h
  split at h
  · rename_i m o hm ho
    obtain rfl := Except.ok.inj h
    refine (follows_one hm ho f.owner f.counterparty s).keeps fun m' a o' => ?_
    split_ifs <;> simp [supply]
  · rename_i hno
    obtain rfl := Except.ok.inj h
    rw [one_eq_nil hno]
    exact (Keeps.refl s).follows

theorem expectListingCreated_follows (h : expectListingCreated c f s = .ok s') :
    Follows (f.owner.elim [] fun owner => f.one owner c.marketplace) s s' := by
  unfold expectListingCreated at h
  split at h
  · rename_i m owner o hm howner ho
    obtain rfl := Except.ok.inj h
    rw [howner, Option.elim_some]
    exact follows_one hm ho (some owner) (some c.marketplace) s
  · rename_i hno
    obtain rfl := Except.ok.inj h
    exact lacking_follows (g := fun owner => (owner, c.marketplace)) hno s

theorem expectListingClosed_follows (h : expectListingClosed c f s = .ok s') :
    Follows (f.owner.elim [] fun owner =>
      f.one ((if f.kind = .listingFilled ∧ f.extra.get "escrowed" = some (.bool false) then
      f.counterparty else some c.marketplace).getD 0) owner) s s' := by
  unfold expectListingClosed at h
  split at h
  · rename_i m owner o hm howner ho
    obtain rfl := Except.ok.inj h
    rw [howner, Option.elim_some]
    exact follows_one hm ho _ (some owner) s
  · rename_i hno
    obtain rfl := Except.ok.inj h
    exact lacking_follows (g := fun owner => (_, owner)) hno s

/-- The shares that are burned, one outcome after the other. -/
theorem burned_follows (m owner : Address) (parts : List Used) (s : Expectation) :
    Follows (parts.map fun u => ⟨(m, u.outcomeId), owner, 0, u.units⟩) s
      (parts.foldl (fun s p => (s.shares m (some owner) p.outcomeId (-p.units)).supply m p.outcomeId (-p.units))
        s) := by
  induction parts generalizing s with
  | nil => exact (Keeps.refl s).follows
  | cons p parts ih =>
    have hone := shares_follows m (some owner) none p.outcomeId p.units s
    exact (hone.keeps (keeps_supply _ m p.outcomeId _)).trans (ih _)

theorem consumedParts_eq_ok {parts : List Used} (h : f.consumedParts = .ok parts) : f.consumed = parts := by
  unfold LedgerFact.consumedParts at h
  unfold LedgerFact.consumed
  cases hget : f.extra.get "consumed" with
  | none =>
    rw [hget] at h
    cases h
  | some v =>
    rw [hget] at h
    cases v with
    | used used => exact Except.ok.inj h
    | _ => cases h

theorem expectBurned_follows (h : expectBurned f s = .ok s') :
    Follows (f.market.elim [] fun m => f.owner.elim [] fun owner =>
      f.consumed.map fun u => ⟨(m, u.outcomeId), owner, 0, u.units⟩) s s' := by
  unfold expectBurned at h
  split at h
  · rename_i m owner hm howner
    obtain ⟨parts, hparts, h⟩ := bind_eq_ok.mp h
    obtain rfl := Except.ok.inj h
    rw [hm, howner, Option.elim_some, Option.elim_some, consumedParts_eq_ok hparts]
    refine (burned_follows m owner parts s).keeps fun m' a o' => ?_
    split_ifs <;> simp
  · rename_i hno
    obtain rfl := Except.ok.inj h
    cases hm : f.market with
    | none => exact (Keeps.refl s).follows
    | some m =>
      cases howner : f.owner with
      | none => exact (Keeps.refl s).follows
      | some owner => exact (hno m owner hm howner).elim

theorem expectResolved_keeps (h : expectResolved f s = .ok s') : Keeps s s' := by
  unfold expectResolved at h
  split at h
  · simp only [bind_eq_ok] at h
    obtain ⟨_, _, _, _, h⟩ := h
    obtain rfl := Except.ok.inj h
    exact fun m' a o' => by simp
  · exact Except.ok.inj h ▸ .refl s

theorem expectVoided_keeps (h : expectVoided f s = .ok s') : Keeps s s' := by
  unfold expectVoided at h
  split at h
  · obtain ⟨_, _, h⟩ := bind_eq_ok.mp h
    obtain rfl := Except.ok.inj h
    exact fun m' a o' => by simp
  · exact Except.ok.inj h ▸ .refl s

theorem expectEarlyBird_keeps (h : expectEarlyBird f s = .ok s') : Keeps s s' := by
  unfold expectEarlyBird at h
  split at h
  · obtain ⟨_, _, h⟩ := bind_eq_ok.mp h
    obtain rfl := Except.ok.inj h
    exact fun m' a o' => by simp
  · exact Except.ok.inj h ▸ .refl s

theorem expectTimeoutFunded_keeps (h : expectTimeoutFunded f s = .ok s') : Keeps s s' := by
  unfold expectTimeoutFunded at h
  split at h
  · obtain ⟨_, _, h⟩ := bind_eq_ok.mp h
    obtain rfl := Except.ok.inj h
    exact fun m' a o' => by simp
  · exact Except.ok.inj h ▸ .refl s

theorem expectTimeoutClaimed_keeps (h : expectTimeoutClaimed f s = .ok s') : Keeps s s' := by
  unfold expectTimeoutClaimed at h
  split at h
  · obtain rfl := Except.ok.inj h
    exact fun m' a o' => by simp
  · exact Except.ok.inj h ▸ .refl s

theorem expectCredit_keeps {contract : Address} {delta : Int} (h : expectCredit f s contract delta = .ok s') :
    Keeps s s' := by
  unfold expectCredit at h
  split at h
  · exact Except.ok.inj h ▸ keeps_credit s _ _ _
  · exact Except.ok.inj h ▸ .refl s

theorem expectBondLocked_keeps (h : expectBondLocked c f s = .ok s') : Keeps s s' := by
  unfold expectBondLocked at h
  split at h
  · obtain rfl := Except.ok.inj h
    exact fun m' a o' => by simp
  · exact Except.ok.inj h ▸ .refl s

theorem expectBondSettled_keeps (h : expectBondSettled c f s = .ok s') : Keeps s s' := by
  unfold expectBondSettled at h
  split at h
  · rename_i m _
    split at h
    · rename_i bond _
      split at h
      · cases h
      · obtain rfl := Except.ok.inj h
        have hlocked :
          Keeps s (({ s with bonds := s.bonds.set m { bond with settled := true } } : Expectation).add c.bondEscrow
            .totalLocked (-bond.amount)) := fun m' a o' => by simp
        split
        · exact hlocked.trans (keeps_credit _ _ _ _)
        · exact hlocked
    · cases h
  · exact Except.ok.inj h ▸ .refl s

theorem expectPayment_keeps (c : Deployment) (accounts : List Address) (f : LedgerFact) (s : Expectation) :
    Keeps s (expectPayment c accounts f s) := by
  have htracked : ∀ (account : Option Address) (delta : Int) (s : Expectation), Keeps s (match account with
      | some o => if o ∈ accounts then s.add c.paymentToken (.balanceOf o) delta else s
      | none => s) := by
    intro account delta s
    cases account with
    | none => exact .refl s
    | some o =>
      dsimp only
      split
      · exact fun m' a o' => by simp
      · exact .refl s
  exact (htracked f.owner _ s).trans (htracked f.counterparty _ _)

/-- A fact adds to the expectation what it moves. -/
theorem expectFact_follows (h : expectFact c accounts f s = .ok s') : Follows (f.shareMoves c.marketplace) s s' := by
  have hmarket : Keeps s (s.addMarket f.market) := fun m' a o' => by rw [get_addMarket]
  suffices hrest : Follows (f.shareMoves c.marketplace) (s.addMarket f.market) s' from hmarket.follows.trans hrest
  unfold expectFact at h
  unfold LedgerFact.shareMoves
  cases hk : f.kind <;> simp only [hk] at h ⊢
  case coverageGap => cases h
  case primaryBuy => exact expectPurchase_follows h
  case shareTransfer => exact expectTransfer_follows h
  case listingCreated => exact expectListingCreated_follows h
  case listingFilled =>
    have hclosed := expectListingClosed_follows h
    simpa only [hk, true_and, apply_ite (Option.getD · (0 : Address)), Option.getD_some] using hclosed
  case listingCancelled | listingReturned => simpa [hk] using expectListingClosed_follows h
  case winnerClaimed | refunded | losingBurned => exact expectBurned_follows h
  case marketInitialized => exact (expectInitialized_keeps h).follows
  case marketResolved => exact (expectResolved_keeps h).follows
  case marketVoided => exact (expectVoided_keeps h).follows
  case earlyBirdClaimed => exact (expectEarlyBird_keeps h).follows
  case timeoutFunded => exact (expectTimeoutFunded_keeps h).follows
  case timeoutClaimed => exact (expectTimeoutClaimed_keeps h).follows
  case feeAccrued | feeClaimed | bondClaimed => exact (expectCredit_keeps h).follows
  case bondLocked => exact (expectBondLocked_keeps h).follows
  case bondCredited | bondTimeoutFunded => exact (expectBondSettled_keeps h).follows
  case paymentTransfer => exact (Except.ok.inj h ▸ expectPayment_keeps c accounts f _ : Keeps _ _).follows
  all_goals exact (Except.ok.inj h ▸ Keeps.refl _ : Keeps _ _).follows

theorem expectFacts_follows {facts : List LedgerFact}
    (h : facts.foldlM (fun s f => expectFact c accounts f s) s = .ok s') :
    Follows (facts.flatMap (LedgerFact.shareMoves c.marketplace)) s s' := by
  induction facts generalizing s with
  | nil => exact (Except.ok.inj h ▸ Keeps.refl s : Keeps s s').follows
  | cons f facts ih =>
    rw [List.foldlM_cons] at h
    obtain ⟨s₁, h₁, h⟩ := bind_eq_ok.mp h
    rw [List.flatMap_cons]
    exact (expectFact_follows h₁).trans (ih h)

/-- No gap passes. -/
theorem expectFacts_covered {facts : List LedgerFact}
    (h : facts.foldlM (fun s f => expectFact c accounts f s) s = .ok s') :
    ∀ f ∈ facts, f.kind ≠ .coverageGap := by
  induction facts generalizing s with
  | nil => exact fun f hf => absurd hf List.not_mem_nil
  | cons f facts ih =>
    rw [List.foldlM_cons] at h
    obtain ⟨s₁, h₁, h⟩ := bind_eq_ok.mp h
    refine List.forall_mem_cons.mpr ⟨fun hk => ?_, ih h⟩
    simp only [expectFact, hk] at h₁
    cases h₁

/-! ## The checks -/

/-- At the start nothing is expected of the shares. -/
theorem opening_shares (c : Deployment) (accounts : List Address) (openingBalances : OrderedMap Address Nat)
    (m a : Address)
    (o : Nat) : (opening c accounts openingBalances).get m (.sharesOf a o) = 0 := by
  have hempty : (⟨.empty, .empty, [], List.nodup_nil⟩ : Expectation).get m (.sharesOf a o) = 0 := rfl
  have haccounts : ∀ (s : Expectation) (x : Address),
      Keeps s (s.add c.paymentToken (.balanceOf x) ((openingBalances.get x).getD 0 : Nat)) := fun s x m a o => by simp
  have hcredits : ∀ (s : Expectation) (x : Address), Keeps s (s.add x .totalCredits 0) := fun s x m a o => by simp
  unfold opening
  rw [get_add, Keeps.foldl hcredits _ _ m a o, Keeps.foldl haccounts _ _ m a o, hempty]
  simp

/-- The checks of shares are what is expected of them. -/
theorem mem_checksOf (c : Deployment) (s : Expectation) (x : Check) {a : Address} {o : Nat}
    (hv : x.view = .sharesOf a o) :
    x ∈ checksOf c s ↔ s.values.get (x.contract, .sharesOf a o) = some x.expected ∧ x.comparison = .equal := by
  obtain ⟨m, view, expected, comparison⟩ := x
  obtain rfl : view = .sharesOf a o := hv
  rw [OrderedMap.get_eq_some s.distinct]
  simp only [checksOf, List.mem_append, List.mem_map, Check.mk.injEq, List.map_cons, List.map_nil, List.mem_cons,
    List.not_mem_nil, reduceCtorEq, false_and, and_false, or_false, exists_false]
  constructor
  · rintro ⟨x, hx, rfl, hview, rfl, rfl⟩
    exact ⟨hview ▸ hx, rfl⟩
  · rintro ⟨hx, rfl⟩
    exact ⟨_, hx, rfl, rfl, rfl, rfl⟩

end

variable {decodeEventLog : IndexedEvent → Except FinancialErr (Option (EventName × Args))} {scans : List Scan}
  {fss : List (List LedgerFact)} {mss : List (List Movement)}

/-- What the facts of all scans, in any order, make one expect of an account's shares is what it has. -/
theorem expected_shares {D : Cpredict.Deployment} {w : Core} (hw : Core.Arises D w) (ht : Typed decodeEventLog)
    {c : Deployment}
    (hmp : ∀ x ∈ scans, x.context.deployment.marketplace = c.marketplace)
    (hf : scans.mapM (Scan.facts decodeEventLog) = .ok fss) (hm : scans.mapM (Scan.movements decodeEventLog) = .ok mss)
    (hall : mss.flatten.map Movement.move = shareMoves w.log) {facts : List LedgerFact} (hp : facts.Perm fss.flatten)
    {accounts : List Address} {openingBalances : OrderedMap Address Nat} {s : Expectation}
    (hs : facts.foldlM (fun s f => expectFact c accounts f s) (opening c accounts openingBalances) = .ok s)
    (market : Address) (o : Nat) {a : Address} (ha : a ≠ 0) :
    s.get market (.sharesOf a o) = (w.vaults market).shares.balanceOf o a := by
  have hg : ∀ fs ∈ fss, ∀ f ∈ fs, f.kind ≠ .coverageGap := fun fs hfs f hf =>
    expectFacts_covered hs f (hp.mem_iff.mpr (List.mem_flatten_of_mem hfs hf))
  have hsame : Same (facts.flatMap (LedgerFact.shareMoves c.marketplace)) (shareMoves w.log) :=
    (Same.of_perm (hp.flatMap_right _)).trans (hall ▸ scans_same ht hmp hf hm hg)
  have hbalance := hsame.received_add (hw.inOrder.ledgered.balance market o ha)
  have hfollows := expectFacts_follows hs market o a ha
  rw [opening_shares] at hfollows
  omega

/-- **The reconciliation of shares raises no alarm.** If it goes through, every check of an account's shares names
the shares that the account has on the chain, and every account that has shares is checked. -/
theorem share_checks_hold {D : Cpredict.Deployment} {w : Core} (hw : Core.Arises D w) (ht : Typed decodeEventLog)
    {c : Deployment}
    (hmp : ∀ x ∈ scans, x.context.deployment.marketplace = c.marketplace)
    (hf : scans.mapM (Scan.facts decodeEventLog) = .ok fss) (hm : scans.mapM (Scan.movements decodeEventLog) = .ok mss)
    (hall : mss.flatten.map Movement.move = shareMoves w.log) {facts : List LedgerFact} (hp : facts.Perm fss.flatten)
    {accounts : List Address} {openingBalances : OrderedMap Address Nat} {checks : List Check}
    (hc : reconciliationChecks c facts accounts openingBalances = .ok checks) (market : Address) (o : Nat) {a : Address}
    (ha : a ≠ 0) :
    (∀ x ∈ checks, x.contract = market → x.view = .sharesOf a o →
      x.comparison = .equal ∧ x.expected = (w.vaults market).shares.balanceOf o a) ∧
      (0 < (w.vaults market).shares.balanceOf o a →
        ⟨market, .sharesOf a o, (w.vaults market).shares.balanceOf o a, .equal⟩ ∈ checks) := by
  simp only [reconciliationChecks, bind_eq_ok, Except.ok.injEq] at hc
  obtain ⟨s, hs, _, -, rfl⟩ := hc
  have hsorted := (List.perm_insertionSort (factLe · · = true) facts).trans hp
  have hget := expected_shares hw ht hmp hf hm hall hsorted hs market o ha
  unfold Expectation.get at hget
  constructor
  · rintro x hx rfl hview
    obtain ⟨hx, hk⟩ := (mem_checksOf c s x hview).mp hx
    rw [hx, Option.getD_some] at hget
    exact ⟨hk, hget⟩
  · intro hpos
    refine (mem_checksOf c s _ rfl).mpr ⟨?_, rfl⟩
    cases hv : s.values.get (market, .sharesOf a o) with
    | none =>
      rw [hv, Option.getD_none] at hget
      omega
    | some x =>
      rw [hv, Option.getD_some] at hget
      rw [hget]

theorem Sample.told_reconciled : ∃ checks, reconciliationChecks Sample.deployment Sample.told.flatten
    [] .empty = .ok checks := by
  have hok : (reconciliationChecks Sample.deployment Sample.told.flatten [] .empty).isOk = true := by decide +kernel
  cases hc : reconciliationChecks Sample.deployment Sample.told.flatten [] .empty with
  | ok checks => exact ⟨checks, rfl⟩
  | error e =>
    rw [hc] at hok
    cases hok

/-- In the sample the reconciliation goes through: the shares that were bought from the listing are checked, and the
winner has none left. -/
theorem share_checks_hold_sample : ∃ checks, Sample.history.mapM (Scan.facts Sample.decodeLog) = .ok Sample.told ∧
    reconciliationChecks Sample.deployment Sample.told.flatten [] .empty = .ok checks ∧
    ⟨Sample.market, .sharesOf Sample.bob 0, 1500000, .equal⟩ ∈ checks ∧
    ∀ x ∈ checks, x.contract = Sample.market → x.view = .sharesOf Sample.alice 0 → x.expected = 0 := by
  obtain ⟨checks, hc⟩ := Sample.told_reconciled
  obtain ⟨mss, hm, hall⟩ := Sample.history_movements
  have hbob : ((Sample.acted Sample.settled).core.vaults Sample.market).shares.balanceOf 0 Sample.bob = 1500000 := by
    decide +kernel
  have halice : ((Sample.acted Sample.settled).core.vaults Sample.market).shares.balanceOf 0 Sample.alice = 0 := by
    decide +kernel
  obtain ⟨-, hmem⟩ := share_checks_hold Sample.settled_arises Sample.decodeLog_typed Sample.history_marketplace
    Sample.history_facts hm hall (List.Perm.refl _) hc Sample.market 0 (a := Sample.bob) (by decide)
  obtain ⟨hnone, -⟩ := share_checks_hold Sample.settled_arises Sample.decodeLog_typed Sample.history_marketplace
    Sample.history_facts hm hall (List.Perm.refl _) hc Sample.market 0 (a := Sample.alice) (by decide)
  rw [hbob] at hmem
  refine ⟨checks, Sample.history_facts, hc, hmem (by decide), ?_⟩
  intro x hx hmarket hview
  rw [(hnone x hx hmarket hview).2, halice]
  rfl

end Cpredict.Financial
