import Cpredict.Session.Policy

/-!
# What the policy charges

The words of an encoded call (`wordOf_encodeCall`), from which the policy reads the amount; and what it refuses for
the budget: no check of a batch does, so that an operation is refused for the budget only when its amount exceeds
what is left of it (`budgetExceeded`).
-/

namespace Cpredict.Session

open Outcome Abi

/-! ## The words of a call -/

section

variable {selector : Bytes} {args : List Nat}

theorem length_encodeCall (h : selector.length = 4) : (encodeCall selector args).length = 4 + 32 * args.length := by
  rw [encodeCall, List.length_append, length_words, h]

theorem selectorOf_encodeCall (h : selector.length = 4) : selectorOf (encodeCall selector args) = .ok selector := by
  have hlen : (encodeCall selector args).length = 4 + 32 * args.length := length_encodeCall h
  unfold selectorOf
  rw [revertIf_neg _ (by omega), ok_bind, encodeCall, List.take_left' h]

theorem wordOf_encodeCall (h : selector.length = 4) (hn : ∀ n ∈ args, n < 2 ^ 256) {i : Nat} (hi : i < args.length) :
    wordOf (encodeCall selector args) i = .ok args[i] := by
  have hlen : (encodeCall selector args).length = 4 + 32 * args.length := length_encodeCall h
  have hword := wordAt_words selector [] hi hn
  rw [List.append_nil, h, Nat.mul_comm 32 i] at hword
  unfold wordAt at hword
  split at hword
  · unfold wordOf
    rw [revertIf_neg _ (by omega), ok_bind]
    exact congrArg Except.ok (Option.some.inj hword)
  · cases hword

end

/-! ## The amount of a batch -/

section

variable {P : Policy} {X : Chain} {dynamicChecks : Bool} {account : Address} {amount : Nat}

/-- A payment is charged by a word of its third call, or by what a bid reserves. -/
theorem paymentAmount_ok {c : Call} (h : paymentAmount P X dynamicChecks account c = .ok amount) :
    (selectorOf c.data = .ok BUY ∨ selectorOf c.data = .ok FILL) ∧ wordOf c.data 3 = .ok amount ∨
      selectorOf c.data = .ok CREATE ∧ ∃ units price, wordOf c.data 3 = .ok units ∧ wordOf c.data 4 = .ok price ∧
        amount = (units * price + 999999) / 1000000 := by
  unfold paymentAmount at h
  obtain ⟨selector, hs, h⟩ := bind_eq_ok.mp h
  split at h
  · rename_i hbuy
    simp only [bind_eq_ok, revertIf_eq_ok] at h
    obtain ⟨-, -, x, hx, -, -, h⟩ := h
    cases h
    exact .inl ⟨.inl (hbuy ▸ hs), hx⟩
  · split at h
    · rename_i hfill
      obtain ⟨-, -, h⟩ := bind_eq_ok.mp h
      obtain ⟨x, hx, h⟩ := bind_eq_ok.mp h
      obtain ⟨-, -, h⟩ := bind_eq_ok.mp h
      cases h
      exact .inl ⟨.inr (hfill.1 ▸ hs), hx⟩
    · split at h
      · rename_i hcreate
        simp only [bind_eq_ok, revertIf_eq_ok] at h
        obtain ⟨-, -, side, -, -, -, units, hu, price, hp, -, -, -, -, h⟩ := h
        cases h
        exact .inr ⟨hcreate.1 ▸ hs, units, price, hu, hp, rfl⟩
      · cases h

theorem check_payment {a b c d : Call} (h : check P X dynamicChecks account [a, b, c, d] = .ok amount) :
    paymentAmount P X dynamicChecks account c = .ok amount := by
  have h : checkPayment P X dynamicChecks account a b c d = .ok amount := h
  unfold checkPayment at h
  simp only [bind_eq_ok] at h
  obtain ⟨x, hx, -, -, -, -, -, -, -, -, h⟩ := h
  cases h
  exact hx

/-- Only payments are charged. -/
theorem check_free {calls : List Call} (hlen : calls.length ≠ 4)
    (h : check P X dynamicChecks account calls = .ok amount) :
    amount = 0 := by
  unfold check at h
  split at h
  · exact absurd rfl hlen
  · obtain ⟨-, -, h⟩ := bind_eq_ok.mp h
    exact (Except.ok.inj h).symm
  · obtain ⟨-, -, h⟩ := bind_eq_ok.mp h
    exact (Except.ok.inj h).symm
  · obtain ⟨-, -, h⟩ := bind_eq_ok.mp h
    exact (Except.ok.inj h).symm
  · cases h

end

/-! ## What is refused for the budget -/

/-- The computation does not fail for the budget. -/
def Spares {α : Type} (x : Except SessionErr α) : Prop := x ≠ .error .BudgetExceeded

section

variable {α β : Type} {x : Except SessionErr α} {f : α → Except SessionErr β}

theorem Spares.ok (a : α) : Spares (.ok a : Except SessionErr α) := nofun

theorem Spares.error {e : SessionErr} (h : e ≠ .BudgetExceeded) : Spares (.error e : Except SessionErr α) :=
  fun he => h (Except.error.inj he)

theorem Spares.step (hx : Spares x) (hf : ∀ a, x = .ok a → Spares (f a)) : Spares (x >>= f) := by
  cases x with
  | ok a => exact hf a rfl
  | error e => exact Spares.error fun he => hx (congrArg Except.error he)

theorem Spares.bind (hx : Spares x) (hf : ∀ a, Spares (f a)) : Spares (x >>= f) := hx.step fun a _ => hf a

theorem Spares.revertIf {c : Prop} [Decidable c] {e : SessionErr} (h : e ≠ .BudgetExceeded) :
    Spares (revertIf c e) := by
  unfold Outcome.revertIf
  split
  · exact .error h
  · exact .ok ()

theorem Spares.elim {o : Option α} : Spares (o.elim (.error .Malformed) .ok : Except SessionErr α) := by
  cases o with
  | none => exact .error nofun
  | some a => exact .ok a

theorem Spares.ite {c : Prop} [Decidable c] {y : Except SessionErr α} (hx : Spares x) (hy : Spares y) :
    Spares (if c then x else y) := by
  split
  · exact hx
  · exact hy

end

theorem selectorOf_spares (data : Bytes) : Spares (selectorOf data) := .bind (.revertIf nofun) fun _ => .ok _

theorem wordOf_spares (data : Bytes) (i : Nat) : Spares (wordOf data i) := .bind (.revertIf nofun) fun _ => .ok _

theorem addressOf_spares (data : Bytes) (i : Nat) : Spares (addressOf data i) :=
  .bind (wordOf_spares data i) fun _ => .bind (.revertIf nofun) fun _ => .ok _

theorem decodePayload_spares (mode : Nat) (payload : Bytes) : Spares (decodePayload mode payload) := by
  unfold decodePayload
  refine .ite ?_ (.ite ?_ (.error nofun))
  · exact .bind (.revertIf nofun) fun _ => .ok _
  · exact .bind .elim fun _ => .bind (.revertIf nofun) fun _ => .ok _

theorem decode_spares (data : Bytes) : Spares (decode data) := by
  unfold decode
  refine .bind (.revertIf nofun) fun _ => .bind .elim ?_
  rintro ⟨mode, payload⟩
  refine .bind (.revertIf nofun) fun _ => .bind (decodePayload_spares mode payload) fun calls => ?_
  exact .bind (.revertIf nofun) fun _ => .ok _

section

variable {P : Policy} {X : Chain} {dynamicChecks : Bool} {account : Address}

theorem whenDynamic_spares {x : Except SessionErr Unit} (h : Spares x) : Spares (whenDynamic dynamicChecks x) :=
  .ite h (.ok ())

theorem checkMarket_spares (market : Address) : Spares (checkMarket X market) := .revertIf nofun

theorem checkOrder_spares (id : Nat) (ownerOnly : Bool) : Spares (checkOrder X account id ownerOnly) :=
  .bind (checkMarket_spares _) fun _ => .bind (.revertIf nofun) fun _ => .ok _

theorem checkBond_spares (a : Call) : Spares (checkBond P X dynamicChecks account a) := by
  unfold checkBond
  refine .bind (.revertIf nofun) fun _ => .bind (selectorOf_spares _) fun _ => .bind (.revertIf nofun) fun _ => ?_
  refine .bind (addressOf_spares _ _) fun market => .ite ?_ (.ok ())
  exact .bind (checkMarket_spares market) fun _ => .revertIf nofun

theorem paymentAmount_spares (c : Call) : Spares (paymentAmount P X dynamicChecks account c) := by
  unfold paymentAmount
  refine .bind (selectorOf_spares _) fun selector => .ite ?_ (.ite ?_ (.ite ?_ (.error nofun)))
  · refine .bind (.revertIf nofun) fun _ => .bind (wordOf_spares _ _) fun _ => ?_
    exact .bind (whenDynamic_spares (checkMarket_spares _)) fun _ => .ok _
  · refine .bind (.revertIf nofun) fun _ => .bind (wordOf_spares _ _) fun _ => .bind (whenDynamic_spares ?_) fun _ =>
      .ok _
    refine .bind (wordOf_spares _ _) fun id => .bind (checkOrder_spares id _) ?_
    rintro ⟨_, side⟩
    exact .revertIf nofun
  · refine .bind (.revertIf nofun) fun _ => .bind (wordOf_spares _ _) fun _ => .bind (.revertIf nofun) fun _ => ?_
    refine .bind (wordOf_spares _ _) fun _ => .bind (wordOf_spares _ _) fun _ => .bind (.revertIf nofun) fun _ => ?_
    exact .bind (whenDynamic_spares (.bind (addressOf_spares _ _) fun _ => checkMarket_spares _)) fun _ => .ok _

theorem checkPayment_spares (a b c d : Call) : Spares (checkPayment P X dynamicChecks account a b c d) := by
  unfold checkPayment
  refine .bind (paymentAmount_spares c) fun _ => .bind (.revertIf nofun) fun _ => ?_
  exact .bind (.revertIf nofun) fun _ => .bind (.revertIf nofun) fun _ => .bind (.revertIf nofun) fun _ => .ok _

theorem checkOffer_spares (market : Address) (b : Call) : Spares (checkOffer X dynamicChecks account market b) := by
  unfold checkOffer
  refine .bind (selectorOf_spares _) fun selector => .ite ?_ (.ite ?_ (.error nofun))
  · refine .bind (.revertIf nofun) fun _ => .bind (wordOf_spares _ _) fun _ => .bind (addressOf_spares _ _) fun _ => ?_
    exact .bind (wordOf_spares _ _) fun _ => .bind (wordOf_spares _ _) fun _ => .revertIf nofun
  · refine .bind (.revertIf nofun) fun _ => whenDynamic_spares ?_
    refine .bind (wordOf_spares _ _) fun id => .bind (checkOrder_spares id _) ?_
    rintro ⟨vault, side⟩
    exact .revertIf nofun

theorem checkSale_spares (a b c : Call) : Spares (checkSale P X dynamicChecks account a b c) := by
  unfold checkSale
  refine .bind (.revertIf nofun) fun _ => .bind (checkOffer_spares a.target b) fun _ => ?_
  exact .bind (whenDynamic_spares (checkMarket_spares _)) fun _ => .revertIf nofun

theorem checkSingle_spares (a : Call) : Spares (checkSingle P X dynamicChecks account a) := by
  unfold checkSingle
  refine .bind (selectorOf_spares _) fun selector => .ite ?_ (.ite (checkBond_spares a) (.ite (.revertIf nofun) ?_))
  · refine .bind (.revertIf nofun) fun _ => whenDynamic_spares ?_
    exact .bind (wordOf_spares _ _) fun id => .bind (checkOrder_spares id _) fun _ => .ok ()
  · refine .bind (.revertIf nofun) fun _ => .bind (addressOf_spares _ _) fun _ => ?_
    exact .bind (.revertIf nofun) fun _ => whenDynamic_spares (checkMarket_spares _)

/-- No check of a batch fails for the budget. -/
theorem check_spares (calls : List Call) : Spares (check P X dynamicChecks account calls) := by
  unfold check
  split
  · exact checkPayment_spares _ _ _ _
  · exact .bind (checkSale_spares _ _ _) fun _ => .ok 0
  · exact .bind (.bind (checkBond_spares _) fun _ => .revertIf nofun) fun _ => .ok 0
  · exact .bind (checkSingle_spares _) fun _ => .ok 0
  · exact .error nofun

end

/-- **What is refused for the budget exceeds it.** -/
theorem budgetExceeded {P : Policy} {X : Chain} {S : Sessions} {caller : Address} {id : Bytes32} {op : UserOp}
    (h : checkUserOpPolicy P X S caller id op = .error .BudgetExceeded) : (S.sessionState id caller).installed = true ∧
      ∃ calls amount, decode (op.callData.drop 4) = .ok calls ∧ check P X false caller calls = .ok amount ∧
        ((S.sessionState id caller).perOperation < amount ∨
          (S.sessionState id caller).total < (S.sessionState id caller).spent + amount) := by
  by_contra hno
  refine absurd h (?_ : Spares _)
  unfold checkUserOpPolicy
  dsimp only
  refine .step (.revertIf nofun) fun _ hs => .bind (.revertIf nofun) fun _ => .bind (.revertIf nofun) fun _ => ?_
  have hi : (S.sessionState id caller).installed = true := by
    simpa using (not_or.mp (not_or.mp (revertIf_eq_ok.mp hs)).2).1
  refine .step (decode_spares _) fun calls hd => .step (check_spares calls) fun amount hc => ?_
  have hb : ¬((S.sessionState id caller).perOperation < amount ∨
      (S.sessionState id caller).total < (S.sessionState id caller).spent + amount) :=
    fun hb => hno ⟨hi, calls, amount, hd, hc, hb⟩
  rw [revertIf_neg _ hb, ok_bind]
  exact .bind (.revertIf nofun) fun _ => .ok _

/-- **What is accepted is a batch that the policy has charged.** -/
theorem exec_accepted {P : Policy} {X : Chain} {S S' : Sessions} {caller : Address} {c : PolicyCall} {id : Bytes32}
    {amount v : Nat}
    (h : exec P X S caller c = .ok (S', .accepted id amount v)) :
    ∃ op calls, c = .checkUserOpPolicy id op ∧ decode (op.callData.drop 4) = .ok calls ∧
      check P X false caller calls = .ok amount := by
  cases c with
  | onInstall data =>
    have h : onInstall S caller data = .ok (S', .accepted id amount v) := h
    unfold onInstall at h
    split at h
    · cases h
    · simp only [bind_eq_ok] at h
      obtain ⟨-, -, ⟨p, t, a, u⟩, -, -, -, -, -, h⟩ := h
      cases h
  | onUninstall data =>
    have h : onUninstall S caller data = .ok (S', .accepted id amount v) := h
    unfold onUninstall at h
    split at h
    · cases h
    · simp only [bind_eq_ok] at h
      obtain ⟨-, -, h⟩ := h
      cases h
  | revoke id => cases h
  | checkUserOpPolicy id' op =>
    have h : checkUserOpPolicy P X S caller id' op = .ok (S', .accepted id amount v) := h
    unfold checkUserOpPolicy at h
    simp only [bind_eq_ok] at h
    obtain ⟨-, -, -, -, -, -, calls, hd, x, hc, -, -, -, -, h⟩ := h
    obtain ⟨-, h⟩ := Prod.mk.inj (Except.ok.inj h)
    obtain ⟨rfl, rfl, -⟩ := Done.accepted.inj h
    exact ⟨op, calls, rfl, hd, hc⟩

end Cpredict.Session
