import Cpredict.Operations.Register
import Cpredict.Session.Amount

/-!
# What the calls of an intent spend

The policy charges the calls that are built of an intent by what the record says that the intent spends
(`check_spends`), if it accepts them.
-/

namespace Cpredict.Operations

open Outcome Session

section

variable {d : Deployment} {account : Address} {target : Address} {selector : Bytes} {args : List Arg} {c : Call}
  {calls : List Call}

/-- A call as it is prepared for signing. -/
def withoutValue (c : Call) : Call := { c with value := 0 }

theorem callTo_ok (h : callTo target selector args = .ok c) :
    (∀ a ∈ args, a.2 < 2 ^ a.1) ∧ c = ⟨target, 0, encodeCall selector (args.map Prod.snd)⟩ := by
  unfold callTo encodeFunctionData at h
  split at h
  · rename_i hfit
    exact ⟨hfit, (Except.ok.inj h).symm⟩
  · cases h

/-- The values fit a word. -/
theorem args_lt (h : ∀ a ∈ args, a.2 < 2 ^ a.1) (hw : ∀ a ∈ args, a.1 ≤ 256) :
    ∀ n ∈ args.map Prod.snd, n < 2 ^ 256 := by
  intro n hn
  obtain ⟨a, ha, rfl⟩ := List.mem_map.mp hn
  exact (h a ha).trans_le (Nat.pow_le_pow_right (by norm_num) (hw a ha))

theorem withPayment_ok {spender : Address} {amount : Nat} {action : Call}
    (h : withPayment d spender amount action = .ok calls) :
    ∃ clear approve, callTo d.paymentToken APPROVE [addressArg spender, (256, 0)] = .ok clear ∧
      callTo d.paymentToken APPROVE [addressArg spender, (256, amount)] = .ok approve ∧
      calls = [clear, approve, action, clear] := by
  unfold withPayment at h
  obtain ⟨clear, hclear, h⟩ := bind_eq_ok.mp h
  obtain ⟨approve, happrove, h⟩ := bind_eq_ok.mp h
  exact ⟨clear, approve, hclear, happrove, (Except.ok.inj h).symm⟩

theorem withShares_ok {vault : Address} {action : Call} (h : withShares d vault action = .ok calls) :
    ∃ approve clear, callTo vault SHARE_APPROVE [addressArg d.marketplace, boolArg true] = .ok approve ∧
      callTo vault SHARE_APPROVE [addressArg d.marketplace, boolArg false] = .ok clear ∧
      calls = [approve, action, clear] := by
  unfold withShares at h
  obtain ⟨approve, happrove, h⟩ := bind_eq_ok.mp h
  obtain ⟨clear, hclear, h⟩ := bind_eq_ok.mp h
  exact ⟨approve, clear, happrove, hclear, (Except.ok.inj h).symm⟩

theorem length_withShares {vault : Address} {action : Call} (h : withShares d vault action = .ok calls) :
    calls.length = 3 := by
  obtain ⟨approve, clear, -, -, rfl⟩ := withShares_ok h
  rfl

theorem claimCalls_ok {kind : MarketClaim} {market : Address} (h : claimCalls d account kind market = .ok calls) :
    calls.length ≤ 2 := by
  cases kind <;> simp only [claimCalls, bind_eq_ok] at h
  case settleBondAndClaim =>
    obtain ⟨_, -, _, -, h⟩ := h
    obtain rfl := Except.ok.inj h
    simp
  all_goals
    obtain ⟨_, -, h⟩ := h
    obtain rfl := Except.ok.inj h
    simp

end

section

variable {d : Deployment} {owner account : Address} {P : Policy} {X : Session.Chain}
  {dynamicChecks : Bool} {amount : Nat}
  {calls : List Call}

theorem charged_free (hlen : calls.length ≠ 4)
    (hc : check P X dynamicChecks account (calls.map withoutValue) = .ok amount) : amount = 0 :=
  check_free (by simpa using hlen) hc

/-- A payment is charged by the fourth argument of a purchase or a fill. -/
theorem charged_word {spender target : Address} {selector : Bytes} {args : List Arg} {limit n : Nat} {action : Call}
    (h : withPayment d spender limit action = .ok calls) (ha : callTo target selector args = .ok action)
    (hlen : selector.length = 4) (hs : selector ≠ CREATE) (hw : ∀ a ∈ args, a.1 ≤ 256)
    (hn : (args.map Prod.snd)[3]? = some n)
    (hc : check P X dynamicChecks account (calls.map withoutValue) = .ok amount) : amount = n := by
  obtain ⟨clear, approve, -, -, rfl⟩ := withPayment_ok h
  obtain ⟨hfit, rfl⟩ := callTo_ok ha
  obtain ⟨hi, hget⟩ := List.getElem?_eq_some_iff.mp hn
  rcases paymentAmount_ok (check_payment hc) with ⟨-, hword⟩ | ⟨hcreate, -⟩
  · have hword' := wordOf_encodeCall hlen (args_lt hfit hw) hi
    rw [hget] at hword'
    exact Except.ok.inj (hword.symm.trans hword')
  · exact absurd (Except.ok.inj ((selectorOf_encodeCall hlen).symm.trans hcreate)) hs

/-- A bid is charged by what it reserves. -/
theorem charged_bid {spender target : Address} {args : List Arg} {units price : Nat} {action : Call}
    (h : withPayment d spender (bidReserve units price) action = .ok calls)
    (ha : callTo target CREATE args = .ok action)
    (hw : ∀ a ∈ args, a.1 ≤ 256) (hu : (args.map Prod.snd)[3]? = some units) (hp : (args.map Prod.snd)[4]? = some price)
    (hc : check P X dynamicChecks account (calls.map withoutValue) = .ok amount) : amount = bidReserve units price := by
  obtain ⟨clear, approve, -, -, rfl⟩ := withPayment_ok h
  obtain ⟨hfit, rfl⟩ := callTo_ok ha
  obtain ⟨hi, hgetu⟩ := List.getElem?_eq_some_iff.mp hu
  obtain ⟨hj, hgetp⟩ := List.getElem?_eq_some_iff.mp hp
  have hsel : selectorOf (encodeCall CREATE (args.map Prod.snd)) = .ok CREATE := selectorOf_encodeCall rfl
  rcases paymentAmount_ok (check_payment hc) with ⟨hbuy | hfill, -⟩ | ⟨-, u, p, hwu, hwp, rfl⟩
  · exact absurd (Except.ok.inj (hsel.symm.trans hbuy)) (by decide)
  · exact absurd (Except.ok.inj (hsel.symm.trans hfill)) (by decide)
  · have hwu' : wordOf (encodeCall CREATE (args.map Prod.snd)) 3 = .ok _ := wordOf_encodeCall rfl (args_lt hfit hw) hi
    have hwp' : wordOf (encodeCall CREATE (args.map Prod.snd)) 4 = .ok _ := wordOf_encodeCall rfl (args_lt hfit hw) hj
    rw [hgetu] at hwu'
    rw [hgetp] at hwp'
    rw [Except.ok.inj (hwu.symm.trans hwu'), Except.ok.inj (hwp.symm.trans hwp'), bidReserve]

/-- **What the policy charges for the calls of an intent is what the intent spends.** -/
theorem check_spends {order : Option OrderView} {nowSeconds : Nat} {intent : BusinessIntent}
    (h : callsOf d owner order nowSeconds intent = .ok calls)
    (hc : check P X dynamicChecks account (calls.map withoutValue) = .ok amount) : amount = sessionSpend intent := by
  cases intent with
  | createOrder market side outcomeId units unitPrice expiresAt autoMatch =>
    obtain ⟨-, -, h⟩ := bind_eq_ok.mp h
    obtain ⟨action, ha, h⟩ := bind_eq_ok.mp h
    cases side with
    | bid => exact charged_bid h ha (by simp [addressArg, sideArg, boolArg]) rfl rfl hc
    | ask => exact charged_free (by rw [length_withShares h]; decide) hc
  | fillOrder orderId side units minUnits paymentLimit deadline =>
    obtain ⟨view, -, h₁⟩ := bind_eq_ok.mp h
    obtain ⟨⟨⟩, hside, h₂⟩ := bind_eq_ok.mp h₁
    obtain ⟨action, ha, h₃⟩ := bind_eq_ok.mp h₂
    obtain rfl : view.side = side := not_not.mp (revertIf_eq_ok.mp hside)
    clear h h₁ h₂ hside
    cases hv : view.side with
    | ask =>
      rw [hv] at h₃
      exact charged_word h₃ ha rfl (by decide) (by simp) rfl hc
    | bid =>
      rw [hv] at h₃
      exact charged_free (by rw [length_withShares h₃]; decide) hc
  | buy market outcomeId units minUnits maxPayment deadline =>
    obtain ⟨action, ha, h⟩ := bind_eq_ok.mp h
    exact charged_word h ha rfl (by decide) (by simp) rfl hc
  | fillListing listingId units minUnits maxPayment deadline =>
    obtain ⟨action, ha, h⟩ := bind_eq_ok.mp h
    exact charged_word h ha rfl (by decide) (by simp) rfl hc
  | createListing market outcomeId units unitPrice expiresAt =>
    obtain ⟨-, -, h⟩ := bind_eq_ok.mp h
    obtain ⟨action, ha, h⟩ := bind_eq_ok.mp h
    exact charged_free (by rw [length_withShares h]; decide) hc
  | claim kind market =>
    have hlen := claimCalls_ok h
    exact charged_free (by omega) hc
  | depositUsdc depositId authorization => cases h
  | other kind => cases h
  | _ =>
    obtain ⟨action, -, h⟩ := bind_eq_ok.mp h
    obtain rfl := Except.ok.inj h
    exact charged_free (by simp) hc

end

end Cpredict.Operations
