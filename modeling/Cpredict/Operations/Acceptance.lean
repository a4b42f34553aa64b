import Cpredict.Operations.Spending
import Cpredict.Session.Canonical

/-!
# What the policy accepts of the builder

The calls of `buildBusinessCalls` against TradingSessionPolicyV2. The reader tells the state of the chain (`Truthful`)
and the policy knows the addresses of the deployment (`Wired`). Every batch that is built then decodes to its calls,
and has one of the shapes of the policy with the amount `sessionSpend`. Two guards of the policy have no counterpart
in the builder (`Admits`): a payment of 0 is refused, and the hook refuses to settle the bond of another's market.
-/

namespace Cpredict.Operations

open Outcome Program Session Abi

/-! ## The builder and its reader -/

/-- `uint` -/
abbrev uint (n : Nat) : Prop := n < 2 ^ 256

/-- `positive` -/
abbrev positive (n : Nat) : Prop := uint n ∧ 0 < n

/-- `intentSchema`, of the kinds that a session may sign. An address is not the zero address. -/
def intentSchema : BusinessIntent → Prop
  | .buy market outcomeId units minUnits maxPayment deadline =>
    market ≠ 0 ∧ uint outcomeId ∧ positive units ∧ positive minUnits ∧ positive maxPayment ∧ positive deadline
  | .createOrder market _ outcomeId units unitPrice expiresAt _ =>
    market ≠ 0 ∧ uint outcomeId ∧ positive units ∧ positive unitPrice ∧ positive expiresAt
  | .fillOrder orderId _ units minUnits paymentLimit deadline =>
    positive orderId ∧ positive units ∧ positive minUnits ∧ uint paymentLimit ∧ positive deadline
  | .cancelOrder orderId | .releaseOrder orderId => positive orderId
  | .createListing market outcomeId units unitPrice expiresAt =>
    market ≠ 0 ∧ uint outcomeId ∧ positive units ∧ positive unitPrice ∧ positive expiresAt
  | .fillListing listingId units minUnits maxPayment deadline =>
    uint listingId ∧ positive units ∧ positive minUnits ∧ positive maxPayment ∧ positive deadline
  | .cancelListing listingId | .returnListing listingId => uint listingId
  | .claim _ market => market ≠ 0
  | .claimBond | .claimFees | .depositUsdc _ _ | .other _ => True

instance : DecidablePred intentSchema
  | .buy _ _ _ _ _ _ => inferInstanceAs (Decidable (_ ∧ _ ∧ _ ∧ _ ∧ _ ∧ _))
  | .createOrder _ _ _ _ _ _ _ | .createListing _ _ _ _ _ | .fillOrder _ _ _ _ _ _ | .fillListing _ _ _ _ _ =>
    inferInstanceAs (Decidable (_ ∧ _ ∧ _ ∧ _ ∧ _))
  | .cancelOrder _ | .releaseOrder _ => inferInstanceAs (Decidable (_ ∧ _))
  | .cancelListing _ | .returnListing _ => inferInstanceAs (Decidable (_ < _))
  | .claim _ _ => inferInstanceAs (Decidable (_ ≠ _))
  | .claimBond | .claimFees | .depositUsdc _ _ | .other _ => inferInstanceAs (Decidable True)

/-- What a reader says of an order is what the chain says of it. -/
structure OrderView.Reports (view : OrderView) (o : Order) : Prop where
  market : view.market = o.vault
  owner : view.owner = o.owner
  side : view.side = o.side
  active : view.active = o.active
  units : view.units = some o.remainingUnits

/-- The reader tells the state of the chain. -/
structure Truthful (X : Session.Chain) (reader : (c : Await) → Except AppErr (Reply c)) : Prop where
  order : ∀ id view, reader (.order id) = .ok view → view.Reports (X.orders id)
  registeredMarket : ∀ market, reader (.check (.registeredMarket market)) = .ok () → X.isMarket market = true

/-- The policy and the deployment have the same addresses. -/
structure Wired (d : Deployment) (P : Policy) : Prop where
  paymentToken : P.paymentToken = d.paymentToken
  marketplace : P.marketplace = d.marketplace
  bondEscrow : P.bondEscrow = d.bondEscrow
  feeVault : P.feeVault = d.feeVault

/-- The guards of the policy that the builder does not have. -/
def Admits (X : Session.Chain) (dynamicChecks : Bool) (account : Address) : BusinessIntent → Prop
  | .fillOrder _ .ask _ _ paymentLimit _ => paymentLimit ≠ 0
  | .claim .settleBond market | .claim .settleBondAndClaim market =>
    dynamicChecks = true → (X.bondOf market).creator = account
  | _ => True

/-! ## What the builder has checked -/

section

variable {reader : (c : Await) → Except AppErr (Reply c)} {cfg : ServiceConfig} {X : Session.Chain}
  {account : Address} {intent : BusinessIntent} {nowSeconds : Nat} {calls : List Call}

theorem run_ensure {c : Prop} [Decidable c] {e : AppErr} {u : Unit} : (ensure c e).run reader = .ok u ↔ c := by
  unfold ensure
  split <;> simp [*]

/-- The calls have been encoded; no listing is named; the market is registered, and the order is one that the policy
takes. -/
structure Checked (d : Deployment) (X : Session.Chain) (account : Address) (nowSeconds : Nat) (intent : BusinessIntent)
    (calls : List Call) (order : Option OrderView) : Prop where
  calls : callsOf d account order nowSeconds intent = .ok calls
  listingId : intent.listingId = none
  isCreateListing : intent.isCreateListing = false
  market : ∀ market ∈ intent.market, X.isMarket market = true
  order : ∀ id ∈ intent.orderId, ∃ view, order = some view ∧
    Session.checkOrder X account id intent.ownerOnly = .ok (view.market, view.side)

theorem checkMarket_run {market : Address} {u : Unit}
    (h : (checkMarket intent (some market)).run reader = .ok u) :
    reader (.check (.registeredMarket market)) = .ok () := by
  simp only [checkMarket, ask, run_bind, run_await, bind_eq_ok] at h
  obtain ⟨_, h, -⟩ := h
  exact h

theorem checkOrder_run {view : OrderView} {u : Unit} (h : (checkOrder cfg account intent view).run reader = .ok u) :
    view.active = true ∧ if intent.ownerOnly = true then view.owner = account else view.owner ≠ account := by
  simp only [checkOrder, run_bind, bind_eq_ok, run_ensure] at h
  obtain ⟨-, hactive, h⟩ := h
  refine ⟨hactive, ?_⟩
  split at h
  · rename_i howner
    rw [if_pos howner]
    exact run_ensure.mp h
  · rename_i howner
    rw [if_neg howner]
    simp only [run_bind, bind_eq_ok, run_ensure] at h
    obtain ⟨-, -, h⟩ := h
    exact h

theorem admittedOrder_run {order : Option OrderView} (h : (admittedOrder cfg account intent).run reader = .ok order) :
    intent.orderId = none ∧ order = none ∨ ∃ id view, intent.orderId = some id ∧ order = some view ∧
      reader (.order id) = .ok view ∧ view.active = true ∧
        if intent.ownerOnly = true then view.owner = account else view.owner ≠ account := by
  unfold admittedOrder at h
  cases hid : intent.orderId with
  | none =>
    rw [hid] at h
    exact .inl ⟨rfl, (Except.ok.inj h).symm⟩
  | some id =>
    rw [hid] at h
    simp only [ask, run_bind, run_await, bind_eq_ok, run_ret, Except.ok.injEq] at h
    obtain ⟨view, hview, ⟨⟩, hchecked, rfl⟩ := h
    exact .inr ⟨id, view, rfl, rfl, hview, checkOrder_run hchecked⟩

/-- The order that the builder has checked is one that the policy takes. -/
theorem checkOrder_reports {id : Nat} {view : OrderView} {ownerOnly : Bool} (h : view.Reports (X.orders id))
    (hmarket : X.isMarket view.market = true) (hactive : view.active = true)
    (howner : if ownerOnly = true then view.owner = account else view.owner ≠ account) :
    Session.checkOrder X account id ownerOnly = .ok (view.market, view.side) := by
  rw [h.market] at hmarket
  rw [h.active] at hactive
  rw [h.owner] at howner
  have htaken : ¬((X.orders id).active = false ∨
      if ownerOnly = true then (X.orders id).owner ≠ account else (X.orders id).owner = account) := by
    rw [hactive]
    split at howner <;> simp_all
  unfold Session.checkOrder Session.checkMarket
  dsimp only
  rw [revertIf_neg _ (by rw [hmarket]; exact Bool.noConfusion), ok_bind, revertIf_neg _ htaken, ok_bind, h.market,
    h.side]

theorem buildBusinessCalls_run (hv2 : cfg.deployment.orderbookV2 = true) (ht : Truthful X reader)
    (hq : supportsQuickTrading intent = true)
    (h : (buildBusinessCalls cfg account intent nowSeconds).run reader = .ok calls) :
    ∃ order, Checked cfg.deployment X account nowSeconds intent calls order := by
  unfold buildBusinessCalls at h
  rw [if_neg (by rw [hq]; exact Bool.noConfusion)] at h
  simp only [run_bind, bind_eq_ok, run_ensure, run_ofExcept] at h
  obtain ⟨-, -, -, -, order, horder, -, hlisting, listing, -, ⟨⟩, hmarket, -, -, -, -, -, -, hcalls⟩ := h
  rw [hv2] at hlisting
  obtain ⟨hlistingId, hcreate⟩ := hlisting.resolve_left Bool.noConfusion
  refine ⟨order, hcalls, hlistingId, hcreate, ?_, ?_⟩
  · intro market hm
    rw [Option.mem_def.mp hm] at hmarket
    exact ht.registeredMarket market (checkMarket_run hmarket)
  · intro id hid
    rcases admittedOrder_run horder with ⟨hnone, -⟩ | ⟨id', view, hid', rfl, hview, hactive, howner⟩
    · rw [hnone] at hid
      cases hid
    · obtain rfl : id' = id := Option.some.inj (hid'.symm.trans hid)
      -- an intent that names an order names no market
      have hnone : intent.market = none := by
        cases intent <;> first | rfl | cases hid'
      rw [hnone] at hmarket
      have hregistered := ht.registeredMarket _ (checkMarket_run hmarket)
      exact ⟨view, rfl, checkOrder_reports (ht.order id' view hview) hregistered hactive howner⟩

end

/-! ## Reading the calls -/

section

variable {target : Address} {selector : Bytes} {args : List Arg} {c : Call}

theorem callTo_target (h : callTo target selector args = .ok c) : c.target = target := by
  rw [(callTo_ok h).2]

theorem callTo_data (h : callTo target selector args = .ok c) : c.data = encodeCall selector (args.map Prod.snd) := by
  rw [(callTo_ok h).2]

theorem withoutValue_callTo (h : callTo target selector args = .ok c) : withoutValue c = c := by
  rw [(callTo_ok h).2]
  rfl

theorem length_callTo (h : callTo target selector args = .ok c) (hs : selector.length = 4) {n : Nat}
    (hn : 4 + 32 * args.length = n) : c.data.length = n := by
  rw [callTo_data h, length_encodeCall hs, List.length_map, hn]

theorem selectorOf_callTo (h : callTo target selector args = .ok c) (hs : selector.length = 4) :
    selectorOf c.data = .ok selector := by
  rw [callTo_data h, selectorOf_encodeCall hs]

theorem wordOf_callTo (h : callTo target selector args = .ok c) (hs : selector.length = 4)
    (hw : ∀ a ∈ args, a.1 ≤ 256) {i n : Nat} (hn : (args.map Prod.snd)[i]? = some n) : wordOf c.data i = .ok n := by
  obtain ⟨hi, rfl⟩ := List.getElem?_eq_some_iff.mp hn
  rw [callTo_data h, wordOf_encodeCall hs (args_lt (callTo_ok h).1 hw) hi]

theorem addressOf_callTo (h : callTo target selector args = .ok c) (hs : selector.length = 4)
    (hw : ∀ a ∈ args, a.1 ≤ 256) {i : Nat} {a : Address} (ha : (args.map Prod.snd)[i]? = some a.toNat) :
    addressOf c.data i = .ok a := by
  unfold addressOf
  rw [wordOf_callTo h hs hw ha, ok_bind, revertIf_neg _ (Nat.not_le.mpr a.toNat_lt), ok_bind, addr_toNat]

end

/-! ## The shapes -/

section

variable {d : Deployment} {P : Policy} {X : Session.Chain} {dynamicChecks : Bool} {account market : Address}
  {action : Call} {calls : List Call} {amount : Nat}

theorem checkMarket_ok (h : X.isMarket market = true) : Session.checkMarket X market = .ok () :=
  revertIf_neg _ (by rw [h]; exact Bool.noConfusion)

theorem whenDynamic_ok {x : Except SessionErr Unit} (h : x = .ok ()) : whenDynamic dynamicChecks x = .ok () := by
  rw [h]
  unfold whenDynamic
  split <;> rfl

theorem checkApproval_callTo (hw : Wired d P) {spender : Address} {c : Call}
    (h : callTo d.paymentToken APPROVE [addressArg spender, (256, amount)] = .ok c) :
    checkApproval P c spender amount = .ok () := by
  refine revertIf_neg _ ?_
  rw [callTo_target h, callTo_data h, hw.paymentToken]
  rintro (h | h) <;> exact h rfl

/-- A payment passes with the amount of its action, unless this is 0. -/
theorem check_withPayment (hw : Wired d P) {spender : Address} (h : withPayment d spender amount action = .ok calls)
    (ht : action.target = spender) (hp : paymentAmount P X dynamicChecks account action = .ok amount) :
    check P X dynamicChecks account calls = (revertIf (amount = 0) .ForbiddenCall >>= fun _ => .ok amount) := by
  obtain ⟨clear, approve, hclear, happrove, rfl⟩ := withPayment_ok h
  show checkPayment P X dynamicChecks account clear approve action clear = _
  unfold checkPayment
  rw [hp, ok_bind, ht, checkApproval_callTo hw hclear, checkApproval_callTo hw happrove]
  simp only [ok_bind]

/-- A sale passes for nothing. -/
theorem check_withShares (hw : Wired d P) (h : withShares d market action = .ok calls)
    (ht : action.target = d.marketplace) (hm : X.isMarket market = true)
    (ho : checkOffer X dynamicChecks account market action = .ok ()) :
    check P X dynamicChecks account calls = .ok 0 := by
  obtain ⟨approve, clear, happrove, hclear, rfl⟩ := withShares_ok h
  have hsale : checkSale P X dynamicChecks account approve action clear = .ok () := by
    unfold checkSale
    rw [callTo_target happrove, callTo_target hclear, callTo_data happrove, callTo_data hclear, ht, hw.marketplace,
      revertIf_neg _ (not_not.mpr rfl), ok_bind, ho, ok_bind, whenDynamic_ok (checkMarket_ok hm), ok_bind]
    refine revertIf_neg _ ?_
    rintro (h | h | h) <;> exact h rfl
  show (checkSale P X dynamicChecks account approve action clear >>= fun _ => .ok 0) = _
  rw [hsale, ok_bind]

end

/-! ## The actions -/

section

variable {d : Deployment} {P : Policy} {X : Session.Chain} {dynamicChecks : Bool} {account market : Address}
  {action : Call} {outcomeId units minUnits unitPrice expiresAt payment deadline orderId : Nat} {autoMatch : Bool}

theorem paymentAmount_buy (hm : X.isMarket market = true)
    (h : callTo market BUY [(256, outcomeId), (256, units), (256, minUnits), (256, payment), (64, deadline)] =
      .ok action) : paymentAmount P X dynamicChecks account action = .ok payment := by
  have hpayment : wordOf action.data 3 = .ok payment := wordOf_callTo h rfl (by simp) rfl
  have hfit : ¬action.data.length ≠ 164 := not_not.mpr (length_callTo h rfl rfl)
  unfold paymentAmount
  rw [selectorOf_callTo h rfl, ok_bind, if_pos rfl, revertIf_neg _ hfit, ok_bind,
    hpayment, ok_bind, callTo_target h, whenDynamic_ok (checkMarket_ok hm), ok_bind]

/-- The order that is bought from is an ask. -/
theorem paymentAmount_fill (hw : Wired d P)
    (h : callTo d.marketplace FILL [(256, orderId), (128, units), (128, minUnits), (256, payment), (64, deadline)] =
      .ok action) (ho : Session.checkOrder X account orderId false = .ok (market, .ask)) :
    paymentAmount P X dynamicChecks account action = .ok payment := by
  have horder : wordOf action.data 0 = .ok orderId := wordOf_callTo h rfl (by simp) rfl
  have hpayment : wordOf action.data 3 = .ok payment := wordOf_callTo h rfl (by simp) rfl
  have hfit : ¬action.data.length ≠ 164 := not_not.mpr (length_callTo h rfl rfl)
  unfold paymentAmount
  rw [selectorOf_callTo h rfl, ok_bind, if_neg (by decide), if_pos ⟨rfl, by rw [callTo_target h, hw.marketplace]⟩,
    revertIf_neg _ hfit, ok_bind, hpayment, ok_bind, horder, ok_bind, ho, ok_bind]
  dsimp only
  rw [revertIf_neg _ (not_not.mpr rfl), whenDynamic_ok rfl, ok_bind]

theorem paymentAmount_bid (hw : Wired d P) (hm : X.isMarket market = true) (hu : units ≤ 2 ^ 128 - 1)
    (hp : unitPrice ≤ 1000000000)
    (h : callTo d.marketplace CREATE [addressArg market, (8, outcomeId), sideArg .bid, (128, units), (128, unitPrice),
      (64, expiresAt), boolArg autoMatch] = .ok action) :
    paymentAmount P X dynamicChecks account action = .ok (bidReserve units unitPrice) := by
  have hwidth : ∀ a ∈ [addressArg market, (8, outcomeId), sideArg .bid, (128, units), (128, unitPrice), (64, expiresAt),
      boolArg autoMatch], a.1 ≤ 256 := by simp [addressArg, sideArg, boolArg]
  have hside : wordOf action.data 2 = .ok 0 := wordOf_callTo h rfl hwidth rfl
  have hunits : wordOf action.data 3 = .ok units := wordOf_callTo h rfl hwidth rfl
  have hprice : wordOf action.data 4 = .ok unitPrice := wordOf_callTo h rfl hwidth rfl
  have hmarket : (addressOf action.data 0 >>= fun market => Session.checkMarket X market) = .ok () := by
    rw [addressOf_callTo h rfl hwidth rfl, ok_bind, checkMarket_ok hm]
  have hfit : ¬action.data.length ≠ 228 := not_not.mpr (length_callTo h rfl rfl)
  unfold paymentAmount
  rw [selectorOf_callTo h rfl, ok_bind, if_neg (by decide), if_neg (fun hfill => absurd hfill.1 (by decide)),
    if_pos ⟨rfl, by rw [callTo_target h, hw.marketplace]⟩, revertIf_neg _ hfit, ok_bind,
    hside, ok_bind, revertIf_neg _ (not_not.mpr rfl), ok_bind, hunits, ok_bind, hprice, ok_bind,
    revertIf_neg _ (by omega), ok_bind, whenDynamic_ok hmarket, ok_bind, bidReserve]

theorem checkOffer_ask (hu : units ≠ 0) (hp : unitPrice ≠ 0)
    (h : callTo d.marketplace CREATE [addressArg market, (8, outcomeId), sideArg .ask, (128, units), (128, unitPrice),
      (64, expiresAt), boolArg autoMatch] = .ok action) :
    checkOffer X dynamicChecks account market action = .ok () := by
  have hwidth : ∀ a ∈ [addressArg market, (8, outcomeId), sideArg .ask, (128, units), (128, unitPrice), (64, expiresAt),
      boolArg autoMatch], a.1 ≤ 256 := by simp [addressArg, sideArg, boolArg]
  have hside : wordOf action.data 2 = .ok 1 := wordOf_callTo h rfl hwidth rfl
  have hvault : addressOf action.data 0 = .ok market := addressOf_callTo h rfl hwidth rfl
  have hunits : wordOf action.data 3 = .ok units := wordOf_callTo h rfl hwidth rfl
  have hprice : wordOf action.data 4 = .ok unitPrice := wordOf_callTo h rfl hwidth rfl
  have hfit : ¬action.data.length ≠ 228 := not_not.mpr (length_callTo h rfl rfl)
  unfold checkOffer
  rw [selectorOf_callTo h rfl, ok_bind, if_pos rfl, revertIf_neg _ hfit, ok_bind, hside,
    ok_bind, hvault, ok_bind, hunits, ok_bind, hprice, ok_bind]
  refine revertIf_neg _ ?_
  rintro (h | h | h | h)
  · exact h rfl
  · exact h rfl
  · exact hu h
  · exact hp h

/-- The order that is sold to is a bid. -/
theorem checkOffer_fill
    (h : callTo d.marketplace FILL [(256, orderId), (128, units), (128, minUnits), (256, payment), (64, deadline)] =
      .ok action) (ho : Session.checkOrder X account orderId false = .ok (market, .bid)) :
    checkOffer X dynamicChecks account market action = .ok () := by
  have horder : wordOf action.data 0 = .ok orderId := wordOf_callTo h rfl (by simp) rfl
  have hfit : ¬action.data.length ≠ 164 := not_not.mpr (length_callTo h rfl rfl)
  unfold checkOffer
  rw [selectorOf_callTo h rfl, ok_bind, if_neg (by decide), if_pos rfl, revertIf_neg _ hfit, ok_bind, horder, ok_bind,
    ho, ok_bind]
  dsimp only
  rw [revertIf_neg _ (by simp), whenDynamic_ok rfl]

/-- The owner takes an order back. -/
theorem checkSingle_order (hw : Wired d P) {selector : Bytes} (hs : selector = CANCEL_ORDER ∨ selector = RELEASE_ORDER)
    (h : callTo d.marketplace selector [(256, orderId)] = .ok action) {side : Side}
    (ho : Session.checkOrder X account orderId true = .ok (market, side)) :
    checkSingle P X dynamicChecks account action = .ok () := by
  have hlen : selector.length = 4 := by rcases hs with rfl | rfl <;> rfl
  have horder : wordOf action.data 0 = .ok orderId := wordOf_callTo h hlen (by simp) rfl
  have hown : (wordOf action.data 0 >>= fun id => Session.checkOrder X account id true >>= fun _ => .ok ()) =
      (.ok () : Except SessionErr Unit) := by
    rw [horder, ok_bind, ho, ok_bind]
  have hfit : ¬action.data.length ≠ 36 := not_not.mpr (length_callTo h hlen rfl)
  unfold checkSingle
  rw [selectorOf_callTo h hlen, ok_bind, if_pos ⟨by rw [callTo_target h, hw.marketplace], hs⟩,
    revertIf_neg _ hfit, ok_bind, whenDynamic_ok hown]

/-- A claim of the account on a market. -/
theorem checkSingle_claim {selector : Bytes}
    (hs : selector = CLAIM_WINNINGS ∨ selector = CLAIM_EARLY_BIRD ∨ selector = REFUND ∨ selector = CLAIM_TIMEOUT_BONUS)
    (h : callTo market selector [addressArg account] = .ok action) (hm : X.isMarket market = true) :
    checkSingle P X dynamicChecks account action = .ok () := by
  have hlen : selector.length = 4 := by rcases hs with rfl | rfl | rfl | rfl <;> rfl
  have howner : addressOf action.data 0 = .ok account := addressOf_callTo h hlen (by simp [addressArg]) rfl
  have horder : ¬(selector = CANCEL_ORDER ∨ selector = RELEASE_ORDER) := by
    rcases hs with rfl | rfl | rfl | rfl <;> decide
  have hsettle : selector ≠ SETTLE := by rcases hs with rfl | rfl | rfl | rfl <;> decide
  have hclaim : selector ≠ CLAIM := by rcases hs with rfl | rfl | rfl | rfl <;> decide
  have hfit : ¬action.data.length ≠ 36 := not_not.mpr (length_callTo h hlen rfl)
  unfold checkSingle
  rw [selectorOf_callTo h hlen, ok_bind, if_neg (fun hc => horder hc.2), if_neg (fun hc => hsettle hc.2),
    if_neg (fun hc => hclaim hc.2), revertIf_neg _ hfit, ok_bind, howner, ok_bind,
    revertIf_neg _ (by tauto), ok_bind, callTo_target h, whenDynamic_ok (checkMarket_ok hm)]

/-- A claim of the account on what it has been credited. -/
theorem checkSingle_credit {target : Address} (ht : target = P.bondEscrow ∨ target = P.feeVault)
    (h : callTo target CLAIM [addressArg account] = .ok action) :
    checkSingle P X dynamicChecks account action = .ok () := by
  unfold checkSingle
  rw [selectorOf_callTo h rfl, ok_bind, if_neg (fun hc => absurd hc.2 (by decide)),
    if_neg (fun hc => absurd hc.2 (by decide)), if_pos ⟨by rw [callTo_target h]; exact ht, rfl⟩, callTo_data h]
  exact revertIf_neg _ (not_not.mpr rfl)

/-- The settlement of a bond: the hook asks for its creator. -/
theorem checkBond_settle (hw : Wired d P) (hm : X.isMarket market = true)
    (h : callTo d.bondEscrow SETTLE [addressArg market] = .ok action) :
    checkBond P X dynamicChecks account action =
      revertIf (dynamicChecks = true ∧ (X.bondOf market).creator ≠ account) .ForbiddenCall := by
  have hmarket : addressOf action.data 0 = .ok market := addressOf_callTo h rfl (by simp [addressArg]) rfl
  have htarget : ¬(action.target ≠ P.bondEscrow ∨ action.data.length ≠ 36) := by
    rw [callTo_target h, hw.bondEscrow, length_callTo h rfl rfl]
    simp
  unfold checkBond
  rw [revertIf_neg _ htarget, ok_bind, selectorOf_callTo h rfl, ok_bind, revertIf_neg _ (not_not.mpr rfl), ok_bind,
    hmarket, ok_bind]
  cases dynamicChecks with
  | true =>
    rw [if_pos rfl, checkMarket_ok hm, ok_bind]
    simp
  | false =>
    rw [if_neg Bool.noConfusion]
    exact (revertIf_neg _ (fun hc => Bool.noConfusion hc.1)).symm

/-- A settlement of a bond on its own. -/
theorem checkSingle_settle (hw : Wired d P) (hm : X.isMarket market = true)
    (h : callTo d.bondEscrow SETTLE [addressArg market] = .ok action) :
    checkSingle P X dynamicChecks account action =
      revertIf (dynamicChecks = true ∧ (X.bondOf market).creator ≠ account) .ForbiddenCall := by
  rw [← checkBond_settle hw hm h]
  unfold checkSingle
  rw [selectorOf_callTo h rfl, ok_bind, if_neg (fun hc => absurd hc.2 (by decide)),
    if_pos ⟨by rw [callTo_target h, hw.bondEscrow], rfl⟩]

end

/-! ## The batches -/

/-- One to four short calls without value. -/
structure Batch (calls : List Call) : Prop where
  nonempty : 1 ≤ calls.length
  four : calls.length ≤ 4
  plain : ∀ c ∈ calls, c.value = 0 ∧ c.data.length ≤ 228

/-- A batch on which the policy decides by a condition. -/
structure Decided (P : Policy) (X : Session.Chain) (dynamicChecks : Bool) (account : Address) (calls : List Call)
    (admits : Prop) (amount : Nat) : Prop where
  batch : Batch calls
  accepted : admits → check P X dynamicChecks account calls = .ok amount
  refused : ¬admits → check P X dynamicChecks account calls = .error .ForbiddenCall

section

variable {d : Deployment} {P : Policy} {X : Session.Chain} {dynamicChecks : Bool} {account market : Address}
  {calls : List Call} {c action : Call} {amount nowSeconds : Nat} {intent : BusinessIntent} {order : Option OrderView}

theorem callTo_plain {target : Address} {selector : Bytes} {args : List Arg}
    (h : callTo target selector args = .ok c) (hs : selector.length = 4) (hn : args.length ≤ 7) :
    c.value = 0 ∧ c.data.length ≤ 228 := by
  have hlen := length_callTo h hs rfl
  exact ⟨by rw [(callTo_ok h).2], by omega⟩

theorem Batch.single {c : Call} (h : c.value = 0 ∧ c.data.length ≤ 228) : Batch [c] :=
  ⟨le_refl 1, by simp, by simpa using h⟩

theorem Batch.payment {spender : Address} (h : withPayment d spender amount action = .ok calls)
    (ha : action.value = 0 ∧ action.data.length ≤ 228) : Batch calls := by
  obtain ⟨clear, approve, hclear, happrove, rfl⟩ := withPayment_ok h
  have hplain := callTo_plain hclear rfl (by simp)
  refine ⟨by simp, le_refl 4, ?_⟩
  simp only [List.forall_mem_cons]
  exact ⟨hplain, callTo_plain happrove rfl (by simp), ha, hplain, by simp⟩

theorem Batch.shares (h : withShares d market action = .ok calls) (ha : action.value = 0 ∧ action.data.length ≤ 228) :
    Batch calls := by
  obtain ⟨approve, clear, happrove, hclear, rfl⟩ := withShares_ok h
  refine ⟨by simp, by simp, ?_⟩
  simp only [List.forall_mem_cons]
  exact ⟨callTo_plain happrove rfl (by simp), ha, callTo_plain hclear rfl (by simp), by simp⟩

theorem map_withoutValue (h : Batch calls) : calls.map withoutValue = calls := by
  conv_rhs => rw [← List.map_id calls]
  refine List.map_congr_left fun c hc => ?_
  obtain ⟨target, value, data⟩ := c
  obtain rfl : value = 0 := (h.plain _ hc).1
  rfl

/-- The batch decodes to its calls. -/
theorem Batch.decode (h : Batch calls) : Session.decode (encodeBatch calls) = .ok calls := by
  have hlen := length_encodeBatch_le h.nonempty fun c hc => (h.plain c hc).2
  have hfour := Nat.mul_le_mul_right (228 + 192) h.four
  exact decode_encodeBatch h.nonempty h.four (fun c hc => (h.plain c hc).1) (by omega)

theorem bidReserve_pos {units price : Nat} (hu : 0 < units) (hp : 0 < price) : bidReserve units price ≠ 0 := by
  have hvalue := Nat.mul_pos hu hp
  unfold bidReserve
  omega

/-- What has one guard is decided by it. -/
theorem Decided.guard {admits guard : Prop} [Decidable guard] (hb : Batch calls)
    (h : check P X dynamicChecks account calls = (revertIf guard .ForbiddenCall >>= fun _ => .ok amount))
    (ha : admits ↔ ¬guard) : Decided P X dynamicChecks account calls admits amount := by
  refine ⟨hb, ?_, ?_⟩
  · intro hadmits
    rw [h, revertIf_neg _ (ha.mp hadmits), ok_bind]
  · intro hno
    rw [h, revertIf_pos _ (not_not.mp fun hguard => hno (ha.mpr hguard)), error_bind]

/-- What is always accepted. -/
theorem Decided.always {admits : Prop} (hb : Batch calls) (h : check P X dynamicChecks account calls = .ok amount)
    (ha : admits) : Decided P X dynamicChecks account calls admits amount :=
  ⟨hb, fun _ => h, fun hno => absurd ha hno⟩

theorem Decided.ofSingle {admits : Prop} (hc : c.value = 0 ∧ c.data.length ≤ 228)
    (h : checkSingle P X dynamicChecks account c = .ok ()) (ha : admits) :
    Decided P X dynamicChecks account [c] admits 0 := by
  refine .always (.single hc) ?_ ha
  show (checkSingle P X dynamicChecks account c >>= fun _ => .ok 0) = _
  rw [h, ok_bind]

end

/-! ## The kinds of intents -/

section

variable {d : Deployment} {P : Policy} {X : Session.Chain} {dynamicChecks : Bool} {account market : Address}
  {calls : List Call} {nowSeconds : Nat} {intent : BusinessIntent} {order : Option OrderView}

/-- The claims on a market are accepted, the settlement of its bond if the hook knows the account as its creator. -/
theorem decided_claim (hw : Wired d P) (hm : X.isMarket market = true) {kind : MarketClaim}
    (h : claimCalls d account kind market = .ok calls) :
    Decided P X dynamicChecks account calls (Admits X dynamicChecks account (.claim kind market)) 0 := by
  have hclaim : ∀ {selector : Bytes} {c : Call}, (selector = CLAIM_WINNINGS ∨ selector = CLAIM_EARLY_BIRD ∨
      selector = REFUND ∨ selector = CLAIM_TIMEOUT_BONUS) → callTo market selector [addressArg account] = .ok c →
      Decided P X dynamicChecks account [c] True 0 := by
    intro selector c hs hc
    have hlen : selector.length = 4 := by rcases hs with rfl | rfl | rfl | rfl <;> rfl
    exact .ofSingle (callTo_plain hc hlen (by simp)) (checkSingle_claim hs hc hm) trivial
  cases kind <;> simp only [claimCalls, bind_eq_ok] at h
  case claimWinner =>
    obtain ⟨c, hc, h⟩ := h
    obtain rfl := Except.ok.inj h
    exact hclaim (.inl rfl) hc
  case claimEarlyBird =>
    obtain ⟨c, hc, h⟩ := h
    obtain rfl := Except.ok.inj h
    exact hclaim (.inr (.inl rfl)) hc
  case refund =>
    obtain ⟨c, hc, h⟩ := h
    obtain rfl := Except.ok.inj h
    exact hclaim (.inr (.inr (.inl rfl))) hc
  case claimTimeoutBonus =>
    obtain ⟨c, hc, h⟩ := h
    obtain rfl := Except.ok.inj h
    exact hclaim (.inr (.inr (.inr rfl))) hc
  case settleBond =>
    obtain ⟨c, hc, h⟩ := h
    obtain rfl := Except.ok.inj h
    refine .guard (.single (callTo_plain hc rfl (by simp))) ?_ not_and_not_right.symm
    show (checkSingle P X dynamicChecks account c >>= fun _ => .ok 0) = _
    rw [checkSingle_settle hw hm hc]
  case settleBondAndClaim =>
    obtain ⟨c, hc, e, he, h⟩ := h
    obtain rfl := Except.ok.inj h
    refine .guard ⟨by simp, by simp, ?_⟩ ?_ not_and_not_right.symm
    · simp only [List.forall_mem_cons]
      exact ⟨callTo_plain hc rfl (by simp), callTo_plain he rfl (by simp), by simp⟩
    · have hcredit : ¬(e.target ≠ P.bondEscrow ∨ e.data ≠ encodeCall CLAIM [account.toNat]) := by
        rw [callTo_target he, callTo_data he, hw.bondEscrow]
        rintro (h | h) <;> exact h rfl
      show (checkBondClaim P X dynamicChecks account c e >>= fun _ => .ok 0) = _
      unfold checkBondClaim
      rw [checkBond_settle hw hm hc, revertIf_neg _ hcredit, bind_assoc]
      simp only [ok_bind]

theorem decided_createOrder (hw : Wired d P) (hm : X.isMarket market = true) {side : Side}
    {outcomeId units unitPrice expiresAt : Nat} {autoMatch : Bool} (hu : 0 < units) (hp : 0 < unitPrice)
    (h : callsOf d account order nowSeconds
      (.createOrder market side outcomeId units unitPrice expiresAt autoMatch) = .ok calls) :
    Decided P X dynamicChecks account calls True
      (sessionSpend (.createOrder market side outcomeId units unitPrice expiresAt autoMatch)) := by
  obtain ⟨⟨⟩, hguard, h⟩ := bind_eq_ok.mp h
  obtain ⟨action, ha, h⟩ := bind_eq_ok.mp h
  have hbounds := revertIf_eq_ok.mp hguard
  have hplain := callTo_plain ha rfl (by simp)
  cases side with
  | bid =>
    have hamount : paymentAmount P X dynamicChecks account action = .ok (bidReserve units unitPrice) :=
      paymentAmount_bid hw hm (by omega) (by omega) ha
    refine .guard (.payment h hplain) (check_withPayment hw h (callTo_target ha) hamount) ?_
    exact ⟨fun _ => bidReserve_pos hu hp, fun _ => trivial⟩
  | ask =>
    have hoffer : checkOffer X dynamicChecks account market action = .ok () := checkOffer_ask hu.ne' hp.ne' ha
    exact .always (.shares h hplain) (check_withShares hw h (callTo_target ha) hm hoffer) trivial

/-- The order is one that the policy takes, and its side is the side of the intent. -/
theorem decided_fillOrder (hw : Wired d P) {view : OrderView} {side : Side}
    {orderId units minUnits paymentLimit deadline : Nat} (hm : X.isMarket view.market = true)
    (ho : Session.checkOrder X account orderId false = .ok (view.market, view.side))
    (h : callsOf d account (some view) nowSeconds (.fillOrder orderId side units minUnits paymentLimit deadline) =
      .ok calls) :
    Decided P X dynamicChecks account calls
      (Admits X dynamicChecks account (.fillOrder orderId side units minUnits paymentLimit deadline))
      (sessionSpend (.fillOrder orderId side units minUnits paymentLimit deadline)) := by
  obtain ⟨v, hv, h₁⟩ := bind_eq_ok.mp h
  obtain rfl : view = v := Except.ok.inj hv
  obtain ⟨⟨⟩, hside, h₂⟩ := bind_eq_ok.mp h₁
  obtain ⟨action, ha, hcalls⟩ := bind_eq_ok.mp h₂
  obtain rfl : view.side = side := not_not.mp (revertIf_eq_ok.mp hside)
  have hplain := callTo_plain ha rfl (by simp)
  cases hv : view.side with
  | ask =>
    rw [hv] at ho hcalls
    have hamount : paymentAmount P X dynamicChecks account action = .ok paymentLimit := paymentAmount_fill hw ha ho
    exact .guard (.payment hcalls hplain) (check_withPayment hw hcalls (callTo_target ha) hamount) Iff.rfl
  | bid =>
    rw [hv] at ho hcalls
    have hoffer : checkOffer X dynamicChecks account view.market action = .ok () := checkOffer_fill ha ho
    exact .always (.shares hcalls hplain) (check_withShares hw hcalls (callTo_target ha) hm hoffer) trivial

theorem decided_buy (hw : Wired d P) (hm : X.isMarket market = true)
    {outcomeId units minUnits maxPayment deadline : Nat} (hp : 0 < maxPayment)
    (h : callsOf d account order nowSeconds (.buy market outcomeId units minUnits maxPayment deadline) = .ok calls) :
    Decided P X dynamicChecks account calls True maxPayment := by
  obtain ⟨action, ha, h⟩ := bind_eq_ok.mp h
  have hamount : paymentAmount P X dynamicChecks account action = .ok maxPayment := paymentAmount_buy hm ha
  refine .guard (.payment h (callTo_plain ha rfl (by simp))) (check_withPayment hw h (callTo_target ha) hamount) ?_
  exact ⟨fun _ => hp.ne', fun _ => trivial⟩

/-- The market of the order of an intent is registered: the policy asks for it too. -/
theorem checkOrder_market {id : Nat} {ownerOnly : Bool} {side : Side}
    (h : Session.checkOrder X account id ownerOnly = .ok (market, side)) : X.isMarket market = true := by
  unfold Session.checkOrder Session.checkMarket at h
  simp only [bind_eq_ok, revertIf_eq_ok] at h
  obtain ⟨-, hmarket, -, -, h⟩ := h
  rw [← (Prod.mk.inj (Except.ok.inj h)).1]
  simpa using hmarket

/-- What is built is decided by the guards that the builder does not have, for what the intent spends. -/
theorem Checked.decided (hw : Wired d P) (hi : intentSchema intent)
    (hb : Checked d X account nowSeconds intent calls order) :
    Decided P X dynamicChecks account calls (Admits X dynamicChecks account intent) (sessionSpend intent) := by
  have h := hb.calls
  cases intent with
  | createOrder market side outcomeId units unitPrice expiresAt autoMatch =>
    obtain ⟨-, -, hunits, hprice, -⟩ := hi
    exact decided_createOrder hw (hb.market market rfl) hunits.2 hprice.2 h
  | fillOrder orderId side units minUnits paymentLimit deadline =>
    obtain ⟨view, rfl, ho⟩ := hb.order orderId rfl
    exact decided_fillOrder hw (checkOrder_market ho) ho h
  | buy market outcomeId units minUnits maxPayment deadline =>
    obtain ⟨-, -, -, -, hpayment, -⟩ := hi
    exact decided_buy hw (hb.market market rfl) hpayment.2 h
  | cancelOrder orderId =>
    obtain ⟨view, -, ho⟩ := hb.order orderId rfl
    obtain ⟨action, ha, h⟩ := bind_eq_ok.mp h
    obtain rfl := Except.ok.inj h
    exact .ofSingle (callTo_plain ha rfl (by simp)) (checkSingle_order hw (.inl rfl) ha ho) trivial
  | releaseOrder orderId =>
    obtain ⟨view, -, ho⟩ := hb.order orderId rfl
    obtain ⟨action, ha, h⟩ := bind_eq_ok.mp h
    obtain rfl := Except.ok.inj h
    exact .ofSingle (callTo_plain ha rfl (by simp)) (checkSingle_order hw (.inr rfl) ha ho) trivial
  | claim kind market => exact decided_claim hw (hb.market market rfl) h
  | claimBond =>
    obtain ⟨action, ha, h⟩ := bind_eq_ok.mp h
    obtain rfl := Except.ok.inj h
    exact .ofSingle (callTo_plain ha rfl (by simp)) (checkSingle_credit (.inl hw.bondEscrow.symm) ha) trivial
  | claimFees =>
    obtain ⟨action, ha, h⟩ := bind_eq_ok.mp h
    obtain rfl := Except.ok.inj h
    exact .ofSingle (callTo_plain ha rfl (by simp)) (checkSingle_credit (.inr hw.feeVault.symm) ha) trivial
  -- the marketplace of listings is another
  | createListing market outcomeId units unitPrice expiresAt => exact absurd hb.isCreateListing Bool.noConfusion
  | fillListing listingId units minUnits maxPayment deadline => exact absurd hb.listingId (Option.some_ne_none _)
  | cancelListing listingId => exact absurd hb.listingId (Option.some_ne_none _)
  | returnListing listingId => exact absurd hb.listingId (Option.some_ne_none _)
  | depositUsdc depositId authorization => cases h
  | other kind => cases h

end

/-! ## The policy -/

/-- A user operation of a session that is in use, for a paymaster of the policy. -/
structure InUse (P : Policy) (s : SessionState) (account : Address) (op : UserOp) : Prop where
  sender : op.sender = account
  installed : s.installed = true
  revoked : s.revoked = false
  paymasterData : 52 ≤ op.paymasterAndData.length
  paymaster : addr (ofBytes (op.paymasterAndData.take 20)) = P.paymaster

/-- An amount that the budget of a session has room for. -/
structure Affords (s : SessionState) (amount : Nat) : Prop where
  perOperation : amount ≤ s.perOperation
  total : s.spent + amount ≤ s.total
  width : s.total < 2 ^ 128

section

variable {P : Policy} {X : Session.Chain} {S : Sessions} {account : Address} {id : Bytes32} {op : UserOp}
  {calls : List Call}

/-- The validation of the batch of a session in use is the check of its calls, and then of the budget. -/
theorem checkUserOpPolicy_check (hs : InUse P (S.sessionState id account) account op)
    (hop : op.callData = EXECUTE_USER_OP ++ encodeBatch calls) (hb : Batch calls) :
    (∀ e, check P X false account calls = .error e → checkUserOpPolicy P X S account id op = .error e) ∧
      ∀ amount, check P X false account calls = .ok amount → Affords (S.sessionState id account) amount →
        ∃ S', checkUserOpPolicy P X S account id op =
            .ok (S', .accepted id amount (validityBounds (S.sessionState id account))) ∧
          (S'.sessionState id account).spent = (S.sessionState id account).spent + amount := by
  have husable : ¬(op.sender ≠ account ∨ (S.sessionState id account).installed = false ∨
      (S.sessionState id account).revoked = true) := by
    rw [hs.sender, hs.installed, hs.revoked]
    simp
  have hpaymaster : ¬(op.paymasterAndData.length < 52 ∨
      addr (ofBytes (op.paymasterAndData.take 20)) ≠ P.paymaster) := by
    rw [hs.paymaster]
    simpa using hs.paymasterData
  have hlong : 4 ≤ (encodeBatch calls).length := by
    unfold encodeBatch encodeExecute
    rw [List.length_append]
    exact Nat.le_add_right 4 _
  have hselector : ¬(op.callData.length < 8 ∨ op.callData.take 4 ≠ EXECUTE_USER_OP) := by
    have htake : (EXECUTE_USER_OP ++ encodeBatch calls).take 4 = EXECUTE_USER_OP := List.take_left' rfl
    have hfour : EXECUTE_USER_OP.length = 4 := rfl
    rw [hop, htake, List.length_append, hfour]
    rintro (h | h)
    · omega
    · exact h rfl
  have hdrop : op.callData.drop 4 = encodeBatch calls := by
    rw [hop]
    exact List.drop_left' rfl
  unfold checkUserOpPolicy
  dsimp only
  rw [revertIf_neg _ husable, ok_bind, revertIf_neg _ hpaymaster, ok_bind, revertIf_neg _ hselector, ok_bind, hdrop,
    hb.decode, ok_bind]
  refine ⟨?_, ?_⟩
  · intro e he
    rw [he, error_bind]
  · intro amount hamount ⟨hper, htotal, hwidth⟩
    have hsmall : amount % 2 ^ 128 = amount := Nat.mod_eq_of_lt (by omega)
    rw [hamount, ok_bind, revertIf_neg _ (by omega), ok_bind, hsmall, revertIf_neg _ (by omega), ok_bind]
    refine ⟨_, rfl, ?_⟩
    split <;> simp [Sessions.set, Sessions.emit]

theorem preCheck_check (hb : Batch calls) :
    preCheck P X account 0 (encodeBatch calls) = (check P X true account calls >>= fun _ => .ok ()) := by
  unfold preCheck
  rw [revertIf_neg _ (not_not.mpr rfl), ok_bind, hb.decode, ok_bind]

end

/-! ## The agreement -/

/-- The builder and the policy agree, but for the guards that only the policy has: the Kernel's encoding of what is
built decodes to it; unless a guard refuses it, it is checked for the amount that is reserved, a session in use that
affords the amount is charged it, and the hook lets it through; otherwise the call is forbidden. -/
theorem builder_accepted {cfg : ServiceConfig} {P : Policy} {X : Session.Chain}
    {reader : (c : Await) → Except AppErr (Reply c)} {account : Address} {intent : BusinessIntent} {nowSeconds : Nat}
    {calls : List Call} (hv2 : cfg.deployment.orderbookV2 = true) (hw : Wired cfg.deployment P) (ht : Truthful X reader)
    (hi : intentSchema intent) (hq : supportsQuickTrading intent = true)
    (h : (buildBusinessCalls cfg account intent nowSeconds).run reader = .ok calls) :
    (∀ dynamicChecks, (Admits X dynamicChecks account intent →
        (decode (encodeBatch (calls.map withoutValue)) >>= check P X dynamicChecks account) =
          .ok (sessionSpend intent)) ∧
      (¬Admits X dynamicChecks account intent →
        (decode (encodeBatch (calls.map withoutValue)) >>= check P X dynamicChecks account) =
          .error .ForbiddenCall)) ∧
    (∀ S id op, InUse P (S.sessionState id account) account op →
      op.callData = EXECUTE_USER_OP ++ encodeBatch (calls.map withoutValue) →
        (Admits X false account intent → Affords (S.sessionState id account) (sessionSpend intent) →
          ∃ S', checkUserOpPolicy P X S account id op =
              .ok (S', .accepted id (sessionSpend intent) (validityBounds (S.sessionState id account))) ∧
            (S'.sessionState id account).spent = (S.sessionState id account).spent + sessionSpend intent) ∧
        (¬Admits X false account intent → checkUserOpPolicy P X S account id op = .error .ForbiddenCall)) ∧
    (Admits X true account intent → preCheck P X account 0 (encodeBatch (calls.map withoutValue)) = .ok ()) ∧
    (¬Admits X true account intent →
      preCheck P X account 0 (encodeBatch (calls.map withoutValue)) = .error .ForbiddenCall) := by
  obtain ⟨order, hbuilt⟩ := buildBusinessCalls_run hv2 ht hq h
  have hdecided : ∀ dynamicChecks, Decided P X dynamicChecks account calls (Admits X dynamicChecks account intent)
      (sessionSpend intent) := fun dynamicChecks => hbuilt.decided hw hi
  have hb : Batch calls := (hdecided true).batch
  rw [map_withoutValue hb]
  refine ⟨?_, ?_, ?_, ?_⟩
  · intro dynamicChecks
    rw [hb.decode, ok_bind]
    exact ⟨(hdecided dynamicChecks).accepted, (hdecided dynamicChecks).refused⟩
  · intro S id op hs hop
    obtain ⟨hrefused, haccepted⟩ := checkUserOpPolicy_check hs hop hb
    exact ⟨fun ha => haccepted _ ((hdecided false).accepted ha), fun hno => hrefused _ ((hdecided false).refused hno)⟩
  · intro ha
    rw [preCheck_check hb, (hdecided true).accepted ha, ok_bind]
  · intro hno
    rw [preCheck_check hb, (hdecided true).refused hno, error_bind]

/-- The reader that reads a chain. -/
def chainReader (X : Session.Chain) : (c : Await) → Except AppErr (Reply c)
  | .order id =>
    let o := X.orders id
    .ok ⟨o.vault, o.owner, o.side, o.active, some o.remainingUnits, some true⟩
  | .check (.registeredMarket market) => if X.isMarket market = true then .ok () else .error .refused
  | .check _ => .ok ()
  | _ => .error .refused

theorem chainReader_truthful (X : Session.Chain) : Truthful X (chainReader X) where
  order := by
    intro id view h
    obtain rfl := Except.ok.inj h
    exact ⟨rfl, rfl, rfl, rfl, rfl⟩
  registeredMarket := by
    intro market h
    by_contra hno
    have hr : chainReader X (.check (.registeredMarket market)) = .error .refused := if_neg hno
    rw [hr] at h
    cases h

/-- An ask of the account `9` on the market `3`, which it has created, in a deployment with its policy. -/
def askedChain : Session.Chain where
  isMarket market := decide (market = addr 3)
  orders id := if id = 5 then ⟨addr 3, addr 9, 10, 2000000, 2000, 1, .ask, false, true, 0⟩ else .blank
  bondOf market := if market = addr 3 then ⟨addr 9, 100, false⟩ else ⟨0, 0, false⟩

def wiredConfig : ServiceConfig where
  deployment := ⟨addr 21, addr 22, addr 23, addr 24, true, 1⟩
  environment := 1
  deploymentId := 1
  sponsor := true
  sponsorship := true
  newExposure := true
  maxCostPerOperation := 1000
  validitySeconds := 600
  confirmations := 1
  getUserOperationHash _ := 0
  encodeCalls _ := encodeBatch

def wiredPolicy : Policy := ⟨addr 20, addr 22, addr 21, addr 23, addr 24, addr 25⟩

/-- A fill of the ask with a payment limit of 0, and the settlement of the bond of another: they are built, and the
policy refuses them. -/
theorem builder_refused :
    Wired wiredConfig.deployment wiredPolicy ∧ Truthful askedChain (chainReader askedChain) ∧
    (intentSchema (.fillOrder 5 .ask 10 10 0 1000) ∧ ∃ calls,
      (buildBusinessCalls wiredConfig (addr 7) (.fillOrder 5 .ask 10 10 0 1000) 500).run (chainReader askedChain) =
        .ok calls ∧
      (decode (encodeBatch (calls.map withoutValue)) >>= check wiredPolicy askedChain false (addr 7)) =
        .error .ForbiddenCall) ∧
    intentSchema (.claim .settleBond (addr 3)) ∧ ∃ calls,
      (buildBusinessCalls wiredConfig (addr 7) (.claim .settleBond (addr 3)) 500).run (chainReader askedChain) =
        .ok calls ∧
      preCheck wiredPolicy askedChain (addr 7) 0 (encodeBatch (calls.map withoutValue)) = .error .ForbiddenCall := by
  refine ⟨⟨rfl, rfl, rfl, rfl⟩, chainReader_truthful askedChain, ⟨by decide, _, rfl, ?_⟩, by decide, _, rfl, ?_⟩ <;>
    decide +kernel

/-- A session that may spend 50, and has spent 10 of 100. -/
def spentSession : Sessions := ⟨fun _ _ => ⟨50, 100, 10, 0, 1000, true, false⟩, []⟩

/-- A user operation of the account `7` for the paymaster of the policy. -/
def paidOp (data : Bytes) : UserOp := ⟨addr 7, EXECUTE_USER_OP ++ data, beBytes 52 (25 * 256 ^ 32)⟩

theorem paidOp_inUse (data : Bytes) :
    InUse wiredPolicy (spentSession.sessionState 1 (addr 7)) (addr 7) (paidOp data) := by
  have hlong : 52 ≤ (beBytes 52 (25 * 256 ^ 32)).length := by decide
  have hpaymaster : addr (ofBytes ((beBytes 52 (25 * 256 ^ 32)).take 20)) = wiredPolicy.paymaster := by decide
  exact ⟨rfl, rfl, rfl, hlong, hpaymaster⟩

/-- The same fill with a limit of 20 is charged 20. -/
theorem builder_accepted_sample : ∃ calls,
    (buildBusinessCalls wiredConfig (addr 7) (.fillOrder 5 .ask 10 10 20 1000) 500).run (chainReader askedChain) =
      .ok calls ∧
    (∃ S', checkUserOpPolicy wiredPolicy askedChain spentSession (addr 7) 1
          (paidOp (encodeBatch (calls.map withoutValue))) =
        .ok (S', .accepted 1 20 (validityBounds (spentSession.sessionState 1 (addr 7)))) ∧
      (S'.sessionState 1 (addr 7)).spent = 30) ∧
    preCheck wiredPolicy askedChain (addr 7) 0 (encodeBatch (calls.map withoutValue)) = .ok () := by
  have hv2 : wiredConfig.deployment.orderbookV2 = true := rfl
  have hw : Wired wiredConfig.deployment wiredPolicy := ⟨rfl, rfl, rfl, rfl⟩
  have hi : intentSchema (.fillOrder 5 .ask 10 10 20 1000) := by decide
  obtain ⟨calls, hcalls⟩ : ∃ calls, (buildBusinessCalls wiredConfig (addr 7) (.fillOrder 5 .ask 10 10 20 1000) 500).run
      (chainReader askedChain) = .ok calls := ⟨_, rfl⟩
  obtain ⟨-, hpolicy, hhook, -⟩ := builder_accepted hv2 hw (chainReader_truthful askedChain) hi rfl hcalls
  have hlimit : Admits askedChain false (addr 7) (.fillOrder 5 .ask 10 10 20 1000) := show 20 ≠ 0 by decide
  refine ⟨calls, hcalls, ?_, hhook hlimit⟩
  exact (hpolicy spentSession 1 _ (paidOp_inUse _) rfl).1 hlimit ⟨by decide, by decide, by decide⟩

end Cpredict.Operations
