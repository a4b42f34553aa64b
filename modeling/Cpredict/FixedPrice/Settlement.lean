import Cpredict.FixedPrice.Custody

/-!
# What a fill pays, and what the marketplace refuses

Both fills end with the same payment: the buyer has parted with the gross amount, the seller has the proceeds, the
fee vault the fees and the credits of them, and everyone else, the marketplace included, what he had (`Paid`). Then the
units go to the buyer (`Filled`). Shares that come without a listing are refused (`refuses_shares`).
-/

namespace Cpredict

open Outcome Balances

namespace FixedPrice

open Core (Grounded)

namespace State

variable {D : Deployment} {R : Receivers D} {W W' : State}

/-! ## Credits -/

/-- The credits of the fee vault for a beneficiary. -/
def credit (w : Core) (b : Address) : Nat := w.feeVault.credits.creditOf b

theorem accrue_credit {w w' : Core} {sender beneficiary : Address} {amount : Nat} {kind : FeeKind}
    {ref : FeeReference} (h : w.accrue D sender beneficiary amount kind ref = .ok w') :
    w'.token = w.token ∧ ∀ b, credit w' b = credit w b + if beneficiary = b then amount else 0 := by
  obtain ⟨f, es, hf, -, rfl⟩ := Core.accrue_eq_ok h
  refine ⟨rfl, fun b => ?_⟩
  simp only [FeeVault.accrue, bind_eq_ok, revertIf_eq_ok] at hf
  obtain ⟨_, _, _, _, hf⟩ := hf
  split at hf
  · rename_i hz
    cases hf
    simp [credit, Core.emitAll, hz]
  · simp only [bind_eq_ok, revertIf_eq_ok, Except.ok.injEq] at hf
    obtain ⟨_, _, rfl⟩ := hf
    by_cases hb : beneficiary = b
    · subst hb
      simp [credit, Core.emitAll, Credits.add]
    · simp [credit, Core.emitAll, Credits.add, hb, Function.update_of_ne (Ne.symm hb)]

/-! ## Payments -/

/-- An account that is none of the contracts. -/
def Outsider (D : Deployment) (a : Address) : Prop := D.outside a = true ∧ a ≠ D.marketplace

theorem Outsider.ne_feeVault {a : Address} (h : Outsider D a) : a ≠ D.feeVault := by
  rintro rfl
  have := h.1
  rw [D.feeVault_inside] at this
  cases this

/-- What is filled is what is wanted and there, and its price is that of its units, rounded down. -/
theorem quoteFill_price {id : ListingId} {desiredUnits minUnits maxGross deadline remaining : Nat} {l : Listing}
    {a : FillAmounts} (h : quoteFill W id desiredUnits minUnits maxGross deadline = .ok (l, a, remaining)) :
    a.units = min desiredUnits (W.marketplace.listings id).remainingUnits ∧
      a.gross = a.units * (W.marketplace.listings id).unitPrice / 1000000 := by
  simp only [quoteFill, bind_eq_ok, revertIf_eq_ok, checkedSub_eq_ok, Except.ok.injEq, Prod.mk.injEq] at h
  obtain ⟨-, -, -, -, -, -, -, -, -, -, -, -, -, -, -, -, -, -, -, -, -, -, rest, -, q, -, rfl, rfl, rfl⟩ := h
  exact ⟨rfl, rfl⟩

/-- The parts of what a fill costs, and its seller, who is no contract of the protocol. -/
theorem quoted_parts {id : ListingId} {desiredUnits minUnits maxGross deadline remaining : Nat} {l : Listing}
    {a : FillAmounts} (h : Inv D W)
    (hq : quoteFill W id desiredUnits minUnits maxGross deadline = .ok (l, a, remaining)) :
    a.sellerProceeds + (a.platformFee + a.creatorFee) = a.gross ∧ Outsider D l.seller := by
  obtain ⟨-, hsum, -⟩ := quoteFill_gross hq
  obtain ⟨rfl, ha, -⟩ := quoteFill_draws hq
  exact ⟨hsum, (h.of_active ha).outsider⟩

/-- The buyer pays for a fill: what he gives is the gross amount, of which the seller and the fee vault get their
parts. A buyer who is the seller gives the fees. -/
structure Paid (D : Deployment) (w : Core) (buyer : Address) (l : Listing) (a : FillAmounts) (u : Core) : Prop where
  moved : u.token.balanceOf = move (move w.token.balanceOf buyer l.seller a.sellerProceeds) buyer D.feeVault
    (a.platformFee + a.creatorFee)
  debited : buyer ≠ l.seller → u.token.balanceOf buyer + a.gross = w.token.balanceOf buyer
  proceeds : buyer ≠ l.seller → u.token.balanceOf l.seller = w.token.balanceOf l.seller + a.sellerProceeds
  himself : buyer = l.seller → u.token.balanceOf buyer + (a.platformFee + a.creatorFee) = w.token.balanceOf buyer
  fees : u.token.balanceOf D.feeVault = w.token.balanceOf D.feeVault + (a.platformFee + a.creatorFee)
  kept : u.token.balanceOf D.marketplace = w.token.balanceOf D.marketplace
  others : ∀ x, x ≠ buyer → x ≠ l.seller → x ≠ D.feeVault → u.token.balanceOf x = w.token.balanceOf x
  credits : ∀ b, credit u b = credit w b +
    (if (w.vaults l.vault).init.economics.protocolTreasury = b then a.platformFee else 0) +
    if (w.vaults l.vault).terms.creatorTreasury = b then a.creatorFee else 0

theorem creditFees_credit {u c : Core} {l : Listing} {id : ListingId} {a : FillAmounts}
    (h : creditFees D u l id a = .ok c) : c.token = u.token ∧ ∀ b, credit c b = credit u b +
      (if (u.vaults l.vault).init.economics.protocolTreasury = b then a.platformFee else 0) +
      if (u.vaults l.vault).terms.creatorTreasury = b then a.creatorFee else 0 := by
  unfold creditFees accrueFees at h
  split at h
  · obtain ⟨v, hv, h⟩ := bind_eq_ok.mp h
    obtain ⟨htoken, hcredit⟩ := accrue_credit hv
    obtain ⟨htoken', hcredit'⟩ := accrue_credit h
    rw [(Core.kept_accrue hv).1.vaults] at hcredit'
    exact ⟨htoken'.trans htoken, fun b => by rw [hcredit', hcredit]⟩
  · rename_i hz
    cases h
    have hfees : a.platformFee = 0 ∧ a.creatorFee = 0 := by omega
    refine ⟨rfl, fun b => ?_⟩
    rw [hfees.1, hfees.2, ite_self, ite_self]
    rfl

/-- The two transfers from the buyer, and the credits. -/
theorem paid_of_moves {w u : Core} {buyer : Address} {l : Listing} {a : FillAmounts}
    (hbuyer : Outsider D buyer) (hseller : Outsider D l.seller)
    (hsum : a.sellerProceeds + (a.platformFee + a.creatorFee) = a.gross)
    (hp : a.sellerProceeds ≤ w.token.balanceOf buyer)
    (hf : a.platformFee + a.creatorFee ≤ move w.token.balanceOf buyer l.seller a.sellerProceeds buyer)
    (hu : u.token.balanceOf = move (move w.token.balanceOf buyer l.seller a.sellerProceeds) buyer D.feeVault
      (a.platformFee + a.creatorFee))
    (hc : ∀ b, credit u b = credit w b +
      (if (w.vaults l.vault).init.economics.protocolTreasury = b then a.platformFee else 0) +
      if (w.vaults l.vault).terms.creatorTreasury = b then a.creatorFee else 0) : Paid D w buyer l a u where
  moved := hu
  debited := fun hne => by
    rw [move_from _ _ hne] at hf
    rw [hu, move_from _ _ hbuyer.ne_feeVault, move_from _ _ hne]
    omega
  proceeds := fun hne => by rw [hu, move_of_ne _ _ hne.symm hseller.ne_feeVault, move_to _ _ hne]
  himself := fun hsame => by
    subst hsame
    rw [move_self _ hp] at hf hu
    rw [hu, move_from _ _ hbuyer.ne_feeVault]
    omega
  fees := by
    rw [hu, move_to _ _ hbuyer.ne_feeVault, move_of_ne _ _ hbuyer.ne_feeVault.symm hseller.ne_feeVault.symm]
  kept := by
    rw [hu, move_of_ne _ _ hbuyer.2.symm (Core.ne_marketplace D.feeVault_inside).symm,
      move_of_ne _ _ hbuyer.2.symm hseller.2.symm]
  others := fun x hb hs hv => by rw [hu, move_of_ne _ _ hb hv, move_of_ne _ _ hb hs]
  credits := hc

/-- What is left of a payment after its transfers are the credits. -/
theorem paid_of_credits {w u c : Core} {buyer : Address} {l : Listing} {id : ListingId} {a : FillAmounts}
    (hbuyer : Outsider D buyer) (hseller : Outsider D l.seller)
    (hsum : a.sellerProceeds + (a.platformFee + a.creatorFee) = a.gross)
    (hp : a.sellerProceeds ≤ w.token.balanceOf buyer)
    (hf : a.platformFee + a.creatorFee ≤ move w.token.balanceOf buyer l.seller a.sellerProceeds buyer)
    (hu : u.books = w.holding (move (move w.token.balanceOf buyer l.seller a.sellerProceeds) buyer D.feeVault
      (a.platformFee + a.creatorFee))) (h : creditFees D u l id a = .ok c) : Paid D w buyer l a c := by
  obtain ⟨htoken, hcredit⟩ := creditFees_credit h
  have hvaults : u.vaults = w.vaults := (congrArg (fun x => x.vaults) hu :)
  have hfeeVault : u.feeVault = w.feeVault := (congrArg (fun x => x.feeVault) hu :)
  refine paid_of_moves hbuyer hseller hsum hp hf (htoken ▸ (held_of_books hu).1) fun b => ?_
  rw [hcredit, hvaults]
  simp only [credit, hfeeVault]

/-! ## Fills -/

/-- A fill of the listing `l` in full: its price and its payment, what it leaves of the listing, and its units, which
the buyer accepts after calls of his own. After that the marketplace only logs it. -/
structure Filled (D : Deployment) (R : Receivers D) (W : State) (buyer : Address) (id : ListingId) (desiredUnits : Nat)
    (l : Listing) (a : FillAmounts) (u w : Core) (W₁ W' : State) : Prop where
  active : l.active = true
  units : a.units = min desiredUnits l.remainingUnits
  gross : a.gross = a.units * l.unitPrice / 1000000
  parts : a.sellerProceeds + (a.platformFee + a.creatorFee) = a.gross
  paid : Paid D W.core buyer l a u
  drawn : W'.marketplace = W.marketplace.setListing id { l with
    remainingUnits := l.remainingUnits - a.units, active := l.remainingUnits - a.units != 0 }
  handed : Core.Handed u D.marketplace l.vault D.marketplace buyer l.outcomeId a.units w
  accepted : R.answer ⟨w, W'.marketplace⟩ ⟨l.vault, D.marketplace, D.marketplace, buyer, l.outcomeId, a.units, none⟩ =
    some W₁
  calls : Reach.Run (Outside D) ⟨w, W'.marketplace⟩ W₁
  logged : W' = W₁.emit (.ListingFilled id buyer l.seller desiredUnits a.units a.gross a.sellerProceeds a.platformFee
    a.creatorFee (l.remainingUnits - a.units))

/-- Both fills, from their payment on. -/
theorem filled_of_paid {buyer : Address} {id : ListingId} {desiredUnits minUnits maxGross deadline : Nat} {l : Listing}
    {a : FillAmounts} {V : State} {c : Core} {units gross : Nat} (hn : W.marketplace.expectedReceipt = none)
    (hV : prepareFill W id desiredUnits minUnits maxGross deadline = .ok (V, l, a)) (hg : Grounded D c)
    (hpaid : Paid D W.core buyer l a c)
    (h : completeFill D R { V with core := c } id buyer l desiredUnits a = .ok (W', units, gross)) :
    ∃ w W₁, Filled D R W buyer id desiredUnits (W.marketplace.listings id) a c w W₁ W' := by
  unfold prepareFill at hV
  obtain ⟨⟨l', a', remaining⟩, hq, hV⟩ := bind_eq_ok.mp hV
  simp only [Except.ok.injEq, Prod.mk.injEq] at hV
  obtain ⟨rfl, rfl, rfl⟩ := hV
  obtain ⟨hl, hactive, -, hrem, -⟩ := quoteFill_draws hq
  obtain ⟨-, hparts, -⟩ := quoteFill_gross hq
  obtain ⟨hunits, hprice⟩ := quoteFill_price hq
  subst hl
  unfold completeFill at h
  obtain ⟨W₁, hs, h⟩ := bind_eq_ok.mp h
  simp only [Except.ok.injEq, Prod.mk.injEq] at h
  obtain ⟨rfl, rfl, rfl⟩ := h
  obtain ⟨-, -, w, hw, ha, hm, -⟩ := sent_eq_ok (by exact hg) (by exact hn) hs
  have hdrawn : W₁.marketplace = W.marketplace.setListing id { W.marketplace.listings id with
      remainingUnits := (W.marketplace.listings id).remainingUnits - a'.units,
      active := (W.marketplace.listings id).remainingUnits - a'.units != 0 } := by
    rw [hm, ← hrem, hactive, Bool.true_and]
  have hleft : (W₁.marketplace.listings id).remainingUnits =
      (W.marketplace.listings id).remainingUnits - a'.units := by
    rw [hdrawn]
    simp [Marketplace.setListing]
  rw [← hm] at ha
  exact ⟨w, W₁, hactive, hunits, hprice, hparts, hpaid, hdrawn, Core.moveShares_handed hw, ha,
    R.lawful _ _ _ ha, by rw [hleft]⟩

theorem fillListing_filled {buyer : Address} {id : ListingId} {desiredUnits minUnits maxGross deadline : Nat}
    {units gross : Nat} (h : Inv D W) (hbuyer : Outsider D buyer)
    (hf : fillListing D R W buyer id desiredUnits minUnits maxGross deadline = .ok (W', units, gross)) :
    ∃ a u w W₁, Filled D R W buyer id desiredUnits (W.marketplace.listings id) a u w W₁ W' := by
  obtain ⟨l, a, V, c, hV, hc, hf⟩ := fillListing_steps hf
  obtain ⟨hcore, remaining, hq⟩ := prepareFill_quoted hV
  obtain ⟨hparts, hseller⟩ := quoted_parts h hq
  rw [hcore] at hc
  obtain ⟨hp, hfees, u, hu, hcredits⟩ := payFrom_eq_ok hc
  exact ⟨a, c, filled_of_paid h.settled hV (payFrom_kept h.grounded hc).1
    (paid_of_credits hbuyer hseller hparts hp hfees hu hcredits) hf⟩

/-- What Permit2 pulls into the marketplace goes on to the seller and the fee vault. -/
theorem fillListingWithPermit2_filled {buyer : Address} {id : ListingId}
    {desiredUnits minUnits maxGross deadline units gross : Nat} {permit : Permit} (h : Inv D W)
    (hbuyer : Outsider D buyer)
    (hf : fillListingWithPermit2 D R W id buyer desiredUnits minUnits maxGross deadline permit =
      .ok (W', units, gross)) :
    ∃ a u w W₁, Filled D R W buyer id desiredUnits (W.marketplace.listings id) a u w W₁ W' := by
  simp only [fillListingWithPermit2, bind_eq_ok] at hf
  obtain ⟨_, -, _, -, ⟨V, l, a⟩, hV, _, -, _, -, v, hpull, c, hc, hf⟩ := hf
  obtain ⟨hcore, remaining, hq⟩ := prepareFill_quoted hV
  obtain ⟨hparts, hseller⟩ := quoted_parts h hq
  simp only [pullWithPermit2, bind_eq_ok, hcore] at hpull
  obtain ⟨_, -, hpull⟩ := hpull
  obtain ⟨hle, hv, -⟩ := Core.pullExact_books hpull
  obtain ⟨u, hu, hcredits⟩ := payHeld_eq_ok hc
  have hgv := (h.grounded.payFrom (Core.pullExact_eq_ok hpull).1).1
  have hmoved : u.books = W.core.holding (move (move W.core.token.balanceOf buyer l.seller a.sellerProceeds) buyer
      D.feeVault (a.platformFee + a.creatorFee)) := by
    rw [hu, Core.holding_holding hv, (held_of_books hv).1, ← hparts, move_through _ _ _ (hparts ▸ hle)]
  have hfees : a.platformFee + a.creatorFee ≤ move W.core.token.balanceOf buyer l.seller a.sellerProceeds buyer := by
    by_cases hsame : buyer = l.seller
    · rw [← hsame, move_self _ (by omega)]
      omega
    · rw [move_from _ _ hsame]
      omega
  exact ⟨a, c, filled_of_paid h.settled hV (payHeld_kept hgv hc).1
    (paid_of_credits hbuyer hseller hparts (by omega) hfees hmoved hcredits) hf⟩

/-! ## Shares that come unasked -/

/-- A call that sends shares to `a`, one outcome or a batch, or buys them for it. -/
def SendsTo (a : Address) : CoreCall → Prop
  | .safeTransferFrom _ _ target _ _ _ => target = a
  | .safeBatchTransferFrom _ _ target _ _ => target = a
  | .buyWithPermit2 _ owner _ _ _ _ _ _ _ _ _ => owner = a
  | _ => False

/-- A marketplace that expects no receipt lets nobody send it shares. -/
theorem refuses_shares (hn : W.marketplace.expectedReceipt = none) {caller : Address} {data : Option ListingId}
    {c : CoreCall} (hc : SendsTo D.marketplace c) (w : Core) :
    Core.exec D W.core caller (answered D W.marketplace caller data c) ≠ .ok w := by
  have hdeliver : ∀ target x, Core.deliver D target (decide (target ≠ target) && x) ≠ .ok () := by
    intro target x h
    simp [Core.deliver] at h
  rw [answered_settled hn]
  intro h
  obtain ⟨_, _, h⟩ := bind_eq_ok.mp h
  cases c with
  | safeTransferFrom market source target id value accepts =>
    obtain rfl : target = D.marketplace := hc
    obtain ⟨_, _, h⟩ := bind_eq_ok.mp h
    obtain ⟨_, hd, _⟩ := bind_eq_ok.mp h
    exact hdeliver _ _ hd
  | safeBatchTransferFrom market source target parts accepts =>
    obtain rfl : target = D.marketplace := hc
    obtain ⟨_, _, h⟩ := bind_eq_ok.mp h
    obtain ⟨_, _, h⟩ := bind_eq_ok.mp h
    obtain ⟨_, hd, _⟩ := bind_eq_ok.mp h
    exact hdeliver _ _ hd
  | buyWithPermit2 market owner outcomeId desiredUnits minUnits maxPayment callDeadline token amount accepted accepts =>
    obtain rfl : owner = D.marketplace := hc
    simp only [Core.buyWithPermit2, Core.completeBuy, World.answered, bind_eq_ok] at h
    obtain ⟨_, _, _, _, _, _, _, _, _, _, _, _, _, _, _, _, _, _, _, hd, _⟩ := h
    exact hdeliver _ _ hd
  | _ => exact hc

/-! ## The whole -/

/-- A new listing takes the id of the next nonce of its seller. -/
theorem createListing_listed {caller vault : Address} {outcomeId amount unitPrice expiresAt : Nat}
    (h : createListing D R W caller vault outcomeId amount unitPrice expiresAt = .ok W') :
    W'.marketplace = { listed W.marketplace ⟨vault, caller, W.marketplace.sellerNonce caller⟩
      ⟨vault, caller, amount, unitPrice, expiresAt, outcomeId, true⟩ with expectedReceipt := none } := by
  unfold createListing at h
  obtain ⟨_, _, h⟩ := bind_eq_ok.mp h
  obtain ⟨outcome, hu, h⟩ := bind_eq_ok.mp h
  simp only [Vault.toUint8, bind_eq_ok, revertIf_eq_ok, Except.ok.injEq] at hu
  obtain ⟨_, _, rfl⟩ := hu
  obtain ⟨W₂, hs, h⟩ := bind_eq_ok.mp h
  cases h
  unfold safeTransferFrom at hs
  obtain ⟨w, hw, hs⟩ := bind_eq_ok.mp hs
  unfold deliver at hs
  rw [if_pos rfl] at hs
  obtain ⟨_, _, hs⟩ := bind_eq_ok.mp hs
  cases hs
  rfl

/-- An id that has been used stays with its listing, and a new listing takes one that has not. -/
structure IdsOnce (D : Deployment) (W : State) : Prop where
  used : ∀ W', Reach.Run (Step D) W W' → ∀ id, id.nonce < W.marketplace.sellerNonce id.seller →
    id.nonce < W'.marketplace.sellerNonce id.seller ∧ Lasts (W.marketplace.listings id) (W'.marketplace.listings id)
  fresh : ∀ (R : Receivers D) caller vault outcomeId amount unitPrice expiresAt W',
    exec D R W caller (.createListing vault outcomeId amount unitPrice expiresAt) = .ok W' →
      W.marketplace.listings ⟨vault, caller, W.marketplace.sellerNonce caller⟩ = .blank ∧
        W'.marketplace.listings ⟨vault, caller, W.marketplace.sellerNonce caller⟩ =
          ⟨vault, caller, amount, unitPrice, expiresAt, outcomeId, true⟩ ∧
        W'.marketplace.sellerNonce caller = W.marketplace.sellerNonce caller + 1

theorem Reachable.idsOnce (hr : Reachable D W) : IdsOnce D W where
  used := fun W' hrun id hn => ⟨hn.trans_le ((run_later hr hrun).nonce _), (run_later hr hrun).listings id hn⟩
  fresh := fun R caller vault outcomeId amount unitPrice expiresAt W' hx => by
    obtain ⟨_, _, hx⟩ := bind_eq_ok.mp hx
    rw [createListing_listed hx]
    exact ⟨(Reachable.inv hr).unused le_rfl, Function.update_self .., Function.update_self ..⟩

/-- **The fixed-price marketplace.** In every state that any calls, deliveries and callbacks reach: it has of every
outcome of every vault the units of its listings; an active listing has at least the minimum of its vault, another
has none; no id is used twice; a fill by either payment takes the gross amount from the buyer and gives it to the
seller and the fee vault, and nothing of it stays; nobody can send it shares; and the seller of an active listing can
cancel it, with its shares there and whatever is paused, if he takes them. -/
theorem fixed_price_escrow (hr : Reachable D W) :
    (∀ vault outcomeId, (W.core.vaults vault).shares.balanceOf outcomeId D.marketplace =
        W.marketplace.listedUnits vault outcomeId) ∧
      (∀ id, ((W.marketplace.listings id).active = true →
          (W.core.vaults (W.marketplace.listings id).vault).init.minimumC2CUnits ≤
            (W.marketplace.listings id).remainingUnits) ∧
        ((W.marketplace.listings id).active = false → (W.marketplace.listings id).remainingUnits = 0)) ∧
      IdsOnce D W ∧
      (∀ (R : Receivers D) caller buyer id desiredUnits minUnits maxGross deadline W',
        (caller = buyer ∧ exec D R W caller (.fillListing id desiredUnits minUnits maxGross deadline) = .ok W' ∨
          ∃ permit, exec D R W caller
            (.fillListingWithPermit2 id buyer desiredUnits minUnits maxGross deadline permit) = .ok W') →
        ∃ a u w W₁, Filled D R W buyer id desiredUnits (W.marketplace.listings id) a u w W₁ W') ∧
      (∀ caller data c, SendsTo D.marketplace c →
        ∀ w, Core.exec D W.core caller (answered D W.marketplace caller data c) ≠ .ok w) ∧
      ∀ (R : Receivers D) id, (W.marketplace.listings id).active = true →
        (∃ w, W.core.moveShares D.marketplace (W.marketplace.listings id).vault D.marketplace
          (W.marketplace.listings id).seller (W.marketplace.listings id).outcomeId
          (W.marketplace.listings id).remainingUnits = .ok w) ∧
        ((∀ V d, d.target = (W.marketplace.listings id).seller → (R.answer V d).isSome = true) →
          ∃ W', exec D R W (W.marketplace.listings id).seller (.cancelListing id) = .ok W' ∧
            Returned D R W id (.ListingCancelled id (W.marketplace.listings id).seller
              (W.marketplace.listings id).remainingUnits) W') := by
  have h := Reachable.inv hr
  refine ⟨h.custody, fun id => ?_, Reachable.idsOnce hr, ?_, fun _ _ _ hc w => refuses_shares h.settled hc w,
    fun R id ha => ⟨moveShares_succeeds h (h.of_active ha), fun hR => ?_⟩⟩
  · rcases h.listed id with hb | hl
    · rw [hb]
      exact ⟨nofun, fun _ => rfl⟩
    · exact ⟨hl.dust, hl.closed⟩
  · rintro R caller buyer id desiredUnits minUnits maxGross deadline W' (⟨rfl, hx⟩ | ⟨permit, hx⟩)
    · obtain ⟨_, hcaller, hx⟩ := bind_eq_ok.mp hx
      simp only [revertIf_eq_ok, not_or, Bool.not_eq_false] at hcaller
      obtain ⟨⟨W₂, units, gross⟩, hf, hx⟩ := bind_eq_ok.mp hx
      cases hx
      exact fillListing_filled h hcaller hf
    · obtain ⟨_, _, hx⟩ := bind_eq_ok.mp hx
      obtain ⟨_, hbuyer, hx⟩ := bind_eq_ok.mp hx
      simp only [revertIf_eq_ok, not_or, Bool.not_eq_false] at hbuyer
      obtain ⟨⟨W₂, units, gross⟩, hf, hx⟩ := bind_eq_ok.mp hx
      cases hx
      exact fillListingWithPermit2_filled h hbuyer hf
  · have hl := h.of_active ha
    obtain ⟨W', hx, hret⟩ := returnListing_succeeds h ha hR fun l => .ListingCancelled id l.seller l.remainingUnits
    refine ⟨W', bind_eq_ok.mpr ⟨(), revertIf_eq_ok.mpr (by simp [hl.outsider.1, hl.outsider.2]), ?_⟩, hret⟩
    exact bind_eq_ok.mpr ⟨(), revertIf_eq_ok.mpr (by simp [ha]), hx⟩

end State

end FixedPrice

/-- Bob fills half of the sample listing for half a token, and Alice could have cancelled it. -/
theorem fixed_price_escrow_sample :
    (∃ W' a u w W₁, FixedPrice.State.exec Sample.deployment (Sample.shoppers none) (Sample.performed Sample.offered)
        Sample.bob (.fillListing Sample.listingId 1000000 1 500000 9000) = .ok W' ∧
      FixedPrice.State.Filled Sample.deployment (Sample.shoppers none) (Sample.performed Sample.offered) Sample.bob
        Sample.listingId 1000000 ((Sample.performed Sample.offered).marketplace.listings Sample.listingId) a u w W₁
        W' ∧
      a.gross = 500000 ∧ u.token.balanceOf Sample.bob + 500000 =
        (Sample.performed Sample.offered).core.token.balanceOf Sample.bob) ∧
      ∃ W', FixedPrice.State.exec Sample.deployment (Sample.shoppers none) (Sample.performed Sample.offered)
        ((Sample.performed Sample.offered).marketplace.listings Sample.listingId).seller
        (.cancelListing Sample.listingId) = .ok W' := by
  obtain ⟨-, -, -, hfills, -, hcancels⟩ :=
    FixedPrice.State.fixed_price_escrow (Sample.performed_reachable Sample.offered)
  refine ⟨?_, ?_⟩
  · have hok : (FixedPrice.State.exec Sample.deployment (Sample.shoppers none) (Sample.performed Sample.offered)
        Sample.bob (.fillListing Sample.listingId 1000000 1 500000 9000)).toOption.isSome = true := by decide +kernel
    cases hx : FixedPrice.State.exec Sample.deployment (Sample.shoppers none) (Sample.performed Sample.offered)
        Sample.bob (.fillListing Sample.listingId 1000000 1 500000 9000) with
    | error e => rw [hx] at hok; cases hok
    | ok W' =>
      obtain ⟨a, u, w, W₁, hfilled⟩ := hfills _ _ Sample.bob _ _ _ _ _ _ (.inl ⟨rfl, hx⟩)
      have hgross : a.gross = 500000 := by
        rw [hfilled.gross, hfilled.units]
        decide +kernel
      have hdebited := hfilled.paid.debited (by decide +kernel)
      exact ⟨W', a, u, w, W₁, rfl, hfilled, hgross, hgross ▸ hdebited⟩
  · obtain ⟨W', hx, -⟩ := (hcancels (Sample.shoppers none) Sample.listingId (by decide +kernel)).2
      fun V d _ => by simp [Sample.shoppers]
    exact ⟨W', hx⟩

end Cpredict
