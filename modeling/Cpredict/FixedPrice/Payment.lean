import Cpredict.Core.Accounting
import Cpredict.FixedPrice.Calls

/-!
# The two ways to pay for a listing

`fillListing` sends the proceeds and the fees straight from the buyer, `fillListingWithPermit2` lets Permit2 pull
the gross amount into the marketplace and pays from there. The books of a state are what is left of it without the
allowances of the payment token and the log. Every operation of the two calls maps states of equal books to states
of equal books, and the two chains of transfers move the balances alike (`Balances.move_through`), so that the two
calls leave equal books whenever both succeed.
-/

namespace Balances

variable {ι : Type} [DecidableEq ι]

/-- An amount that `b` sends on in two parts may go through `m`. -/
theorem move_through {f : ι → Nat} {b : ι} {p r : Nat} (m s q : ι) (h : p + r ≤ f b) :
    move (move (move f b m (p + r)) m s p) m q r = move (move f b s p) b q r := by
  funext c
  simp only [move, Function.update_apply]
  split_ifs <;> subst_vars <;> (try simp_all) <;> omega

theorem le_move_through {f : ι → Nat} {b m : ι} {p r : Nat} (s : ι) (h : p + r ≤ move f b m (p + r) m) :
    r ≤ move (move f b m (p + r)) m s p m := by
  by_cases hs : m = s
  · subst hs; rw [move_self _ (by omega)]; omega
  · rw [move_from _ _ hs]; omega

end Balances

namespace Outcome

variable {ε α β γ δ : Type}

/-- Two computations whose steps have equal images. -/
theorem map_bind_congr {g : α → γ} {h : β → δ} {x x' : Except ε α} {f f' : α → Except ε β} (hx : x.map g = x'.map g)
    (hf : ∀ a a', g a = g a' → (f a).map h = (f' a').map h) : (x >>= f).map h = (x' >>= f').map h := by
  cases x <;> cases x' <;> simp only [Except.map, Except.ok.injEq, Except.error.injEq, reduceCtorEq] at hx
  · subst hx; rfl
  · exact hf _ _ hx

end Outcome

namespace Cpredict

open Outcome Balances

/-! ## Books -/

namespace Core

/-- The core without the allowances of the payment token and the log. -/
def books (w : Core) : Core := { w with token := { w.token with allowance := fun _ _ => 0 }, log := [] }

/-- The books of `w` with other balances of the payment token. -/
def holding (w : Core) (balanceOf : Address → Nat) : Core :=
  { w.books with token := { w.books.token with balanceOf := balanceOf } }

/-- A core of the same books differs in the allowances and the log. -/
theorem eq_of_books {w w' : Core} (h : w.books = w'.books) :
    w' = { w with token := { w.token with allowance := w'.token.allowance }, log := w'.log } := by
  obtain ⟨now, ⟨b, al, r⟩, c, e, f, g, es, fv, v, l⟩ := w
  obtain ⟨now', ⟨b', al', r'⟩, c', e', f', g', es', fv', v', l'⟩ := w'
  simp only [books, Core.mk.injEq, Token.mk.injEq] at h
  simp only [Core.mk.injEq, Token.mk.injEq]
  tauto

theorem holding_holding {w w' : Core} {f : Address → Nat} (h : w'.books = w.holding f) (g : Address → Nat) :
    w'.holding g = w.holding g := by
  unfold holding
  rw [h]
  rfl

/-! ### Payments -/

theorem pay_books {w w' : Core} {a b : Address} {n : Nat} (h : w.pay a b n = .ok w') :
    n ≤ w.token.balanceOf a ∧ w'.books = w.holding (move w.token.balanceOf a b n) := by
  simp only [pay, bind_eq_ok] at h
  obtain ⟨t, ht, h⟩ := h
  obtain ⟨-, hn, rfl⟩ := Token.transfer_eq_ok.mp ht
  cases h
  exact ⟨hn, rfl⟩

theorem pay_succeeds {w : Core} {a b : Address} {n : Nat} (hr : w.token.refuses a b n = false)
    (hn : n ≤ w.token.balanceOf a) :
    ∃ w', w.pay a b n = .ok w' :=
  ⟨_, bind_eq_ok.mpr ⟨_, Token.transfer_eq_ok.mpr ⟨hr, hn, rfl⟩, rfl⟩⟩

theorem payFrom_books {w w' : Core} {s a b : Address} {n : Nat} (h : w.payFrom s a b n = .ok w') :
    n ≤ w.token.balanceOf a ∧ w'.books = w.holding (move w.token.balanceOf a b n) := by
  simp only [payFrom, bind_eq_ok] at h
  obtain ⟨t, ht, h⟩ := h
  obtain ⟨-, hn, hb, hr, -⟩ := Token.transferFrom_eq_ok ht
  cases h
  refine ⟨hn, ?_⟩
  simp only [books, holding, emit, hb, hr]

theorem pullExact_books {w w' : Core} {s a b : Address} {n : Nat} (h : w.pullExact s a b n = .ok w') :
    n ≤ w.token.balanceOf a ∧ w'.books = w.holding (move w.token.balanceOf a b n) ∧
      w'.token.balanceOf b = w.token.balanceOf b + n := by
  simp only [pullExact, bind_eq_ok, revertIf_eq_ok, checkedSub_eq_ok, not_not] at h
  obtain ⟨v, hv, k, ⟨hle, rfl⟩, -, hk, h⟩ := h
  cases h
  obtain ⟨hn, hb⟩ := payFrom_books hv
  exact ⟨hn, hb, by omega⟩

theorem pullExact_succeeds {w : Core} {s a b : Address} {n : Nat} (hr : w.token.refuses a b n = false)
    (hal : n ≤ w.token.allowance a s) (hn : n ≤ w.token.balanceOf a) (hab : a ≠ b) :
    ∃ w', w.pullExact s a b n = .ok w' := by
  obtain ⟨t, ht⟩ : ∃ t, w.token.spendAllowance a s n = .ok t := by
    unfold Token.spendAllowance
    rw [revertIf_neg _ (not_lt.mpr hal), ok_bind]
    split <;> exact ⟨_, rfl⟩
  obtain ⟨-, hb, hrt, -⟩ := Token.spendAllowance_eq_ok ht
  have htr : w.token.transferFrom s a b n = .ok { t with balanceOf := move t.balanceOf a b n } :=
    bind_eq_ok.mpr ⟨t, ht, Token.transfer_eq_ok.mpr ⟨by rw [hrt]; exact hr, by rw [hb]; exact hn, rfl⟩⟩
  have hto : move t.balanceOf a b n b = w.token.balanceOf b + n := by rw [hb, move_to _ _ hab]
  have hpay : w.payFrom s a b n =
      .ok ({ w with token := { t with balanceOf := move t.balanceOf a b n } }.emit (.Transfer a b n)) :=
    bind_eq_ok.mpr ⟨_, htr, rfl⟩
  have hreceived : checkedSub Err.Panic (move t.balanceOf a b n b) (w.token.balanceOf b) = .ok n :=
    checkedSub_eq_ok.mpr (by omega)
  unfold pullExact
  rw [hpay, ok_bind]
  simp only [emit]
  rw [hreceived, ok_bind, revertIf_neg _ (not_not.mpr rfl), ok_bind]
  exact ⟨_, rfl⟩

/-! ### What the rest of a fill reads -/

theorem accrue_books (D : Deployment) {w w' : Core} (h : w.books = w'.books) (sender beneficiary : Address)
    (amount : Nat)
    (kind : FeeKind) (ref : FeeReference) :
    (w.accrue D sender beneficiary amount kind ref).map books = (w'.accrue D sender beneficiary amount kind ref).map
      books := by
  rw [eq_of_books h]
  unfold accrue
  cases w.feeVault.accrue sender (w.token.balanceOf D.feeVault) beneficiary amount with
  | error e => rfl
  | ok f => simp only [ok_bind, Except.map]; split <;> rfl

theorem moveShares_books {w w' : Core} (h : w.books = w'.books) (caller market source target : Address)
    (id value : Nat) :
    (w.moveShares caller market source target id value).map books =
      (w'.moveShares caller market source target id value).map books := by
  rw [eq_of_books h]
  unfold moveShares requireMarket
  refine map_bind_congr (g := fun u => u) rfl fun _ _ _ => ?_
  refine map_bind_congr (g := fun s => s) rfl fun s s' hs => ?_
  subst hs
  rfl

end Core

namespace FixedPrice

namespace State

def books (W : State) : State := { W with core := W.core.books }

theorem books_eq {W W' : State} (hm : W.marketplace = W'.marketplace) (hc : W.core.books = W'.core.books) :
    W.books = W'.books := by
  unfold books
  rw [hm, hc]

theorem core_of_books {W W' : State} (h : W.books = W'.books) : W.core.books = W'.core.books :=
  (congrArg State.core h :)

theorem marketplace_of_books {W W' : State} (h : W.books = W'.books) : W.marketplace = W'.marketplace :=
  (congrArg State.marketplace h :)

/-- The answers of the receivers are those of contracts that read neither allowances nor the log: in states of equal
books they accept alike and leave equal books. -/
def Receivers.Indifferent {D : Deployment} (R : Receivers D) : Prop :=
  ∀ W W' d, W.books = W'.books → (R.answer W d).map books = (R.answer W' d).map books

section

variable {D : Deployment} {R : Receivers D}

theorem deliver_books (hR : R.Indifferent) {W W' : State} (h : W.books = W'.books) (d : Delivery) :
    (deliver D R W d).map books = (deliver D R W' d).map books := by
  unfold deliver
  split
  · rw [marketplace_of_books h]
    refine map_bind_congr (g := fun u => u) rfl fun _ _ _ => ?_
    simp only [Except.map, h]
  · refine map_bind_congr (g := fun u => u) rfl fun _ _ _ => ?_
    have ha := hR W W' d h
    cases h₁ : R.answer W d <;> cases h₂ : R.answer W' d <;> simp only [h₁, h₂, Option.map, reduceCtorEq,
      Option.some.injEq] at ha
    · rfl
    · simp only [Except.map, ha]

theorem safeTransferFrom_books (hR : R.Indifferent) {W W' : State} (h : W.books = W'.books)
    (market source target : Address)
    (id value : Nat) (data : Option ListingId) :
    (safeTransferFrom D R W market source target id value data).map books =
      (safeTransferFrom D R W' market source target id value data).map books := by
  unfold safeTransferFrom
  refine map_bind_congr (Core.moveShares_books (core_of_books h) _ _ _ _ _ _) fun c c' hc => ?_
  have hb : ({ W with core := c } : State).books = ({ W' with core := c' } : State).books :=
    books_eq (marketplace_of_books h :) hc
  exact deliver_books hR hb _

/-- A fill as its caller sees it: the books it leaves, and what it returns. -/
def seen (r : State × Nat × Nat) : State × Nat × Nat := (r.1.books, r.2)

theorem completeFill_books (hR : R.Indifferent) {W W' : State} (h : W.books = W'.books) (id : ListingId)
    (buyer : Address)
    (listing : Listing) (desiredUnits : Nat) (amounts : FillAmounts) :
    (completeFill D R W id buyer listing desiredUnits amounts).map seen =
      (completeFill D R W' id buyer listing desiredUnits amounts).map seen := by
  unfold completeFill
  refine map_bind_congr (safeTransferFrom_books hR h _ _ _ _ _ _) fun V V' hV => ?_
  refine congrArg Except.ok (Prod.ext ?_ rfl)
  exact books_eq (marketplace_of_books hV) (core_of_books hV)

theorem accrueFees_books {w w' : Core} (h : w.books = w'.books) (listing : Listing) (id : ListingId)
    (amounts : FillAmounts) :
    (accrueFees D w listing id amounts).map Core.books = (accrueFees D w' listing id amounts).map Core.books := by
  have hv : ∀ {u u' : Core}, u.books = u'.books → u.vaults = u'.vaults := fun hu => (congrArg Core.vaults hu :)
  unfold accrueFees
  rw [hv h]
  refine map_bind_congr (Core.accrue_books D h _ _ _ _ _) fun u u' hu => ?_
  rw [hv hu]
  exact Core.accrue_books D hu _ _ _ _ _

/-! ## The payments -/

/-- The end of both payments: the fees are credited. -/
def creditFees (D : Deployment) (w : Core) (listing : Listing) (id : ListingId) (amounts : FillAmounts) :
    Except Err Core :=
  if amounts.platformFee + amounts.creatorFee ≠ 0 then accrueFees D w listing id amounts else .ok w

theorem creditFees_books {w w' : Core} (h : w.books = w'.books) (listing : Listing) (id : ListingId)
    (amounts : FillAmounts) :
    (creditFees D w listing id amounts).map Core.books = (creditFees D w' listing id amounts).map Core.books := by
  unfold creditFees
  split
  · exact accrueFees_books h _ _ _
  · simp only [Except.map, h]

theorem held_of_books {w w' : Core} {f : Address → Nat} (h : w'.books = w.holding f) :
    w'.token.balanceOf = f ∧ w'.token.refuses = w.token.refuses :=
  ⟨(congrArg (fun u => u.token.balanceOf) h :), (congrArg (fun u => u.token.refuses) h :)⟩

/-- A transfer that is left out when its amount is zero. -/
theorem payFrom_nonzero {w w' : Core} {s a b : Address} {n : Nat}
    (h : (if n ≠ 0 then w.payFrom s a b n else .ok w) = .ok w') :
    n ≤ w.token.balanceOf a ∧ w'.books = w.holding (move w.token.balanceOf a b n) := by
  by_cases hn : n = 0
  · rw [if_neg (not_not.mpr hn)] at h
    cases h
    subst hn
    exact ⟨Nat.zero_le _, by rw [move_zero]; rfl⟩
  · rw [if_pos hn] at h
    exact Core.payFrom_books h

theorem pay_nonzero {w w' : Core} {a b : Address} {n : Nat} (h : (if n ≠ 0 then w.pay a b n else .ok w) = .ok w') :
    w'.books = w.holding (move w.token.balanceOf a b n) := by
  by_cases hn : n = 0
  · rw [if_neg (not_not.mpr hn)] at h
    cases h
    subst hn
    rw [move_zero]
    rfl
  · rw [if_pos hn] at h
    exact (Core.pay_books h).2

theorem pay_nonzero_succeeds {w : Core} {a b : Address} {n : Nat} (hr : w.token.refuses a b n = false)
    (hn : n ≤ w.token.balanceOf a) : ∃ w', (if n ≠ 0 then w.pay a b n else .ok w) = .ok w' := by
  split
  · exact Core.pay_succeeds hr hn
  · exact ⟨w, rfl⟩

theorem pullExact_nonzero {w w' : Core} {s a b : Address} {n : Nat}
    (h : (if n ≠ 0 then w.pullExact s a b n else .ok w) = .ok w') :
    n ≤ w.token.balanceOf a ∧ w'.books = w.holding (move w.token.balanceOf a b n) := by
  by_cases hn : n = 0
  · rw [if_neg (not_not.mpr hn)] at h
    cases h
    subst hn
    exact ⟨Nat.zero_le _, by rw [move_zero]; rfl⟩
  · rw [if_pos hn] at h
    obtain ⟨hle, hb, -⟩ := Core.pullExact_books h
    exact ⟨hle, hb⟩

/-- The proceeds, the fees, the credits. -/
theorem payFrom_steps (w : Core) (buyer : Address) (listing : Listing) (id : ListingId) (a : FillAmounts) :
    payFrom D w buyer listing id a =
      (if a.sellerProceeds ≠ 0 then w.payFrom D.marketplace buyer listing.seller a.sellerProceeds else .ok w) >>=
        fun v =>
        (if a.platformFee + a.creatorFee ≠ 0 then v.pullExact D.marketplace buyer D.feeVault
          (a.platformFee + a.creatorFee)
          else .ok v) >>= fun u => creditFees D u listing id a := by
  unfold payFrom creditFees
  by_cases hp : a.sellerProceeds = 0 <;> by_cases hf : a.platformFee + a.creatorFee = 0 <;>
    simp only [hp, hf, ne_eq, not_true_eq_false, not_false_eq_true, if_true, if_false, ok_bind]

theorem payHeld_steps (w : Core) (listing : Listing) (id : ListingId) (a : FillAmounts) :
    payHeld D w listing id a =
      (if a.sellerProceeds ≠ 0 then w.pay D.marketplace listing.seller a.sellerProceeds else .ok w) >>= fun v =>
        (if a.platformFee + a.creatorFee ≠ 0 then v.pay D.marketplace D.feeVault (a.platformFee + a.creatorFee)
          else .ok v) >>= fun u => creditFees D u listing id a := by
  unfold payHeld creditFees
  by_cases hp : a.sellerProceeds = 0 <;> by_cases hf : a.platformFee + a.creatorFee = 0 <;>
    simp only [hp, hf, ne_eq, not_true_eq_false, not_false_eq_true, if_true, if_false, ok_bind]

theorem payFrom_eq_ok {w w' : Core} {buyer : Address} {listing : Listing} {id : ListingId} {a : FillAmounts}
    (h : payFrom D w buyer listing id a = .ok w') :
    a.sellerProceeds ≤ w.token.balanceOf buyer ∧
      a.platformFee + a.creatorFee ≤ move w.token.balanceOf buyer listing.seller a.sellerProceeds buyer ∧
      ∃ u, u.books = w.holding (move (move w.token.balanceOf buyer listing.seller a.sellerProceeds) buyer D.feeVault
        (a.platformFee + a.creatorFee)) ∧ creditFees D u listing id a = .ok w' := by
  rw [payFrom_steps] at h
  obtain ⟨v, hv, h⟩ := bind_eq_ok.mp h
  obtain ⟨u, hu, h⟩ := bind_eq_ok.mp h
  obtain ⟨hp, hb⟩ := payFrom_nonzero hv
  obtain ⟨hf, hub⟩ := pullExact_nonzero hu
  rw [(held_of_books hb).1] at hf hub
  exact ⟨hp, hf, u, by rw [hub, Core.holding_holding hb], h⟩

theorem payHeld_eq_ok {w w' : Core} {listing : Listing} {id : ListingId} {a : FillAmounts}
    (h : payHeld D w listing id a = .ok w') :
    ∃ u, u.books = w.holding (move (move w.token.balanceOf D.marketplace listing.seller a.sellerProceeds) D.marketplace
      D.feeVault (a.platformFee + a.creatorFee)) ∧ creditFees D u listing id a = .ok w' := by
  rw [payHeld_steps] at h
  obtain ⟨v, hv, h⟩ := bind_eq_ok.mp h
  obtain ⟨u, hu, h⟩ := bind_eq_ok.mp h
  have hb := pay_nonzero hv
  have hub := pay_nonzero hu
  rw [(held_of_books hb).1, Core.holding_holding hb] at hub
  exact ⟨u, hub, h⟩

/-- The marketplace pays what it holds, unless the token refuses. -/
theorem payHeld_succeeds (w : Core) (listing : Listing) (id : ListingId) (a : FillAmounts)
    (hs : w.token.refuses D.marketplace listing.seller a.sellerProceeds = false)
    (hq : w.token.refuses D.marketplace D.feeVault (a.platformFee + a.creatorFee) = false)
    (hp : a.sellerProceeds ≤ w.token.balanceOf D.marketplace)
    (hr : a.platformFee + a.creatorFee ≤ move w.token.balanceOf D.marketplace listing.seller a.sellerProceeds
      D.marketplace) :
    ∃ u, u.books = w.holding (move (move w.token.balanceOf D.marketplace listing.seller a.sellerProceeds) D.marketplace
      D.feeVault (a.platformFee + a.creatorFee)) ∧ payHeld D w listing id a = creditFees D u listing id a := by
  obtain ⟨v, hv⟩ := pay_nonzero_succeeds hs hp
  have hb := pay_nonzero hv
  obtain ⟨hbal, href⟩ := held_of_books hb
  obtain ⟨u, hu⟩ := pay_nonzero_succeeds (w := v) (a := D.marketplace) (b := D.feeVault)
    (n := a.platformFee + a.creatorFee)
    (by rw [href]; exact hq) (by rw [hbal]; exact hr)
  have hub := pay_nonzero hu
  rw [hbal, Core.holding_holding hb] at hub
  refine ⟨u, hub, ?_⟩
  rw [payHeld_steps, hv, ok_bind, hu, ok_bind]

/-- What is filled is paid for in full. -/
theorem quoteFill_gross {W : State} {id : ListingId} {desiredUnits minUnits maxGross deadline remaining : Nat}
    {l : Listing}
    {a : FillAmounts} (h : quoteFill W id desiredUnits minUnits maxGross deadline = .ok (l, a, remaining)) :
    l = W.marketplace.listings id ∧ a.sellerProceeds + (a.platformFee + a.creatorFee) = a.gross ∧ a.gross ≠ 0 := by
  simp only [quoteFill, bind_eq_ok, revertIf_eq_ok, checkedSub_eq_ok, Except.ok.injEq, Prod.mk.injEq] at h
  obtain ⟨-, -, -, -, -, -, -, -, -, -, -, -, -, -, -, -, -, -, -, hg, -, -, rest, ⟨hp, rfl⟩, q, ⟨hc, rfl⟩,
    rfl, rfl, rfl⟩ := h
  exact ⟨rfl, by simp only; omega, hg⟩

/-! ## The fills -/

theorem fillListing_steps {W : State} {buyer : Address} {id : ListingId} {desiredUnits minUnits maxGross deadline : Nat}
    {r : State × Nat × Nat} (h : fillListing D R W buyer id desiredUnits minUnits maxGross deadline = .ok r) :
    ∃ l a V c, prepareFill W id desiredUnits minUnits maxGross deadline = .ok (V, l, a) ∧
      payFrom D V.core buyer l id a = .ok c ∧ completeFill D R { V with core := c } id buyer l desiredUnits
        a = .ok r := by
  unfold fillListing at h
  obtain ⟨⟨V, l, a⟩, hV, h⟩ := bind_eq_ok.mp h
  obtain ⟨c, hc, h⟩ := bind_eq_ok.mp h
  exact ⟨l, a, V, c, hV, hc, h⟩

theorem prepareFill_quoted {W V : State} {id : ListingId} {desiredUnits minUnits maxGross deadline : Nat} {l : Listing}
    {a : FillAmounts} (h : prepareFill W id desiredUnits minUnits maxGross deadline = .ok (V, l, a)) :
    V.core = W.core ∧ ∃ remaining, quoteFill W id desiredUnits minUnits maxGross deadline = .ok (l, a, remaining) := by
  unfold prepareFill at h
  obtain ⟨⟨l', a', remaining⟩, hq, h⟩ := bind_eq_ok.mp h
  simp only [Except.ok.injEq, Prod.mk.injEq] at h
  obtain ⟨rfl, rfl, rfl⟩ := h
  exact ⟨rfl, remaining, hq⟩

/-- After the credits, the rest of the two fills is the same. -/
theorem credited_books (hR : R.Indifferent) {V : State} {u u' : Core} (h : u.books = u'.books) (l : Listing)
    (id : ListingId)
    (buyer : Address) (desiredUnits : Nat) (a : FillAmounts) :
    (creditFees D u l id a >>= fun c => completeFill D R { V with core := c } id buyer l desiredUnits a).map seen =
      (creditFees D u' l id a >>= fun c => completeFill D R { V with core := c } id buyer l desiredUnits a).map
        seen := by
  refine map_bind_congr (creditFees_books h l id a) fun c c' hc => ?_
  have hb : ({ V with core := c } : State).books = ({ V with core := c' } : State).books := books_eq rfl hc
  exact completeFill_books hR hb _ _ _ _ _

/-- What is pulled into the marketplace and paid from there has moved as if the buyer had paid. -/
theorem books_through {w v u u' : Core} {buyer : Address} {l : Listing} {a : FillAmounts} {n : Nat}
    (hn : a.sellerProceeds + (a.platformFee + a.creatorFee) = n) (hle : n ≤ w.token.balanceOf buyer)
    (hv : v.books = w.holding (move w.token.balanceOf buyer D.marketplace n))
    (hu : u.books = v.holding (move (move v.token.balanceOf D.marketplace l.seller a.sellerProceeds)
      D.marketplace D.feeVault
      (a.platformFee + a.creatorFee)))
    (hu' : u'.books = w.holding (move (move w.token.balanceOf buyer l.seller a.sellerProceeds) buyer D.feeVault
      (a.platformFee + a.creatorFee))) : u.books = u'.books := by
  subst hn
  rw [hu, hu', Core.holding_holding hv, (held_of_books hv).1, move_through _ _ _ hle]

/-- Both fills go through: they leave the same books and return the same. -/
theorem fills_agree (hR : R.Indifferent) {W : State} {buyer : Address} {id : ListingId}
    {desiredUnits minUnits maxGross deadline : Nat} {permit : Permit} {r r' : State × Nat × Nat}
    (h : fillListing D R W buyer id desiredUnits minUnits maxGross deadline = .ok r)
    (h' : fillListingWithPermit2 D R W id buyer desiredUnits minUnits maxGross deadline permit = .ok r') :
    seen r' = seen r := by
  obtain ⟨l, a, V, c, hV, hc, h⟩ := fillListing_steps h
  obtain ⟨hcore, remaining, hq⟩ := prepareFill_quoted hV
  obtain ⟨-, hsum, -⟩ := quoteFill_gross hq
  simp only [fillListingWithPermit2, bind_eq_ok, hV, Except.ok.injEq] at h'
  obtain ⟨-, -, -, -, _, rfl, -, -, -, -, v, hpull, c', hc', h'⟩ := h'
  simp only [pullWithPermit2, bind_eq_ok] at hpull
  obtain ⟨-, -, hpull⟩ := hpull
  obtain ⟨hle, hv, -⟩ := Core.pullExact_books hpull
  obtain ⟨-, -, u', hu', hc⟩ := payFrom_eq_ok hc
  obtain ⟨u, hu, hc'⟩ := payHeld_eq_ok hc'
  have key := credited_books hR (V := V) (books_through hsum hle hv hu hu') l id buyer desiredUnits a
  rw [hc, hc', ok_bind, ok_bind, h, h'] at key
  exact Except.ok.inj key

/-- What the second way asks for beyond the first, for a fill of these amounts: Permit2 may move the gross amount,
and the token refuses none of the three transfers. -/
structure Permitted (D : Deployment) (W : State) (buyer : Address) (permit : Permit) (l : Listing) (a : FillAmounts) :
    Prop where
  configured : D.permit2 ≠ 0
  unpaused : W.core.emergency.isPaused W.core.now PAUSE_PERMIT2 = false
  enabled : (W.core.vaults l.vault).permit2Enabled = true
  token : permit.token = D.paymentToken
  accepted : permit.accepted = true
  covers : a.gross ≤ permit.amount
  allowance : a.gross ≤ W.core.token.allowance buyer D.permit2
  pulls : W.core.token.refuses buyer D.marketplace a.gross = false
  pays : W.core.token.refuses D.marketplace l.seller a.sellerProceeds = false
  credits : W.core.token.refuses D.marketplace D.feeVault (a.platformFee + a.creatorFee) = false

theorem permit_succeeds (hR : R.Indifferent) {W : State} {buyer : Address} {id : ListingId}
    {desiredUnits minUnits maxGross deadline remaining : Nat} {permit : Permit} {l : Listing} {a : FillAmounts}
    {r : State × Nat × Nat} (h : fillListing D R W buyer id desiredUnits minUnits maxGross deadline = .ok r)
    (hq : quoteFill W id desiredUnits minUnits maxGross deadline = .ok (l, a, remaining))
    (hp : Permitted D W buyer permit l a)
    (hbuyer : buyer ≠ D.marketplace) (hfunds : buyer ≠ l.seller ∨ a.gross ≤ W.core.token.balanceOf buyer) :
    ∃ r, fillListingWithPermit2 D R W id buyer desiredUnits minUnits maxGross deadline permit = .ok r := by
  obtain ⟨-, hsum, -⟩ := quoteFill_gross hq
  obtain ⟨l', a', V, c, hV, hc, h⟩ := fillListing_steps h
  obtain ⟨hcore, _, hq'⟩ := prepareFill_quoted hV
  obtain ⟨rfl, rfl, -⟩ : l = l' ∧ a = a' ∧ _ := by simpa [hq] using hq'
  obtain ⟨hproceeds, hfees, u', hu', hc⟩ := payFrom_eq_ok hc
  rw [hcore] at hproceeds hfees hu'
  have hle : a.gross ≤ W.core.token.balanceOf buyer := by
    rcases hfunds with hne | hle
    · rw [move_from _ _ hne] at hfees
      omega
    · exact hle
  obtain ⟨v, hpull⟩ := Core.pullExact_succeeds hp.pulls hp.allowance hle hbuyer
  obtain ⟨-, hv, hreceived⟩ := Core.pullExact_books hpull
  obtain ⟨hbal, href⟩ := held_of_books hv
  have hheld : a.gross ≤ v.token.balanceOf D.marketplace := by omega
  obtain ⟨u, hu, hpay⟩ := payHeld_succeeds v l id a
    (by rw [href]; exact hp.pays) (by rw [href]; exact hp.credits) (by omega) (by
      rw [hbal, ← hsum] at hheld ⊢
      exact le_move_through _ hheld)
  have key := credited_books hR (V := V) (books_through hsum hle hv hu hu') l id buyer desiredUnits a
  rw [hc, ok_bind, h] at key
  obtain ⟨r, hr, -⟩ := map_eq_ok.mp key
  have hpulled : pullWithPermit2 D V.core buyer a.gross permit = .ok v := by
    refine bind_eq_ok.mpr ⟨(), revertIf_eq_ok.mpr ?_, by rw [hcore]; exact hpull⟩
    rw [hp.accepted]
    exact fun hf => hf.elim (by simp) (not_lt.mpr hp.covers)
  refine ⟨r, ?_⟩
  refine bind_eq_ok.mpr ⟨(), revertIf_eq_ok.mpr hp.configured, ?_⟩
  refine bind_eq_ok.mpr ⟨(), revertIf_eq_ok.mpr (by rw [hp.unpaused]; simp), ?_⟩
  refine bind_eq_ok.mpr ⟨_, hV, ?_⟩
  refine bind_eq_ok.mpr ⟨(), revertIf_eq_ok.mpr (by rw [hcore, hp.enabled]; simp), ?_⟩
  refine bind_eq_ok.mpr ⟨(), revertIf_eq_ok.mpr (fun hf => hf.elim (absurd hp.token) (not_lt.mpr hp.covers)), ?_⟩
  refine bind_eq_ok.mpr ⟨v, hpulled, ?_⟩
  rw [hpay]
  exact hr

/-- The two ways to pay for a listing, for receivers that read neither allowances nor the log: when both go through
they return the same and leave the same books, and the second goes through whenever the first does and Permit2 may
move the gross amount, unless a seller who buys from himself holds less than that. -/
theorem listing_payments (hR : R.Indifferent) {W : State} {buyer : Address} {id : ListingId}
    {desiredUnits minUnits maxGross deadline : Nat} {W₁ : State} {units gross : Nat}
    (h : fillListing D R W buyer id desiredUnits minUnits maxGross deadline = .ok (W₁, units, gross)) :
    (∀ permit W₂ units' gross',
        fillListingWithPermit2 D R W id buyer desiredUnits minUnits maxGross deadline permit =
          .ok (W₂, units', gross') →
          W₂.books = W₁.books ∧ units' = units ∧ gross' = gross) ∧
      ∀ permit l a remaining, quoteFill W id desiredUnits minUnits maxGross deadline = .ok (l, a, remaining) →
        Permitted D W buyer permit l a → buyer ≠ D.marketplace →
          (buyer ≠ l.seller ∨ a.gross ≤ W.core.token.balanceOf buyer) →
          ∃ W₂, fillListingWithPermit2 D R W id buyer desiredUnits minUnits maxGross deadline permit =
            .ok (W₂, units, gross) := by
  refine ⟨fun permit W₂ units' gross' h' => ?_, fun permit l a remaining hq hp hbuyer hfunds => ?_⟩
  · have := fills_agree hR h h'
    simp only [seen, Prod.mk.injEq] at this
    exact this
  · obtain ⟨⟨W₂, units', gross'⟩, h'⟩ := permit_succeeds hR h hq hp hbuyer hfunds
    have := fills_agree hR h h'
    simp only [seen, Prod.mk.injEq] at this
    obtain ⟨-, rfl, rfl⟩ := this
    exact ⟨W₂, h'⟩

end

end State

end FixedPrice

/-! ## A sample listing -/

namespace Sample

open FixedPrice

/-- Bob, whenever he is given shares, passes a token on to the creator if the marketplace may still spend `kept` of
his. Other receivers accept and do nothing, as Bob does without `kept`. -/
def shoppers (kept : Option Nat) : State.Receivers deployment where
  answer := fun W d =>
    if d.target = bob ∧ kept.any (fun n => decide (n ≤ W.core.token.allowance bob deployment.marketplace)) = true then
      match Core.exec deployment W.core bob (.transferToken creator 1) with
      | .ok w => some { W with core := w }
      | .error _ => none
    else some W
  lawful := fun W d W' h => by
    split at h
    · split at h
      · rename_i w hw
        cases h
        exact .single (.core W w bob (.transferToken creator 1) none (by decide) hw)
      · cases h
    · cases h; exact .refl

theorem shoppers_indifferent : (shoppers none).Indifferent := by
  intro W W' d h
  simp only [shoppers, Option.any_none, Bool.false_eq_true, and_false, if_false, Option.map, h]

/-- What users do: calls to the core and to the marketplace. -/
inductive Deed
  | core (caller : Address) (c : CoreCall)
  | shop (caller : Address) (c : State.Call)

/-- A deed. One that reverts changes nothing. -/
def perform (W : State) : Deed → State
  | .core caller c =>
    match Core.exec deployment W.core caller (State.answered deployment W.marketplace caller none c) with
    | .ok w => if caller ≠ deployment.marketplace then { W with core := w } else W
    | .error _ => W
  | .shop caller c =>
    match State.exec deployment (shoppers none) W caller c with
    | .ok W' => W'
    | .error _ => W

theorem perform_run (W : State) (x : Deed) : Reach.Run (State.Step deployment) W (perform W x) := by
  cases x with
  | core caller c =>
    simp only [perform]
    split
    · rename_i hx
      split
      · rename_i hc; exact .single (.outside _ _ (.core W _ caller c none hc hx))
      · exact .refl
    · exact .refl
  | shop caller c =>
    simp only [perform]
    split
    · rename_i hx; exact .single (.call _ _ _ caller c hx)
    · exact .refl

theorem performs_run (W : State) (xs : List Deed) : Reach.Run (State.Step deployment) W (xs.foldl perform W) := by
  induction xs generalizing W with
  | nil => exact .refl
  | cons x xs ih => exact (perform_run W x).trans (ih _)

/-- The marketplace has approved nobody. -/
def shop : State where
  core := { genesis with token := { genesis.token with
    allowance := fun a s => if a = deployment.marketplace then 0 else genesis.token.allowance a s } }
  marketplace := Marketplace.deployed

theorem shop_ok : State.Genesis deployment shop where
  core := { genesis_ok with
    allowance := fun a ha s => by
      show (if a = deployment.marketplace then 0 else genesis.token.allowance a s) = 0
      rw [genesis_ok.allowance a ha s, ite_self] }
  marketplace := rfl
  allowance := fun _ => rfl

/-- The state after a list of deeds. -/
def performed (xs : List Deed) : State := xs.foldl perform shop

theorem performed_reachable (xs : List Deed) : State.Reachable deployment (performed xs) :=
  ⟨shop, shop_ok, performs_run shop xs⟩

/-- Alice lists shares of a market that takes permits, two million units at half a token each. -/
def offered : List Deed :=
  [.core creator (.createMarket { params with terms := { terms with featureFlags := FEATURE_PERMIT2 } } none market),
   .core alice (.buy market 0 3000000 1 3000000 9999 true),
   .core alice (.setApprovalForAll market deployment.marketplace true),
   .shop alice (.createListing market 0 2000000 500000 9000)]

def listingId : ListingId := ⟨market, alice, 0⟩

def permit : State.Permit := ⟨deployment.paymentToken, 1000000, true⟩

/-- The listing, and the amounts of a fill of all of it. -/
def filled : Listing × FillAmounts :=
  (⟨market, alice, 2000000, 500000, 9000, 0, true⟩, ⟨2000000, 1000000, 0, 10000, 990000⟩)

/-- Alice has kept less than what her own listing costs. -/
def spent : List Deed := offered ++ [.core alice (.transferToken bob 996005000)]

/-- Bob has approved the marketplace for this one payment. -/
def approved : List Deed := offered ++ [.core bob (.approveToken deployment.marketplace 1000000)]

/-- The two fills of the sample listing. -/
def fill (R : State.Receivers deployment) (W : State) (buyer : Address) : Except Err (State × Nat × Nat) :=
  State.fillListing deployment R W buyer listingId 2000000 1 1000000 9000

def fillPermitted (R : State.Receivers deployment) (W : State) (buyer : Address) : Except Err (State × Nat × Nat) :=
  State.fillListingWithPermit2 deployment R W listingId buyer 2000000 1 1000000 9000 permit

theorem fill_ok {R : State.Receivers deployment} {W : State} {buyer : Address} {p : Nat × Nat}
    (h : (fill R W buyer).toOption.map Prod.snd = some p) : ∃ W', fill R W buyer = .ok (W', p) := by
  cases hf : fill R W buyer with
  | ok r => rw [hf] at h; exact ⟨r.1, by rw [← Option.some.inj h]⟩
  | error e => rw [hf] at h; cases h

theorem permitted (buyer : Address) (xs : List Deed) (h : buyer = alice ∧ xs = spent ∨ buyer = bob ∧ xs = offered) :
    State.Permitted deployment (performed xs) buyer permit filled.1 filled.2 := by
  obtain ⟨rfl, rfl⟩ | ⟨rfl, rfl⟩ := h
  all_goals
    constructor
    all_goals decide +kernel

end Sample

/-- The sample listing, which Bob fills either way. -/
theorem listing_payments_sample :
    ∃ W₁ W₂, Sample.fill (Sample.shoppers none) (Sample.performed Sample.offered) Sample.bob =
      .ok (W₁, 2000000, 1000000) ∧
      Sample.fillPermitted (Sample.shoppers none) (Sample.performed Sample.offered) Sample.bob =
        .ok (W₂, 2000000, 1000000) ∧
      W₂.books = W₁.books := by
  obtain ⟨W₁, h₁⟩ : ∃ W₁, Sample.fill (Sample.shoppers none) (Sample.performed Sample.offered) Sample.bob =
      .ok (W₁, 2000000, 1000000) := Sample.fill_ok (by decide +kernel)
  have hq : FixedPrice.State.quoteFill (Sample.performed Sample.offered) Sample.listingId 2000000 1 1000000 9000 =
      .ok (Sample.filled.1, Sample.filled.2, 0) := by decide +kernel
  obtain ⟨hboth, hpermit⟩ := FixedPrice.State.listing_payments Sample.shoppers_indifferent h₁
  obtain ⟨W₂, h₂⟩ := hpermit Sample.permit _ _ _ hq (Sample.permitted _ _ (.inr ⟨rfl, rfl⟩)) (by decide)
    (.inl (by decide))
  exact ⟨W₁, W₂, h₁, h₂, (hboth _ _ _ _ h₂).1⟩

/-- Alice, who holds less than the gross amount, can buy from herself on her allowance but not by a permit; and a
receiver that reads the allowance it has left makes the two ways differ. -/
theorem listing_payments_differ :
    (FixedPrice.State.Reachable Sample.deployment (Sample.performed Sample.spent) ∧
        FixedPrice.State.Permitted Sample.deployment (Sample.performed Sample.spent) Sample.alice Sample.permit
          Sample.filled.1
          Sample.filled.2 ∧
        (Sample.fill (Sample.shoppers none) (Sample.performed Sample.spent) Sample.alice).toOption.map Prod.snd =
          some (2000000, 1000000) ∧
        (Sample.fillPermitted (Sample.shoppers none) (Sample.performed Sample.spent) Sample.alice).toOption.map
          Prod.snd = none) ∧
      FixedPrice.State.Reachable Sample.deployment (Sample.performed Sample.approved) ∧
        ((Sample.fill (Sample.shoppers (some 1)) (Sample.performed Sample.approved) Sample.bob).toOption.map fun r =>
          r.1.core.token.balanceOf Sample.bob) = some 999000000 ∧
        ((Sample.fillPermitted (Sample.shoppers (some 1)) (Sample.performed Sample.approved) Sample.bob).toOption.map
          fun r =>
          r.1.core.token.balanceOf Sample.bob) = some 998999999 :=
  ⟨⟨Sample.performed_reachable _, Sample.permitted _ _ (.inl ⟨rfl, rfl⟩), by decide +kernel, by decide +kernel⟩,
    Sample.performed_reachable _, by decide +kernel, by decide +kernel⟩

end Cpredict
