import Cpredict.Book.Custody

/-!
# Releasing and finishing an order

`_release` closes an order: a bid gets its locked payment back, an ask its units, delivered or deferred (`Released`).
Under the invariant it can fail in one way only, the payment token refusing the transfer to the owner (`release_ends`).
`_finish` puts an order in transit back into the books, or releases what is left of it (`Finished`).
-/

namespace Cpredict

open Outcome Balances MulDiv

namespace Order

/-- The order that a release leaves behind. -/
def close (o : Order) : Order := { o with active := false, remainingUnits := 0, lockedPayment := 0 }

/-- The shares that an order has in escrow. -/
def askUnits (o : Order) : Nat :=
  match o.side with
  | .bid => 0
  | .ask => o.remainingUnits

theorem close_sound (o : Order) {pending : Nat} (h : pending ≠ 0 → o.side = .ask) : o.close.Sound pending False :=
  ⟨fun _ => ⟨rfl, rfl⟩, fun _ => rfl, nofun, nofun, False.elim, fun hp => ⟨h hp, rfl⟩, Nat.two_pow_pos _⟩

theorem close_escrowed (o : Order) (pending : Nat) : o.close.escrowed pending o.vault o.outcomeId = pending := by
  simp [escrowed, close]

theorem active_escrowed {o : Order} (ha : o.active = true) : o.escrowed 0 o.vault o.outcomeId = o.askUnits := by
  rw [escrowed_self]
  unfold askUnits
  cases hs : o.side <;> simp [ha]

end Order

namespace Book

variable {b b' : Book}

theorem Reheaped.orders (h : Reheaped b b') : b'.orders = b.orders := congrArg Account.orders h.account

theorem Reheaped.total (h : Reheaped b b') : b'.totalLockedPayment = b.totalLockedPayment :=
  congrArg Account.totalLockedPayment h.account

theorem Reheaped.pending (h : Reheaped b b') : b'.pendingShares = b.pendingShares :=
  congrArg Account.pendingShares h.account

end Book

namespace World

open Core (Grounded held Flow)

/-- What the orderbook has of shares once `n` of an outcome have left. -/
def less (s : Address → Nat → Nat) (o : Order) (n : Nat) : Address → Nat → Nat :=
  update₂ s o.vault o.outcomeId (s o.vault o.outcomeId - n)

@[simp] theorem less_zero (s : Address → Nat → Nat) (o : Order) : less s o 0 = s := update₂_eq_self _ _ _

/-- What a release logs. -/
def releaseEvents (id : Nat) (o : Order) (reason : ReleaseReason) (returned deferred : Nat) : List BookEvent :=
  (if deferred = 0 then [] else [.OrderSharesDeferred id o.owner deferred]) ++
    [.OrderReleased id o.owner reason returned o.lockedPayment]

/-- A release: the locked payment goes to the owner, and so do the units in escrow, unless they are all deferred. -/
structure Released (D : Deployment) (q : Prop) (W : World) (T : Set Nat) (id : Nat) (reason : ReleaseReason)
    (W' : World) (returned deferred : Nat) : Prop where
  active : (W.book.orders id).active = true
  units : returned + deferred = (W.book.orders id).askUnits
  either : returned = 0 ∨ deferred = 0
  stretch : Stretch D q W W'
    (W.book.account.alter id (W.book.orders id).close deferred
      (W.book.totalLockedPayment - (W.book.orders id).lockedPayment)) (T \ {id})
    (less (held D W.core) (W.book.orders id) returned) 0 (W.book.orders id).lockedPayment
    (releaseEvents id (W.book.orders id) reason returned deferred)

section

variable {D : Deployment} {q : Prop} {R : Receivers D q} {W W' : World} {T : Set Nat} {id : Nat}
  {reason : ReleaseReason}

/-- A release keeps the invariant. -/
theorem Released.inv {returned deferred : Nat} (h : Inv D q W T)
    (hr : Released D q W T id reason W' returned deferred) : Inv D q W' (T \ {id}) := by
  refine ⟨hr.stretch.grounded, hr.stretch.indexed, ?_⟩
  have hsound := h.custody.order id
  have hpend : W.book.account.pendingShares id = 0 := by
    by_contra hp
    have := (hsound.deferred hp).2
    rw [show (W.book.account.orders id).active = true from hr.active] at this
    cases this
  have hlocked := h.custody.locked_le id
  have hunits := hr.units
  have hask : deferred ≠ 0 → (W.book.orders id).side = .ask := by
    intro hd
    unfold Order.askUnits at hunits
    cases hs : (W.book.orders id).side with
    | bid => rw [hs] at hunits; simp only at hunits; omega
    | ask => rfl
  have hescrow := h.custody.escrowed_le id
  rw [hpend, show W.book.account.orders id = W.book.orders id from rfl, Order.active_escrowed hr.active] at hescrow
  rw [hr.stretch.account]
  refine h.custody.alter hr.stretch.flow (h.custody.created hr.active) rfl rfl ?_ (fun x hx => ?_) ?_ ?_ fun m j => ?_
  · rw [show (id ∈ T \ {id}) = False from eq_false fun hx => hx.2 rfl]
    exact Order.close_sound _ hask
  · exact ⟨fun hm => hm.1, fun hm => ⟨hm, hx⟩⟩
  · exact Nat.sub_add_cancel hlocked
  · exact Nat.sub_add_cancel hlocked
  · rw [hpend]
    have hchange := Order.escrowed_change (o := W.book.orders id) 0 deferred (held D W.core)
      (held D W.core (W.book.orders id).vault (W.book.orders id).outcomeId - returned)
      (show (W.book.orders id).close.vault = _ from rfl)
        rfl (by rw [Order.active_escrowed hr.active, Order.close_escrowed]; omega) rfl
    exact hchange m j

/-- The order out of the books and closed. -/
theorem detach (h : Inv D q W T) (id : Nat) :
    ∃ b, W.book.remove id = .ok b ∧
      (b.setOrder id (W.book.orders id).close).account = W.book.account.setOrder id (W.book.orders id).close ∧
      (b.setOrder id (W.book.orders id).close).Indexed (T \ {id}) := by
  obtain ⟨b, hb, hre, hi⟩ := Book.remove_spec h.indexed id
  refine ⟨b, hb, ?_, ?_⟩
  · show b.account.setOrder id _ = _
    rw [hre.account]
  · have hchange : (b.setOrder id (W.book.orders id).close).Indexed (insert id T) :=
      hi.change ⟨rfl, rfl, rfl, rfl, rfl, rfl⟩ fun x hx =>
        ⟨Function.update_of_ne (fun e : x = id => hx (e ▸ Set.mem_insert _ _)) _ _, rfl⟩
    have hdrop := hchange.drop id (by
      rw [show (b.setOrder id (W.book.orders id).close).orders id = (W.book.orders id).close from
        Function.update_self _ _ _]
      rintro ⟨hx, _⟩
      cases hx)
    rwa [Set.insert_sdiff_of_mem _ (Set.mem_singleton id)] at hdrop

/-- A bid is paid back, unless the token refuses. -/
theorem returnPayment_ends {o : Order} (hg : Grounded D W.core) (hi : W.book.Indexed T)
    (ho : o.owner ≠ D.marketplace) (hl : o.lockedPayment ≤ W.book.totalLockedPayment)
    (hc : W.book.totalLockedPayment ≤ W.core.token.balanceOf D.marketplace) :
    Ends (returnPayment D W o o.lockedPayment)
      (fun W' => Stretch D q W W' (W.book.account.setTotal (W.book.totalLockedPayment - o.lockedPayment)) T
        (held D W.core) 0 o.lockedPayment [])
      fun e => e = .ERC20Refused ∧ o.lockedPayment ≠ 0 ∧
        W.core.token.refuses D.marketplace o.owner o.lockedPayment = true := by
  unfold returnPayment
  refine Ends.checkedSub hl ?_
  have hset : Book.Indexed { W.book with totalLockedPayment := W.book.totalLockedPayment - o.lockedPayment } T :=
    hi.change ⟨rfl, rfl, rfl, rfl, rfl, rfl⟩ fun _ _ => ⟨rfl, rfl⟩
  simp only
  split
  · rename_i hz
    refine (safeTransfer_ends (q := q)
      (W := { W with book := { W.book with totalLockedPayment := W.book.totalLockedPayment - o.lockedPayment } })
      hg hset ho).mono (fun W' hW => ?_) fun e he => ⟨he.1, hz, ?_⟩
    · exact hW.2.since rfl
    · exact he.2.resolve_right (by simp only; omega)
  · rename_i hz
    rw [not_not.mp hz]
    exact Ends.ok ⟨rfl, hi, hg, .refl _⟩

/-- The shares of an ask are returned or deferred. -/
theorem returnShares_ends {o : Order} (hg : Grounded D W.core) (hi : W.book.Indexed T)
    (ho : o.owner ≠ D.marketplace) (hu : o.remainingUnits ≤ held D W.core o.vault o.outcomeId)
    (hp : W.book.pendingShares id = 0) :
    Ends (returnShares D R W id o o.remainingUnits)
      (fun x => ∃ deferred, x.2 + deferred = o.remainingUnits ∧ (x.2 = 0 ∨ deferred = 0) ∧
        Stretch D q W x.1 (W.book.account.setPending id deferred) T
          (less (held D W.core) o x.2) 0 0
          (if deferred = 0 then [] else [.OrderSharesDeferred id o.owner deferred]))
      fun _ => False := by
  have hsame : W.book.account.setPending id 0 = W.book.account := Account.setPending_self hp
  unfold returnShares
  split
  · rename_i hz
    refine Ends.revertIf (fun hlt => absurd hu (not_le.mpr hlt)) fun _ => ?_
    have hends := transferEscrowedShares_ends (R := R) o.vault o.owner o.outcomeId o.remainingUnits hg hi ho
    cases ht : transferEscrowedShares D R W D.marketplace o.vault o.owner o.outcomeId o.remainingUnits with
    | ok W₁ =>
      have h₁ := hends.of_ok ht
      refine Ends.ok ⟨0, rfl, .inr rfl, ?_⟩
      rw [hsame]
      exact h₁.2
    | error e =>
      refine Ends.ok ⟨o.remainingUnits, Nat.zero_add _, .inl rfl, ?_⟩
      rw [if_neg hz, less_zero]
      have hset : Book.Indexed
          { W.book with pendingShares := Function.update W.book.pendingShares id o.remainingUnits } T :=
        hi.change ⟨rfl, rfl, rfl, rfl, rfl, rfl⟩ fun _ _ => ⟨rfl, rfl⟩
      refine Stretch.since (stretch_emit (e := .OrderSharesDeferred id o.owner o.remainingUnits) (W := { W with book :=
        { W.book with pendingShares := Function.update W.book.pendingShares id o.remainingUnits } }) hg hset rfl) rfl
  · rename_i hz
    have hz : o.remainingUnits = 0 := not_not.mp hz
    refine Ends.ok ⟨0, rfl, .inr rfl, ?_⟩
    rw [hsame, hz, less_zero]
    exact ⟨rfl, hi, hg, .refl _⟩

/-- What an order held goes back to its owner, but for shares that are deferred. -/
theorem giveBack_ends (id : Nat) {o : Order} (hg : Grounded D W.core) (hi : W.book.Indexed T)
    (ho : o.owner ≠ D.marketplace)
    (hl : o.lockedPayment ≤ W.book.totalLockedPayment)
    (hc : W.book.totalLockedPayment ≤ W.core.token.balanceOf D.marketplace) (hp : W.book.pendingShares id = 0)
    (hask : o.side = .ask → o.lockedPayment = 0 ∧ o.remainingUnits ≤ held D W.core o.vault o.outcomeId) :
    Ends (giveBack D R W id o)
      (fun x => ∃ deferred, x.2 + deferred = o.askUnits ∧ (x.2 = 0 ∨ deferred = 0) ∧
        Stretch D q W x.1
          ((W.book.account.setPending id deferred).setTotal (W.book.totalLockedPayment - o.lockedPayment)) T
          (less (held D W.core) o x.2) 0 o.lockedPayment
          (if deferred = 0 then [] else [.OrderSharesDeferred id o.owner deferred]))
      fun e => e = .ERC20Refused ∧ o.side = .bid ∧ o.lockedPayment ≠ 0 ∧
        W.core.token.refuses D.marketplace o.owner o.lockedPayment = true := by
  unfold giveBack Order.askUnits
  cases hs : o.side with
  | bid =>
    have hsame : W.book.account.setPending id 0 = W.book.account := Account.setPending_self hp
    refine Ends.bind ((returnPayment_ends (q := q) hg hi ho hl hc).mono (fun _ h => h) fun e he => ?_) fun W₁ _ h₁ =>
      Ends.ok ⟨0, rfl, .inl rfl, ?_⟩
    · exact ⟨he.1, rfl, he.2⟩
    · rw [hsame, less_zero]
      exact h₁
  | ask =>
    obtain ⟨hz, hu⟩ := hask hs
    refine (returnShares_ends hg hi ho hu hp).mono (fun x hx => ?_) fun _ he => he.elim
    rw [hz]
    exact hx

/-- The release of an active order succeeds, unless the payment token refuses to pay a bid back. -/
theorem release_ends (h : Inv D q W T) (ha : (W.book.orders id).active = true) :
    Ends (release D R W id reason) (fun W' => ∃ returned deferred, Released D q W T id reason W' returned deferred)
      fun e => e = .ERC20Refused ∧ (W.book.orders id).side = .bid ∧ (W.book.orders id).lockedPayment ≠ 0 ∧
        W.core.token.refuses D.marketplace (W.book.orders id).owner (W.book.orders id).lockedPayment = true := by
  obtain ⟨b, hb, hacc, hi⟩ := detach h id
  have hsound := h.custody.order id
  have htotal : b.totalLockedPayment = W.book.totalLockedPayment := congrArg Account.totalLockedPayment hacc
  have hpending : b.pendingShares = W.book.pendingShares := congrArg Account.pendingShares hacc
  have hpend : W.book.pendingShares id = 0 := by
    by_contra hp
    have := (hsound.deferred hp).2
    rw [show (W.book.account.orders id).active = true from ha] at this
    cases this
  unfold release
  simp only
  rw [revertIf_neg _ (by simp [ha]), ok_bind, hb, ok_bind]
  have hback := giveBack_ends (R := R) id (o := W.book.orders id) (W :=
    { W with book := b.setOrder id (W.book.orders id).close }) h.grounded hi (h.custody.owner_ne ha)
    (by show _ ≤ b.totalLockedPayment; rw [htotal]; exact h.custody.locked_le id)
    (by show b.totalLockedPayment ≤ _; rw [htotal]; exact h.custody.cash)
    (by show b.pendingShares id = 0; rw [hpending]; exact hpend)
    (fun hs => ⟨hsound.ask hs, h.custody.ask_le hs ha⟩)
  refine Ends.bind hback fun x _ hx => ?_
  obtain ⟨deferred, hsum, heither, hstr⟩ := hx
  refine Ends.ok ⟨x.2, deferred, ha, hsum, heither, ?_⟩
  have hall := ((stretch_book (q := q) h.grounded hi).trans hstr).trans
    (stretch_emit (e := .OrderReleased id (W.book.orders id).owner reason x.2 (W.book.orders id).lockedPayment)
      hstr.grounded hstr.indexed rfl)
  rw [hstr.flow.held] at hall
  have haccount : x.1.book.account = W.book.account.alter id (W.book.orders id).close deferred
      (W.book.totalLockedPayment - (W.book.orders id).lockedPayment) := by
    rw [hstr.account]
    show ((b.setOrder id (W.book.orders id).close).account.setPending id deferred).setTotal
      (b.totalLockedPayment - (W.book.orders id).lockedPayment) = _
    rw [hacc, htotal]
    rfl
  rw [haccount] at hall
  simpa [releaseEvents] using hall

end

end World

end Cpredict
