import Cpredict.Book.Entry

/-!
# The invariant over whole runs

A call to the orderbook creates an order or is a sequence of deals (`exec_ends`), each of which keeps the invariant
(`Deal.inv`). So the invariant holds in every state that a run reaches (`Reachable.inv`), and no call ends with an
underflow.
-/

namespace Cpredict

open Outcome Reach

namespace World

open Core (Grounded)

/-- What the calls on existing orders are made of, and what others do meanwhile. -/
inductive Deal (D : Deployment) (q : Prop) (W : World) : World → Prop
  | aside (W' : World) : Aside D q W W' → Deal D q W W'
  | withdrawn (caller : Address) (id : Nat) (recipient : Address) (W' : World) :
    Withdrawn D q W caller id recipient W' → Deal D q W W'
  | released (id : Nat) (reason : ReleaseReason) (returned deferred : Nat) (W' : World) :
    Released D q W ∅ id reason W' returned deferred → Deal D q W W'
  | filled (caller : Address) (id desiredUnits minUnits units gross : Nat) (W' : World) :
    Filled D q W caller id desiredUnits minUnits units gross W' → Deal D q W W'
  | paired (market : Address) (outcomeId bidId askId : Nat) (W' : World) :
    Paired D q W market outcomeId bidId askId W' → Deal D q W W'

/-- What a call does: it creates one order, or deals with those that there are. -/
inductive Done (D : Deployment) (q : Prop) (W : World) : World → Prop
  | placed (caller : Address) (o : Order) (W' : World) : D.outside caller = true → caller ≠ D.marketplace →
    Placed D q W caller o W' → Done D q W W'
  | dealt (W' : World) : Run (Deal D q) W W' → Done D q W W'
  | waited (seconds : Nat) : Done D q W { W with core := { W.core with now := W.core.now + seconds } }

section

variable {D : Deployment} {q : Prop} {R : Receivers D q} {W W' : World} {caller market : Address}
  {outcomeId groupUnits : Nat}

theorem Released.inv_empty {id : Nat} {reason : ReleaseReason} {returned deferred : Nat} (h : Inv D q W ∅)
    (hr : Released D q W ∅ id reason W' returned deferred) : Inv D q W' ∅ := by
  have hinv := hr.inv h
  rwa [Set.empty_sdiff] at hinv

theorem Inv.tick {T : Set Nat} (h : Inv D q W T) (seconds : Nat) :
    Inv D q { W with core := { W.core with now := W.core.now + seconds } } T where
  grounded := ⟨Core.tick_sound h.grounded.sound seconds,
    ⟨h.grounded.reserved.approvals, h.grounded.reserved.allowance, h.grounded.reserved.blank⟩⟩
  indexed := h.indexed
  custody := h.custody.keep (fun _ hm => hm) rfl le_rfl fun _ => rfl

/-- Every deal keeps the invariant. -/
theorem Deal.inv (h : Inv D q W ∅) (hd : Deal D q W W') : Inv D q W' ∅ := by
  cases hd with
  | aside _ ha => exact ha.inv h
  | withdrawn _ _ _ _ hw => exact hw.inv h
  | released _ _ _ _ _ hr => exact hr.inv_empty h
  | filled _ _ _ _ _ _ _ hf => exact hf.inv h
  | paired _ _ _ _ _ hp => exact hp.inv h

theorem deals_inv (h : Inv D q W ∅) (hd : Run (Deal D q) W W') : Inv D q W' ∅ := by
  induction hd with
  | refl => exact h
  | tail _ hd ih => exact hd.inv ih

theorem Done.inv (h : Inv D q W ∅) (hd : Done D q W W') : Inv D q W' ∅ := by
  cases hd with
  | placed _ _ _ ho hne hp => exact hp.inv h ⟨ho, hne⟩
  | dealt _ hr => exact deals_inv h hr
  | waited seconds => exact h.tick seconds

/-- A step of `_matchOrders` is at most one deal. -/
theorem Turned.deals {turn : Turn} (ht : Turned D q W market outcomeId groupUnits turn W') :
    Run (Deal D q) W W' := by
  cases ht with
  | stopped => exact .refl
  | stale id reason returned deferred _ _ hr => exact .single (.released id reason returned deferred _ hr)
  | selfCross _ _ returned deferred _ _ _ _ hr => exact .single (.released _ _ returned deferred _ hr)
  | rejected _ _ returned deferred _ _ _ _ hr => exact .single (.released _ _ returned deferred _ hr)
  | filled bidId askId _ _ _ _ _ hp => exact .single (.paired market outcomeId bidId askId _ hp)

/-- The loop of `_matchOrders`, from any number of fills on. -/
theorem matchLoop_ends (market : Address) (outcomeId groupUnits : Nat) :
    ∀ (steps : Nat) (W : World) (fills : Nat), Inv D q W ∅ →
      Ends (matchLoop D R market outcomeId groupUnits steps W fills) (fun x => Run (Deal D q) W x.1) Plain
  | 0, W, fills, _ => Ends.ok .refl
  | steps + 1, W, fills, h => by
    unfold matchLoop
    refine Ends.bind (matchStep_ends (R := R) h market outcomeId groupUnits) fun x _ ht => ?_
    obtain ⟨turn, W₁⟩ := x
    have hdeals : Run (Deal D q) W W₁ := ht.deals
    cases turn with
    | stopped => exact Ends.ok hdeals
    | released id =>
      exact (matchLoop_ends market outcomeId groupUnits steps W₁ fills (ht.inv h)).mono (fun _ h => hdeals.trans h)
        fun _ h => h
    | filled bidId askId units price =>
      exact (matchLoop_ends market outcomeId groupUnits steps W₁ (fills + 1) (ht.inv h)).mono
        (fun _ h => hdeals.trans h) fun _ h => h

/-- `_matchOrders` never underflows, and never ends with `WholeOrderRequired`. -/
theorem matchGroup_ends (h : Inv D q W ∅) (market : Address) (outcomeId groupUnits maxSteps : Nat) :
    Ends (matchGroup D R W market outcomeId groupUnits maxSteps) (fun x => Run (Deal D q) W x.1) Plain := by
  unfold matchGroup unpaused
  exact Ends.revertIf (fun _ => plain_of rfl) fun _ => Ends.revertIf (fun _ => plain_of rfl) fun _ =>
    matchLoop_ends market outcomeId groupUnits maxSteps W 0 h

theorem release_deals {id : Nat} (h : Inv D q W ∅) (reason : ReleaseReason) :
    Ends (release D R W id reason) (fun W' => Run (Deal D q) W W') Plain := by
  by_cases ha : (W.book.orders id).active = true
  · refine (release_plain h ha reason).mono (fun W' hrel => ?_) fun _ h => h
    obtain ⟨returned, deferred, hr⟩ := hrel
    exact .single (.released id reason returned deferred W' hr)
  · unfold release
    simp only
    rw [revertIf_pos _ (by simpa using ha)]
    exact Ends.error (plain_of rfl)

/-- A call to the orderbook creates an order or deals with others, or it reverts in an orderly way. -/
theorem exec_ends (h : Inv D q W ∅) (c : BookCall) :
    Ends (exec D R W caller c) (Done D q W) Orderly := by
  unfold exec
  refine Ends.revertIf (fun _ => (plain_of rfl).1) fun hc => ?_
  obtain ⟨hout, hne⟩ := not_or.mp hc
  have hout : D.outside caller = true := by simpa using hout
  have plain : ∀ e, Plain e → Orderly e := fun _ he => he.1
  cases c with
  | createOrder market outcomeId side units unitPrice expiresAt autoMatch =>
    exact (createOrder_ends h hne).mono (fun W' ⟨o, hp⟩ => .placed caller o W' hout hne hp) plain
  | fillOrder id desiredUnits minUnits paymentLimit deadline =>
    exact Ends.bind (fillOrder_ends h hne) fun x _ hf =>
      Ends.ok (.dealt x.1 (.single (.filled caller id desiredUnits minUnits x.2.1 x.2.2 x.1 hf)))
  | matchOrders market outcomeId maxSteps =>
    exact Ends.bind ((matchGroup_ends h market outcomeId 0 maxSteps).mono (fun _ h => h) plain) fun x _ hd =>
      Ends.ok (.dealt x.1 hd)
  | matchOrdersForUnits market outcomeId units maxSteps =>
    refine Ends.bind (P := fun x => Run (Deal D q) W x.1) ?_ fun x _ hd => Ends.ok (.dealt x.1 hd)
    exact Ends.revertIf (fun _ => (plain_of rfl).1) fun _ =>
      (matchGroup_ends h market outcomeId units maxSteps).mono (fun _ h => h) plain
  | cancelOrder id =>
    exact Ends.revertIf (fun _ => (plain_of rfl).1) fun _ => (release_deals h _).mono (fun W' hd => .dealt W' hd) plain
  | releaseOrder id =>
    exact Ends.revertIf (fun _ => (plain_of rfl).1) fun _ => (release_deals h _).mono (fun W' hd => .dealt W' hd) plain
  | withdrawOrderShares id recipient =>
    exact (withdrawOrderShares_ends h).mono
      (fun W' hw => .dealt W' (.single (.withdrawn caller id recipient W' hw))) plain
  | transferEscrowedShares market recipient outcomeId units =>
    exact Ends.revertIf (fun _ => (plain_of rfl).1) fun hself => absurd hne hself

theorem Step.done (h : Inv D q W ∅) (hs : Step D q W W') : Done D q W W' := by
  cases hs with
  | call R _ _ caller c hx => exact (exec_ends h c).of_ok hx
  | outside _ _ ho => exact .dealt _ (.single (.aside _ (ho.aside h.grounded)))
  | tick _ seconds => exact .waited seconds

/-- A blank orderbook has the invariant. -/
theorem genesis_inv (h : Genesis D q W) : Inv D q W ∅ := by
  have hvaults := h.core.vaults
  refine ⟨⟨Core.genesis_sound h.core, fun m s => ?_, h.allowance, fun m _ => hvaults m⟩, ?_, ?_⟩
  · rw [hvaults m]
    rfl
  · rw [h.book]
    have hlisted : ∀ id, ¬Book.deployed.Listed ∅ id := fun id hl => by cases hl.1
    exact ⟨.empty (fun _ => rfl) (fun x _ hx => hlisted x hx.1) fun _ => rfl,
      .empty (fun _ => rfl) (fun x _ hx => hlisted x hx.1) fun _ => rfl,
      .empty (fun _ => rfl) (fun x _ hx => hlisted x hx.1) fun _ => rfl⟩
  · rw [h.book]
    refine ⟨Nat.one_pos, fun _ _ => ⟨rfl, rfl, id⟩, fun id h0 hn => ?_, fun _ => Order.blank_sound, rfl, rfl,
      Nat.zero_le _, h.cash, fun m j => ?_⟩
    · have : id < 1 := hn
      omega
    · show (W.core.vaults m).shares.balanceOf j D.marketplace = _
      rw [hvaults m]
      exact (Order.escrowed_blank m j).symm

/-- The invariant holds in every state that a run reaches. -/
theorem Reachable.inv (h : Reachable D q W) : Inv D q W ∅ :=
  Reach.Reachable.invariant (I := fun W => Inv D q W ∅) (fun _ h₀ => genesis_inv h₀)
    (fun _ _ _ h hs => (Step.done h hs).inv h) h

end

end World

end Cpredict
