import Cpredict.Book.Flow
import Cpredict.Core.Transfers
import Cpredict.FixedPrice.Payment

/-!
# The marketplaces and the books of the core

Both marketplaces move tokens and shares through the core and accrue fees with the fee vault. At every point of
their calls, whatever receivers do in between, the core is in order: it is sound, the books of its custodians are
right and the log tells every balance of shares (`InOrder`). One lemma for each of their functions, and from them
every state that their runs reach.
-/

namespace Cpredict

open Outcome Balances Tally

/-- The contracts of the protocol. Its factory is wired to one marketplace, once. -/
def Deployment.contracts (D : Deployment) : Set Address := insert D.marketplace D.inside

namespace Core

/-- The core is sound, the books of its custodians are right and the log tells the balances of shares. -/
structure InOrder (D : Deployment) (S : Set Address) (w : Core) : Prop where
  sound : Sound D w
  booked : Booked D S w
  ledgered : Ledgered w

/-- What holds at every point of a call to a marketplace. -/
abbrev Whole (D : Deployment) (w : Core) : Prop := InOrder D D.contracts w

namespace InOrder

variable {D : Deployment} {S : Set Address} {w w₁ w₂ w' : Core} {market source target spender : Address}
  {amount : Nat}

theorem exec {caller : Address} {c : CoreCall} (h : InOrder D S w) (hs : caller ∉ S)
    (hx : Core.exec D w caller c = .ok w') : InOrder D S w' := by
  obtain ⟨heff, hw⟩ := exec_effect h.sound.wired h.sound.minimum hx
  exact ⟨heff.sound h.sound hw, exec_booked h.sound hs h.booked hx, exec_ledgered h.ledgered hx⟩

/-- Without what the log tells of deposits. -/
theorem forget (h : InOrder D S w) : InOrder D ∅ w :=
  ⟨h.sound, ⟨h.booked.credits, h.booked.accrued, deposited_empty D _, h.booked.reported⟩, h.ledgered⟩

/-- A call by none of the contracts. -/
theorem exec_outside {caller : Address} {c : CoreCall} (h : Whole D w) (hne : caller ≠ D.marketplace)
    (hx : Core.exec D w caller c = .ok w') : Whole D w' :=
  h.exec (fun hs => hs.elim hne (Core.exec_outside hx)) hx

theorem emit {e : Event} (h : InOrder D S w) (hq : Quiet e) (ho : e.OffBooks D) (hs : e.shareMoves = []) :
    InOrder D S (w.emit e) :=
  ⟨Effect.sound h.sound (h.sound.wired.emit e) (.other [] rfl rfl rfl (trace_emit hq) fun _ _ _ _ => rfl),
    (Aloof.emit ho).booked h.booked, (Moves.emit hs).ledgered h.ledgered⟩

/-- A payment by one of the marketplaces. -/
theorem pay (h : InOrder D S w) (hp : w.pay D.marketplace target amount = .ok w') : InOrder D S w' := by
  have hfee : D.marketplace ≠ D.feeVault := (ne_marketplace D.feeVault_inside).symm
  have heff : Effect D w w' := other_effect (kept_pay hp) (trace_pay hp) fun a ha => by
    simp [Payment.sent, (ne_marketplace ha).symm]
  exact ⟨heff.sound h.sound (h.sound.wired.pay hfee hp), (Aloof.pay hfee hp).booked h.booked,
    (Moves.pay hp).ledgered h.ledgered⟩

theorem payFrom (h : InOrder D S w) (hp : w.payFrom spender source target amount = .ok w') : InOrder D S w' := by
  have heff : Effect D w w' := other_effect (kept_payFrom hp) (trace_payFrom hp) fun a ha => by
    by_cases hs : source = a
    · have hz := h.sound.wired.allowance_zero (hs ▸ ha) hp
      simp [Payment.sent, hz]
    · simp [Payment.sent, hs]
  exact ⟨heff.sound h.sound (h.sound.wired.payFrom hp), (Aloof.payFrom h.sound.wired hp).booked h.booked,
    (Moves.payFrom hp).ledgered h.ledgered⟩

theorem accrue_sound {sender beneficiary : Address} {kind : FeeKind} {ref : FeeReference} (h : Sound D w)
    (ha : w.accrue D sender beneficiary amount kind ref = .ok w') : Sound D w' := by
  obtain ⟨hk, ht⟩ := kept_accrue ha
  have heff : Effect D w w' := other_effect hk ht fun _ _ => rfl
  exact heff.sound h (h.wired.accrue ha)

/-- The fees of a trade, in two parts. -/
theorem fees {sender : Address} {a b : Accrual} (h : InOrder D S w) (h₁ : InOrder D S w₁)
    (hd : Deposit D w (a.amount + b.amount) w₁)
    (ha : w₁.accrue D sender a.beneficiary a.amount a.kind a.reference = .ok w₂)
    (hb : w₂.accrue D sender b.beneficiary b.amount b.kind b.reference = .ok w') : InOrder D S w' :=
  ⟨accrue_sound (accrue_sound h₁.sound ha) hb, h.booked.fees hd ha hb,
    (Moves.accrue hb).ledgered ((Moves.accrue ha).ledgered h₁.ledgered)⟩

theorem moveShares {caller : Address} {id value : Nat} (h : InOrder D S w)
    (hm : Core.moveShares w caller market source target id value = .ok w') : InOrder D S w' := by
  obtain ⟨heff, hw⟩ := moveShares_effect h.sound.wired hm
  exact ⟨heff.sound h.sound hw, (moveShares_aloof hm).booked h.booked, (moveShares_moves hm).ledgered h.ledgered⟩

end InOrder

theorem genesis_inOrder {D : Deployment} {S : Set Address} {w : Core} (h : Genesis D w) : InOrder D S w :=
  ⟨genesis_sound h, genesis_booked h, genesis_ledgered h⟩

theorem tick_inOrder {D : Deployment} {S : Set Address} {w : Core} (h : InOrder D S w) (seconds : Nat) :
    InOrder D S { w with now := w.now + seconds } :=
  ⟨tick_sound h.sound seconds, tick_booked h.booked seconds, tick_ledgered h.ledgered seconds⟩

end Core

/-! ## The orderbook -/

namespace World

open Core (InOrder Whole)

section

variable {D : Deployment} {q : Prop} {R : Receivers D q} {W W' : World} {caller source target market seller : Address}
  {id amount : Nat} {o : Order}

theorem inOrder_emit {e : BookEvent} (h : Whole D W.core) : Whole D (W.emit e).core :=
  h.emit ⟨rfl, rfl⟩ (fun _ => ⟨rfl, rfl⟩) rfl

theorem Outside.inOrder (h : Whole D W.core) (hs : Outside D q W W') : Whole D W'.core := by
  cases hs with
  | core w caller c hne hx _ => exact h.exec_outside hne hx
  | setDefault _ caller allowed hs =>
    simp only [setDefaultAllowPartialFills, bind_eq_ok, Except.ok.injEq] at hs
    obtain ⟨_, _, rfl⟩ := hs
    exact inOrder_emit h

theorem run_inOrder (h : Whole D W.core) (hr : Reach.Run (Outside D q) W W') : Whole D W'.core := by
  induction hr with
  | refl => exact h
  | tail _ hs ih => exact hs.inOrder ih

theorem safeTransfer_inOrder (h : Whole D W.core) (hx : W.safeTransfer D target amount = .ok W') :
    Whole D W'.core := by
  obtain ⟨w, hp, hx⟩ := bind_eq_ok.mp hx
  cases hx
  exact h.pay hp

theorem pull_inOrder (h : Whole D W.core) (hx : W.pull D source amount = .ok W') : Whole D W'.core := by
  obtain ⟨w, hp, hx⟩ := bind_eq_ok.mp hx
  obtain ⟨_, _, hx⟩ := bind_eq_ok.mp hx
  obtain ⟨_, _, hx⟩ := bind_eq_ok.mp hx
  cases hx
  exact h.payFrom hp

theorem deliver_inOrder {d : Delivery} (h : Whole D W.core) (hx : W.deliver D R d = .ok W') : Whole D W'.core := by
  unfold deliver at hx
  split at hx
  · obtain ⟨_, _, hx⟩ := bind_eq_ok.mp hx
    cases hx
    exact h
  · obtain ⟨_, _, hx⟩ := bind_eq_ok.mp hx
    split at hx
    · rename_i W₁ ha
      cases hx
      exact run_inOrder h (R.lawful _ _ _ ha)
    · cases hx

theorem safeTransferFrom_inOrder {outcomeId units : Nat} {data : Option Nat} (h : Whole D W.core)
    (hx : W.safeTransferFrom D R market source target outcomeId units data = .ok W') : Whole D W'.core := by
  obtain ⟨w, hm, hx⟩ := bind_eq_ok.mp hx
  exact deliver_inOrder (W := { W with core := w }) (h.moveShares hm) hx

theorem transferEscrowedShares_inOrder {outcomeId units : Nat} (h : Whole D W.core)
    (hx : W.transferEscrowedShares D R caller market target outcomeId units = .ok W') : Whole D W'.core := by
  obtain ⟨_, _, hx⟩ := bind_eq_ok.mp hx
  exact safeTransferFrom_inOrder h hx

theorem payFees_inOrder {f : Fees} (h : Whole D W.core) (hx : W.payFees D market f id = .ok W') :
    Whole D W'.core := by
  unfold payFees at hx
  split at hx
  · obtain ⟨W₁, hp, hx⟩ := bind_eq_ok.mp hx
    obtain ⟨w₁, h₁, hx⟩ := bind_eq_ok.mp hx
    obtain ⟨w₂, h₂, hx⟩ := bind_eq_ok.mp hx
    cases hx
    have hpaid := safeTransfer_inOrder h hp
    obtain ⟨v, hv, hp⟩ := bind_eq_ok.mp hp
    cases hp
    have hfee : D.marketplace ≠ D.feeVault := (Core.ne_marketplace D.feeVault_inside).symm
    exact InOrder.fees (a := ⟨_, _, _, _⟩) (b := ⟨_, _, _, _⟩) h hpaid (.pay hfee hv) h₁ h₂
  · cases hx; exact h

theorem pay_inOrder {gross : Nat} {f : Fees} (h : Whole D W.core) (hx : W.pay D market seller gross f id = .ok W') :
    Whole D W'.core := by
  obtain ⟨_, _, hx⟩ := bind_eq_ok.mp hx
  obtain ⟨_, _, hx⟩ := bind_eq_ok.mp hx
  obtain ⟨W₁, hp, hx⟩ := bind_eq_ok.mp hx
  exact payFees_inOrder (safeTransfer_inOrder h hp) hx

/-! ### Releases -/

theorem returnPayment_inOrder {payment : Nat} (h : Whole D W.core) (hx : W.returnPayment D o payment = .ok W') :
    Whole D W'.core := by
  obtain ⟨_, _, hx⟩ := bind_eq_ok.mp hx
  split at hx
  · exact safeTransfer_inOrder (by exact h) hx
  · cases hx; exact h

theorem returnShares_inOrder {units returned : Nat} (h : Whole D W.core)
    (hx : W.returnShares D R id o units = .ok (W', returned)) : Whole D W'.core := by
  unfold returnShares at hx
  split at hx
  · obtain ⟨_, _, hx⟩ := bind_eq_ok.mp hx
    split at hx
    · rename_i W₁ ht
      cases hx
      exact transferEscrowedShares_inOrder h ht
    · cases hx
      exact inOrder_emit (by exact h)
  · cases hx; exact h

theorem giveBack_inOrder {returned : Nat} (h : Whole D W.core) (hx : W.giveBack D R id o = .ok (W', returned)) :
    Whole D W'.core := by
  unfold giveBack at hx
  split at hx
  · obtain ⟨W₁, hp, hx⟩ := bind_eq_ok.mp hx
    cases hx
    exact returnPayment_inOrder h hp
  · exact returnShares_inOrder h hx

theorem release_inOrder {reason : ReleaseReason} (h : Whole D W.core) (hx : W.release D R id reason = .ok W') :
    Whole D W'.core := by
  obtain ⟨_, _, hx⟩ := bind_eq_ok.mp hx
  obtain ⟨b, _, hx⟩ := bind_eq_ok.mp hx
  obtain ⟨⟨W₁, units⟩, hg, hx⟩ := bind_eq_ok.mp hx
  cases hx
  exact inOrder_emit (giveBack_inOrder (by exact h) hg)

theorem releaseStale_inOrder (h : Whole D W.core) (hx : W.releaseStale D R id = .ok W') : Whole D W'.core :=
  release_inOrder h hx

theorem returnExcess_inOrder (h : Whole D W.core) (hx : W.returnExcess D id = .ok W') : Whole D W'.core := by
  obtain ⟨_, _, hx⟩ := bind_eq_ok.mp hx
  obtain ⟨_, _, hx⟩ := bind_eq_ok.mp hx
  split at hx
  · obtain ⟨W₁, hp, hx⟩ := bind_eq_ok.mp hx
    cases hx
    exact inOrder_emit (safeTransfer_inOrder (by exact h) hp)
  · cases hx; exact h

theorem relist_core (W : World) (id : Nat) : (W.relist id).core = W.core := by
  unfold relist
  split <;> rfl

theorem finish_inOrder (h : Whole D W.core) (hx : W.finish D R id = .ok W') : Whole D W'.core := by
  have hrelist : ∀ {x : Except Err World}, (∀ V, x = .ok V → Whole D V.core) →
      (x >>= fun W => .ok (W.relist id)) = .ok W' → Whole D W'.core := by
    intro x hk hx
    obtain ⟨W₁, h₁, hx⟩ := bind_eq_ok.mp hx
    cases hx
    rw [relist_core]
    exact hk W₁ h₁
  unfold finish at hx
  by_cases hd : W.isDust id = true
  · rw [if_pos hd] at hx
    exact hrelist (fun _ => release_inOrder h) hx
  · rw [if_neg hd] at hx
    cases hs : (W.book.orders id).side with
    | bid => rw [hs] at hx; exact hrelist (fun _ => returnExcess_inOrder h) hx
    | ask =>
      rw [hs] at hx
      cases hx
      rw [relist_core]
      exact h

/-! ### Orders -/

theorem createOrder_inOrder {outcomeId expiresAt : Nat} {side : Side} {units unitPrice : Uint128} {autoMatch : Bool}
    (h : Whole D W.core)
    (hx : W.createOrder D R caller market outcomeId side units unitPrice expiresAt autoMatch = .ok W') :
    Whole D W'.core := by
  unfold createOrder at hx
  cases side with
  | bid =>
    obtain ⟨_, _, hx⟩ := bind_eq_ok.mp hx
    obtain ⟨W₁, h₁, hx⟩ := bind_eq_ok.mp hx
    cases hx
    exact inOrder_emit (inOrder_emit (pull_inOrder (by exact h) h₁))
  | ask =>
    obtain ⟨_, _, hx⟩ := bind_eq_ok.mp hx
    obtain ⟨W₁, h₁, hx⟩ := bind_eq_ok.mp hx
    obtain ⟨W₂, h₂, h₁⟩ := bind_eq_ok.mp h₁
    cases h₁
    cases hx
    have hmoved : Whole D W₂.core := safeTransferFrom_inOrder (by exact h) h₂
    exact inOrder_emit (inOrder_emit hmoved)

theorem exchange_inOrder {units gross : Nat} {f : Fees} (h : Whole D W.core)
    (hx : W.exchange D R caller id units gross f = .ok W') : Whole D W'.core := by
  unfold exchange at hx
  cases hs : (W.book.orders id).side with
  | bid =>
    simp only [hs] at hx
    obtain ⟨b, _, hx⟩ := bind_eq_ok.mp hx
    obtain ⟨W₁, h₁, hx⟩ := bind_eq_ok.mp hx
    cases h₁
    obtain ⟨W₂, h₂, hx⟩ := bind_eq_ok.mp hx
    exact safeTransferFrom_inOrder (pay_inOrder (W := { W with book := b }) (by exact h) h₂) hx
  | ask =>
    simp only [hs] at hx
    obtain ⟨W₁, h₁, hx⟩ := bind_eq_ok.mp hx
    obtain ⟨W₂, h₂, hx⟩ := bind_eq_ok.mp hx
    exact safeTransferFrom_inOrder (pay_inOrder (pull_inOrder h h₁) h₂) hx

theorem fillOrder_inOrder {desiredUnits minUnits paymentLimit deadline units gross : Nat} (h : Whole D W.core)
    (hx : W.fillOrder D R caller id desiredUnits minUnits paymentLimit deadline = .ok (W', units, gross)) :
    Whole D W'.core := by
  simp only [fillOrder, bind_eq_ok, Except.ok.injEq, Prod.mk.injEq] at hx
  obtain ⟨_, _, _, _, _, _, _, _, _, _, _, _, _, _, _, _, b, _, c, _, W₁, h₁, W₂, h₂, rfl, _, _⟩ := hx
  exact inOrder_emit (inOrder_emit (finish_inOrder (exchange_inOrder (by exact h) h₁) h₂))

/-! ### Matching -/

theorem settle_inOrder {outcomeId bidId askId makerId units price gross : Nat} {f : Fees} (h : Whole D W.core)
    (hx : W.settle D R market outcomeId bidId askId makerId units price gross f = .ok W') : Whole D W'.core := by
  simp only [settle, bind_eq_ok, Except.ok.injEq] at hx
  obtain ⟨_, _, _, _, _, _, _, _, b, _, W₁, h₁, W₂, h₂, W₃, h₃, rfl⟩ := hx
  have h₁' := pay_inOrder (by exact h) h₁
  exact inOrder_emit (inOrder_emit (inOrder_emit (inOrder_emit (finish_inOrder (finish_inOrder h₁' h₂) h₃))))

theorem matchPair_inOrder {outcomeId bidId askId : Nat} {turn : Turn} (h : Whole D W.core)
    (hx : W.matchPair D R market outcomeId bidId askId = .ok (turn, W')) : Whole D W'.core := by
  unfold matchPair at hx
  obtain ⟨_, _, hx⟩ := bind_eq_ok.mp hx
  generalize (if bidId < askId then bidId else askId) = makerId at hx
  by_cases hz : grossOf (min (W.book.orders bidId).remainingUnits (W.book.orders askId).remainingUnits)
      (W.book.orders makerId).unitPrice = 0
  · rw [if_pos hz] at hx
    cases hx
    exact h
  · rw [if_neg hz] at hx
    obtain ⟨_, _, hx⟩ := bind_eq_ok.mp hx
    split at hx
    · rename_i W₁ ht
      obtain ⟨W₂, hs, hx⟩ := bind_eq_ok.mp hx
      cases hx
      exact settle_inOrder (transferEscrowedShares_inOrder h ht) hs
    · obtain ⟨W₂, hr, hx⟩ := bind_eq_ok.mp hx
      cases hx
      exact release_inOrder h hr

theorem matchStep_inOrder {outcomeId groupUnits : Nat} {turn : Turn} (h : Whole D W.core)
    (hx : W.matchStep D R market outcomeId groupUnits = .ok (turn, W')) : Whole D W'.core := by
  have hrelease : ∀ {id : Nat} {x : Except Err World}, (∀ V, x = .ok V → Whole D V.core) →
      (x >>= fun W => .ok (Turn.released id, W)) = .ok (turn, W') → Whole D W'.core := by
    intro id x hr hx
    obtain ⟨W₁, h₁, hx⟩ := bind_eq_ok.mp hx
    cases hx
    exact hr _ h₁
  simp only [matchStep] at hx
  split at hx
  · exact hrelease (fun _ => releaseStale_inOrder h) hx
  · split at hx
    · exact hrelease (fun _ => releaseStale_inOrder h) hx
    · split at hx
      · cases hx; exact h
      · split at hx
        · cases hx; exact h
        · split at hx
          · exact hrelease (fun _ => release_inOrder h) hx
          · exact matchPair_inOrder h hx

theorem matchLoop_inOrder {outcomeId groupUnits : Nat} : ∀ {steps fills made : Nat} {W : World}, Whole D W.core →
    matchLoop D R market outcomeId groupUnits steps W fills = .ok (W', made) → Whole D W'.core
  | 0, _, _, _, h, hx => by cases hx; exact h
  | steps + 1, fills, made, W, h, hx => by
    obtain ⟨⟨turn, W₁⟩, h₁, hx⟩ := bind_eq_ok.mp hx
    have h₁' := matchStep_inOrder h h₁
    cases turn with
    | stopped => cases hx; exact h₁'
    | released => exact matchLoop_inOrder h₁' hx
    | filled => exact matchLoop_inOrder h₁' hx

theorem matchGroup_inOrder {outcomeId groupUnits maxSteps fills : Nat} (h : Whole D W.core)
    (hx : W.matchGroup D R market outcomeId groupUnits maxSteps = .ok (W', fills)) : Whole D W'.core := by
  obtain ⟨_, _, hx⟩ := bind_eq_ok.mp hx
  obtain ⟨_, _, hx⟩ := bind_eq_ok.mp hx
  exact matchLoop_inOrder h hx

/-! ### Runs -/

theorem exec_inOrder {c : BookCall} (h : Whole D W.core) (hx : exec D R W caller c = .ok W') : Whole D W'.core := by
  obtain ⟨_, _, hx⟩ := bind_eq_ok.mp hx
  cases c with
  | createOrder => exact createOrder_inOrder h hx
  | fillOrder =>
    obtain ⟨⟨W₁, _, _⟩, h₁, hx⟩ := bind_eq_ok.mp hx
    cases hx
    exact fillOrder_inOrder h h₁
  | matchOrders =>
    obtain ⟨⟨W₁, _⟩, h₁, hx⟩ := bind_eq_ok.mp hx
    cases hx
    exact matchGroup_inOrder h h₁
  | matchOrdersForUnits =>
    obtain ⟨⟨W₁, _⟩, h₁, hx⟩ := bind_eq_ok.mp hx
    cases hx
    obtain ⟨_, _, h₁⟩ := bind_eq_ok.mp h₁
    exact matchGroup_inOrder h h₁
  | cancelOrder =>
    obtain ⟨_, _, hx⟩ := bind_eq_ok.mp hx
    exact release_inOrder h hx
  | releaseOrder =>
    obtain ⟨_, _, hx⟩ := bind_eq_ok.mp hx
    exact releaseStale_inOrder h hx
  | withdrawOrderShares =>
    obtain ⟨_, _, hx⟩ := bind_eq_ok.mp hx
    obtain ⟨_, _, hx⟩ := bind_eq_ok.mp hx
    obtain ⟨W₁, h₁, hx⟩ := bind_eq_ok.mp hx
    cases hx
    exact inOrder_emit (safeTransferFrom_inOrder (by exact h) h₁)
  | transferEscrowedShares => exact transferEscrowedShares_inOrder h hx

theorem Step.inOrder (h : Whole D W.core) (hs : Step D q W W') : Whole D W'.core := by
  cases hs with
  | call R _ _ caller c hx => exact exec_inOrder h hx
  | outside _ _ ho => exact ho.inOrder h
  | tick _ seconds => exact Core.tick_inOrder h seconds

theorem Reachable.inOrder (h : Reachable D q W) : Whole D W.core :=
  Reach.Reachable.invariant (I := fun W => Whole D W.core) (fun _ h₀ => Core.genesis_inOrder h₀.core)
    (fun _ _ _ h hs => Step.inOrder h hs) h

end

end World

/-! ## The fixed-price marketplace -/

namespace FixedPrice

namespace State

open Core (InOrder Whole)

section

variable {D : Deployment} {R : Receivers D} {W W' : State} {w w' : Core} {caller source target market buyer : Address}
  {id : ListingId} {l : Listing} {a : FillAmounts}

theorem inOrder_emit {e : ListingEvent} (h : Whole D W.core) : Whole D (W.emit e).core :=
  h.emit ⟨rfl, rfl⟩ (fun _ => ⟨rfl, rfl⟩) rfl

theorem run_inOrder (h : Whole D W.core) (hr : Reach.Run (Outside D) W W') : Whole D W'.core := by
  induction hr with
  | refl => exact h
  | tail _ hs ih =>
    obtain ⟨w, caller, c, data, hne, hx⟩ := hs
    exact ih.exec_outside hne hx

theorem safeTransferFrom_inOrder {outcomeId units : Nat} {data : Option ListingId} (h : Whole D W.core)
    (hx : safeTransferFrom D R W market source target outcomeId units data = .ok W') : Whole D W'.core := by
  obtain ⟨w, hm, hx⟩ := bind_eq_ok.mp hx
  have h₁ := h.moveShares hm
  unfold deliver at hx
  split at hx
  · obtain ⟨_, _, hx⟩ := bind_eq_ok.mp hx
    cases hx
    exact h₁
  · obtain ⟨_, _, hx⟩ := bind_eq_ok.mp hx
    split at hx
    · rename_i W₁ ha
      cases hx
      exact run_inOrder (W := { W with core := w }) h₁ (R.lawful _ _ _ ha)
    · cases hx

theorem createListing_inOrder {vault : Address} {outcomeId amount unitPrice expiresAt : Nat} (h : Whole D W.core)
    (hx : createListing D R W caller vault outcomeId amount unitPrice expiresAt = .ok W') : Whole D W'.core := by
  obtain ⟨_, _, hx⟩ := bind_eq_ok.mp hx
  obtain ⟨_, _, hx⟩ := bind_eq_ok.mp hx
  obtain ⟨W₁, h₁, hx⟩ := bind_eq_ok.mp hx
  cases hx
  have hmoved : Whole D W₁.core := safeTransferFrom_inOrder (by exact h) h₁
  exact inOrder_emit hmoved

/-- The fees, whichever way they are paid in. -/
theorem fees_inOrder {x : Core → Except Err Core} (h : Whole D w)
    (hpaid : ∀ u, x w = .ok u → Whole D u ∧ Core.Deposit D w (a.platformFee + a.creatorFee) u)
    (hx : ((if a.platformFee + a.creatorFee ≠ 0 then x w else .ok w) >>= fun u => creditFees D u l id a) = .ok w') :
    Whole D w' := by
  obtain ⟨u, hu, hx⟩ := bind_eq_ok.mp hx
  unfold creditFees accrueFees at hx
  by_cases hf : a.platformFee + a.creatorFee ≠ 0
  · rw [if_pos hf] at hu hx
    obtain ⟨v, hv, hx⟩ := bind_eq_ok.mp hx
    obtain ⟨hu', hd⟩ := hpaid u hu
    exact InOrder.fees (a := ⟨_, _, _, _⟩) (b := ⟨_, _, _, _⟩) h hu' hd hv hx
  · rw [if_neg hf] at hu hx
    cases hu
    cases hx
    exact h

theorem payFrom_inOrder (h : Whole D w) (hx : payFrom D w buyer l id a = .ok w') :
    Whole D w' := by
  rw [payFrom_steps] at hx
  obtain ⟨v, hv, hx⟩ := bind_eq_ok.mp hx
  have h₁ : Whole D v := by
    split at hv
    · exact h.payFrom hv
    · cases hv; exact h
  exact fees_inOrder (x := fun v => v.pullExact D.marketplace buyer D.feeVault (a.platformFee + a.creatorFee)) h₁
    (fun u hu => ⟨h₁.payFrom (Core.pullExact_eq_ok hu).1, .pullExact h₁.sound.wired hu⟩) hx

theorem payHeld_inOrder (h : Whole D w) (hx : payHeld D w l id a = .ok w') :
    Whole D w' := by
  rw [payHeld_steps] at hx
  obtain ⟨v, hv, hx⟩ := bind_eq_ok.mp hx
  have h₁ : Whole D v := by
    split at hv
    · exact h.pay hv
    · cases hv; exact h
  have hfee : D.marketplace ≠ D.feeVault := (Core.ne_marketplace D.feeVault_inside).symm
  exact fees_inOrder (x := fun v => v.pay D.marketplace D.feeVault (a.platformFee + a.creatorFee)) h₁
    (fun u hu => ⟨h₁.pay hu, .pay hfee hu⟩) hx

theorem completeFill_inOrder {desiredUnits units gross : Nat} (h : Whole D W.core)
    (hx : completeFill D R W id buyer l desiredUnits a = .ok (W', units, gross)) : Whole D W'.core := by
  obtain ⟨W₁, h₁, hx⟩ := bind_eq_ok.mp hx
  cases hx
  exact inOrder_emit (safeTransferFrom_inOrder h h₁)

theorem fillListing_inOrder {desiredUnits minUnits maxGross deadline units gross : Nat} (h : Whole D W.core)
    (hx : fillListing D R W buyer id desiredUnits minUnits maxGross deadline = .ok (W', units, gross)) :
    Whole D W'.core := by
  obtain ⟨l, a, V, c, hV, hc, hx⟩ := fillListing_steps hx
  obtain ⟨hcore, -⟩ := prepareFill_quoted hV
  exact completeFill_inOrder (W := { V with core := c }) (payFrom_inOrder (by rw [hcore]; exact h) hc) hx

theorem fillListingWithPermit2_inOrder {desiredUnits minUnits maxGross deadline units gross : Nat} {permit : Permit}
    (h : Whole D W.core)
    (hx : fillListingWithPermit2 D R W id buyer desiredUnits minUnits maxGross deadline permit =
      .ok (W', units, gross)) :
    Whole D W'.core := by
  unfold fillListingWithPermit2 at hx
  obtain ⟨_, _, hx⟩ := bind_eq_ok.mp hx
  obtain ⟨_, _, hx⟩ := bind_eq_ok.mp hx
  obtain ⟨⟨V, l, a⟩, hV, hx⟩ := bind_eq_ok.mp hx
  obtain ⟨_, _, hx⟩ := bind_eq_ok.mp hx
  obtain ⟨_, _, hx⟩ := bind_eq_ok.mp hx
  obtain ⟨v, hv, hx⟩ := bind_eq_ok.mp hx
  obtain ⟨c, hc, hx⟩ := bind_eq_ok.mp hx
  obtain ⟨hcore, -⟩ := prepareFill_quoted hV
  obtain ⟨_, _, hv⟩ := bind_eq_ok.mp hv
  rw [hcore] at hv
  have hpaid := payHeld_inOrder (h.payFrom (Core.pullExact_eq_ok hv).1) hc
  exact completeFill_inOrder (W := { V with core := c }) hpaid hx

theorem returnListing_inOrder {event : Listing → ListingEvent} (h : Whole D W.core)
    (hx : returnListing D R W id event = .ok W') : Whole D W'.core := by
  obtain ⟨W₁, h₁, hx⟩ := bind_eq_ok.mp hx
  cases hx
  have hmoved : Whole D W₁.core := safeTransferFrom_inOrder (by exact h) h₁
  exact inOrder_emit hmoved

theorem exec_inOrder {c : Call} (h : Whole D W.core) (hx : exec D R W caller c = .ok W') : Whole D W'.core := by
  obtain ⟨_, _, hx⟩ := bind_eq_ok.mp hx
  cases c with
  | createListing => exact createListing_inOrder h hx
  | fillListing =>
    obtain ⟨⟨W₁, _, _⟩, h₁, hx⟩ := bind_eq_ok.mp hx
    cases hx
    exact fillListing_inOrder h h₁
  | fillListingWithPermit2 =>
    obtain ⟨_, _, hx⟩ := bind_eq_ok.mp hx
    obtain ⟨⟨W₁, _, _⟩, h₁, hx⟩ := bind_eq_ok.mp hx
    cases hx
    exact fillListingWithPermit2_inOrder h h₁
  | cancelListing =>
    obtain ⟨_, _, hx⟩ := bind_eq_ok.mp hx
    exact returnListing_inOrder h hx
  | returnTerminalListing =>
    obtain ⟨_, _, hx⟩ := bind_eq_ok.mp hx
    obtain ⟨_, _, hx⟩ := bind_eq_ok.mp hx
    exact returnListing_inOrder h hx

theorem Step.inOrder (h : Whole D W.core) (hs : Step D W W') : Whole D W'.core := by
  cases hs with
  | call R _ _ caller c hx => exact exec_inOrder h hx
  | outside _ _ ho => exact run_inOrder h (.single ho)
  | tick _ seconds => exact Core.tick_inOrder h seconds

theorem Reachable.inOrder (h : Reachable D W) : Whole D W.core :=
  Reach.Reachable.invariant (I := fun W => Whole D W.core) (fun _ h₀ => Core.genesis_inOrder h₀.core)
    (fun _ _ _ h hs => Step.inOrder h hs) h

end

end State

end FixedPrice

end Cpredict
