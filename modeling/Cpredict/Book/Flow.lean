import Cpredict.Book.Apart
import Cpredict.Book.Index
import Cpredict.Core.Solvency

/-!
# Stretches of a call to the orderbook

`Grounded` is what holds of the core at every point of a call, `Flow` how a stretch of a call changes what the
orderbook has: its shares, its payment tokens and the log of orders. The stretches in which others have control change
nothing of the orderbook's (`Aside`). For each function that moves tokens or shares there is one lemma: its flow, and
which errors it can end with.
-/

namespace Cpredict

open Outcome Balances Tally

namespace Core

/-- What a call keeps of the markets. -/
structure Calm (w w' : Core) : Prop where
  now : w'.now = w.now
  market : ∀ m, w.factory.isMarket m = true → w'.factory.isMarket m = true
  init : ∀ m, w.factory.isMarket m = true → (w'.vaults m).init = (w.vaults m).init
  terminal : ∀ m, w.factory.isMarket m = true → (w.vaults m).isTerminal = true → (w'.vaults m).isTerminal = true

/-- What holds of the core at every point of a call to the orderbook. -/
structure Grounded (D : Deployment) (w : Core) : Prop where
  sound : Sound D w
  reserved : Reserved D w

section

variable {D : Deployment} {q : Prop} {w w₁ w' : Core} {market source target : Address} {amount : Nat}

theorem Calm.refl (w : Core) : Calm w w := ⟨rfl, fun _ h => h, fun _ _ => rfl, fun _ _ h => h⟩

theorem Calm.trans (h : Calm w w₁) (h' : Calm w₁ w') : Calm w w' where
  now := h'.now.trans h.now
  market := fun m hm => h'.market m (h.market m hm)
  init := fun m hm => (h'.init m (h.market m hm)).trans (h.init m hm)
  terminal := fun m hm ht => h'.terminal m (h.market m hm) (h.terminal m hm ht)

theorem Calm.of_same (hn : w'.now = w.now) (hv : w'.vaults = w.vaults)
    (hf : w'.factory.isMarket = w.factory.isMarket) : Calm w w' :=
  ⟨hn, fun m hm => by rw [hf]; exact hm, fun m _ => by rw [hv], fun m _ ht => by rw [hv]; exact ht⟩

theorem Calm.of_kept (h : Kept w w') : Calm w w' := .of_same h.now h.vaults (by rw [h.factory])

/-- A step of a vault keeps its parameters, and its end. -/
theorem calm_vault {v' : Vault} {now : Nat} {e : Option VaultEvent} {p : Option Payment}
    (hs : VaultStep D market now (w.vaults market) v' e p) (hv : w'.vaults = Function.update w.vaults market v')
    (hf : w'.factory = w.factory) (hn : w'.now = w.now) : Calm w w' := by
  refine ⟨hn, fun m hm => by rw [hf]; exact hm, fun m _ => ?_, fun m _ ht => ?_⟩
  · by_cases hm : m = market
    · subst hm; rw [hv, Function.update_self, hs.frame.init]
    · rw [hv, Function.update_of_ne hm]
  · by_cases hm : m = market
    · subst hm
      rw [hv, Function.update_self]
      simp only [Vault.isTerminal, decide_eq_true_eq] at ht ⊢
      rcases hs.frame.outcome with ⟨hsame, _⟩ | ⟨ho, _⟩
      · rw [hsame.marketState]; exact ht
      · exact absurd ho ht
    · rw [hv, Function.update_of_ne hm]; exact ht

theorem Effect.calm (h : Effect D w w') : Calm w w' := by
  cases h with
  | other _ hv hf _ ht _ => exact .of_same ht.now hv hf
  | vault _ _ _ _ _ hs hv hf _ ht _ _ => exact calm_vault hs hv hf ht.now
  | credit _ _ hv hf _ _ _ _ _ _ ht => exact .of_same ht.now hv (by rw [hf])
  | fund _ _ _ _ _ _ _ hs _ hv hf _ ht => exact calm_vault hs hv hf ht.now
  | claim _ _ _ hv hf _ _ ht => exact .of_same ht.now hv (by rw [hf])
  | create _ market _ _ _ _ _ hnew _ _ _ _ hv hf _ _ _ ht _ =>
    have hne : ∀ m, w.factory.isMarket m = true → m ≠ market := by
      rintro m hm rfl
      rw [hnew] at hm
      cases hm
    refine ⟨ht.now, fun m hm => ?_, fun m hm => ?_, fun m hm h => ?_⟩
    · rw [hf, Function.update_of_ne (hne m hm)]; exact hm
    · rw [hv, Function.update_of_ne (hne m hm)]
    · rw [hv, Function.update_of_ne (hne m hm)]; exact h

/-- Addresses without a market stay blank. -/
theorem Effect.blank (h : Effect D w w') (hb : ∀ m, w.factory.isMarket m = false → w.vaults m = Vault.blank) :
    ∀ m, w'.factory.isMarket m = false → w'.vaults m = Vault.blank := by
  intro m hm
  cases h with
  | other _ hv hf _ _ _ => rw [hv]; exact hb m (by rw [← hf]; exact hm)
  | vault market _ _ _ hmk _ hv hf _ _ _ _ =>
    rw [hf] at hm
    have hne : m ≠ market := by rintro rfl; rw [hmk] at hm; cases hm
    rw [hv, Function.update_of_ne hne]
    exact hb m hm
  | credit _ _ hv hf _ _ _ _ _ _ _ => rw [hv]; exact hb m (by rw [← hf]; exact hm)
  | fund market _ _ _ hmk _ _ _ _ hv hf _ _ =>
    rw [hf] at hm
    have hne : m ≠ market := by rintro rfl; rw [hmk] at hm; cases hm
    rw [hv, Function.update_of_ne hne]
    exact hb m hm
  | claim _ _ _ hv hf _ _ _ => rw [hv]; exact hb m (by rw [← hf]; exact hm)
  | create _ market _ _ _ _ _ _ _ _ _ _ hv hf _ _ _ _ _ =>
    by_cases hne : m = market
    · subst hne; rw [hf, Function.update_self] at hm; cases hm
    · rw [hv, Function.update_of_ne hne]
      exact hb m (by rw [hf, Function.update_of_ne hne] at hm; exact hm)

/-- An effect after which the orderbook still approves nobody. -/
theorem Grounded.next (h : Grounded D w) (he : Effect D w w') (hw : Wired D w')
    (happ : ∀ m, (w'.vaults m).shares.isApprovedForAll D.marketplace =
      (w.vaults m).shares.isApprovedForAll D.marketplace)
    (hal : ∀ s, w'.token.allowance D.marketplace s ≤ w.token.allowance D.marketplace s) : Grounded D w' :=
  ⟨he.sound h.sound hw, fun m s => by rw [happ]; exact h.reserved.approvals m s,
    fun s => Nat.le_zero.mp (h.reserved.allowance s ▸ hal s), he.blank h.reserved.blank⟩

/-- A call of another account. -/
theorem Grounded.exec {caller : Address} {c : CoreCall} (h : Grounded D w) (hne : caller ≠ D.marketplace)
    (hx : exec D w caller (World.answered D c) = .ok w') : Calm w w' ∧ Apart D w w' ∧ Grounded D w' := by
  obtain ⟨heff, hw⟩ := exec_effect h.sound.wired h.sound.minimum hx
  have hap := exec_apart h.sound.wired h.reserved hne hx
  exact ⟨heff.calm, hap, h.next heff hw hap.approvals hap.allowance⟩

/-! ## Flows -/

/-- How a stretch of a call changes what the orderbook has: it is left with the shares `s`, gets and pays out amounts
of the payment token, and logs the events `es` of orders. -/
structure Flow (D : Deployment) (q : Prop) (w w' : Core) (s : Address → Nat → Nat) (got paid : Nat)
    (es : List BookEvent) : Prop where
  calm : Calm w w'
  held : held D w' = s
  cash : w.token.balanceOf D.marketplace + got ≤ w'.token.balanceOf D.marketplace + paid
  exact : q → w'.token.balanceOf D.marketplace + paid = w.token.balanceOf D.marketplace + got
  orders : orderLog w'.log = orderLog w.log ++ es

namespace Flow

variable {s s' : Address → Nat → Nat} {got got' paid paid' : Nat} {es es' : List BookEvent}

theorem refl (w : Core) : Flow D q w w (Core.held D w) 0 0 [] :=
  ⟨.refl w, rfl, le_rfl, fun _ => rfl, (List.append_nil _).symm⟩

theorem trans (h : Flow D q w w₁ s got paid es) (h' : Flow D q w₁ w' s' got' paid' es') :
    Flow D q w w' s' (got + got') (paid + paid') (es ++ es') where
  calm := h.calm.trans h'.calm
  held := h'.held
  cash := by have := h.cash; have := h'.cash; omega
  exact := fun hc => by have := h.exact hc; have := h'.exact hc; omega
  orders := by rw [h'.orders, h.orders, List.append_assoc]

/-- A stretch that leaves the orderbook alone. -/
theorem of_apart (hc : Calm w w') (ha : Apart D w w')
    (he : q → w'.token.balanceOf D.marketplace = w.token.balanceOf D.marketplace) :
    Flow D q w w' (Core.held D w) 0 0 [] :=
  ⟨hc, ha.held, ha.cash, he, by rw [ha.orders, List.append_nil]⟩

end Flow

/-- The log of an event about an order. -/
theorem flow_emit {e : BookEvent} (h : (Event.book e).order = some e) :
    Flow D q w (w.emit (.book e)) (held D w) 0 0 [e] := by
  refine ⟨.of_kept ⟨rfl, rfl, rfl, rfl⟩, rfl, le_rfl, fun _ => rfl, ?_⟩
  simp [orderLog, emit, h]

theorem Grounded.emit (h : Grounded D w) (e : BookEvent) : Grounded D (w.emit (.book e)) :=
  h.next (.other [] rfl rfl rfl (trace_emit ⟨rfl, rfl⟩) fun _ _ _ _ => rfl) (h.sound.wired.emit _) (fun _ => rfl)
    fun _ => le_rfl

/-- A payment by the orderbook to somebody else. -/
theorem flow_pay (h : Grounded D w) (ht : target ≠ D.marketplace) (hp : w.pay D.marketplace target amount = .ok w') :
    Flow D q w w' (held D w) 0 amount [] ∧ Grounded D w' := by
  obtain ⟨hle, rfl⟩ := pay_eq_ok hp
  have hout : ∀ a, D.outside a = false → tally (Payment.sent a) [⟨D.marketplace, target, amount⟩] = 0 := fun a ha => by
    simp [Payment.sent, (ne_marketplace ha).symm]
  have hfee : D.marketplace ≠ D.feeVault := (ne_marketplace D.feeVault_inside).symm
  refine ⟨⟨.of_kept (kept_pay hp), rfl, ?_, fun _ => ?_, by simp [orderLog, Event.order]⟩, ?_⟩
  · simp only [move_from _ _ ht.symm]; omega
  · simp only [move_from _ _ ht.symm]; omega
  · exact h.next (other_effect (kept_pay hp) (trace_pay hp) fun a ha => hout a ha) (h.sound.wired.pay hfee hp)
      (fun _ => rfl) fun _ => le_rfl

/-- A payment to the orderbook on its allowance. -/
theorem flow_payFrom (h : Grounded D w) (hs : source ≠ D.marketplace)
    (hp : w.payFrom D.marketplace source D.marketplace amount = .ok w') :
    Flow D q w w' (held D w) amount 0 [] ∧ Grounded D w' := by
  have heff : Effect D w w' ∧ Wired D w' := by
    refine ⟨other_effect (kept_payFrom hp) (trace_payFrom hp) fun a ha => ?_, h.sound.wired.payFrom hp⟩
    by_cases hsa : source = a
    · have hz := h.sound.wired.allowance_zero (hsa ▸ ha) hp
      simp [Payment.sent, hz]
    · simp [Payment.sent, hsa]
  have hap := Apart.payFrom h.reserved.allowance hp
  have hb : w'.token.balanceOf D.marketplace = w.token.balanceOf D.marketplace + amount := by
    obtain ⟨t, ht, rfl⟩ := payFrom_eq_ok hp
    obtain ⟨_, _, hb, _⟩ := Token.transferFrom_eq_ok ht
    simp only [hb, move_to _ _ hs]
  exact ⟨⟨heff.1.calm, hap.held, by omega, fun _ => by omega, by rw [hap.orders, List.append_nil]⟩,
    h.next heff.1 heff.2 hap.approvals hap.allowance⟩

theorem flow_accrue {beneficiary : Address} {kind : FeeKind} {ref : FeeReference} (h : Grounded D w)
    (ha : w.accrue D D.marketplace beneficiary amount kind ref = .ok w') :
    Flow D q w w' (held D w) 0 0 [] ∧ Grounded D w' := by
  obtain ⟨hk, ht⟩ := kept_accrue ha
  have hap : Apart D w w' := .accrue ha
  have hb : w'.token = w.token := by
    obtain ⟨f, es, _, _, rfl⟩ := accrue_eq_ok ha
    rfl
  exact ⟨.of_apart (.of_kept hk) hap fun _ => by rw [hb],
    h.next (other_effect hk ht fun _ _ => rfl) (h.sound.wired.accrue ha) hap.approvals hap.allowance⟩

/-- Shares of one outcome have gone from `source` to `target`, and the log tells it. -/
structure Handed (w : Core) (operator market source target : Address) (id value : Nat) (w' : Core) : Prop where
  moved : (w'.vaults market).shares.balanceOf id =
    move ((w.vaults market).shares.balanceOf id) source target value
  logged : w'.log = w.log ++ [⟨w.now, .vault market (.TransferSingle operator source target id value)⟩]

theorem moveShares_handed {operator : Address} {id value : Nat}
    (hm : w.moveShares operator market source target id value = .ok w') :
    Handed w operator market source target id value w' := by
  simp only [moveShares, bind_eq_ok, Except.ok.injEq] at hm
  obtain ⟨_, _, s, hs, rfl⟩ := hm
  obtain ⟨_, _, _, rfl⟩ := Shares.safeTransferFrom_eq_ok hs
  exact ⟨by simp [emit, setVault, Shares.setBalances], rfl⟩

/-- Shares moved by the orderbook, whoever has them. -/
theorem flow_moveShares {id value : Nat} (h : Grounded D w)
    (hm : w.moveShares D.marketplace market source target id value = .ok w') :
    Flow D q w w' (update₂ (held D w) market id
        (move ((w.vaults market).shares.balanceOf id) source target value D.marketplace)) 0 0 [] ∧
      Grounded D w' ∧ value ≤ (w.vaults market).shares.balanceOf id source := by
  have heff := moveShares_effect h.sound.wired hm
  simp only [moveShares, bind_eq_ok, Except.ok.injEq] at hm
  obtain ⟨_, _, s, hs, rfl⟩ := hm
  obtain ⟨_, _, hle, rfl⟩ := Shares.safeTransferFrom_eq_ok hs
  refine ⟨⟨heff.1.calm, ?_, le_rfl, fun _ => rfl, by simp [orderLog, emit, setVault, Event.order]⟩,
    h.next heff.1 heff.2 (fun m => ?_) fun _ => le_rfl, hle⟩
  · funext m o
    by_cases hmk : m = market
    · subst hmk
      by_cases ho : o = id
      · subst ho
        simp [held, update₂, emit, setVault, Shares.setBalances]
      · simp [held, update₂, emit, setVault, Shares.setBalances, ho]
    · simp [held, update₂, emit, setVault, hmk]
  · by_cases hmk : m = market
    · subst hmk; simp [emit, setVault, Shares.setBalances]
    · simp [emit, setVault, hmk]

end

end Core

/-! ## Stretches -/

/-- No function of the orderbook may end with an underflow or a wrong array access, or because the fee vault does not
accrue what was paid in. -/
def Orderly (e : Err) : Prop := e ≠ .Panic ∧ e.ofAccrue = false

/-- And `_matchOrders` may not end with the refusal to split an order. -/
def Plain (e : Err) : Prop := Orderly e ∧ e ≠ .WholeOrderRequired

def Err.isPlain : Err → Bool
  | .Panic => false
  | .WholeOrderRequired => false
  | e => !e.ofAccrue

theorem plain_of {e : Err} (h : e.isPlain = true) : Plain e := by
  refine ⟨⟨?_, ?_⟩, ?_⟩
  · rintro rfl
    cases h
  · cases e <;> simp_all [Err.isPlain, Err.ofAccrue]
  · rintro rfl
    cases h

namespace World

open Core (Grounded held Flow)

/-- A stretch of a call: the account after it, which orders the heaps lack, and how the core flows. -/
structure Stretch (D : Deployment) (q : Prop) (W W' : World) (a : Account) (T : Set Nat) (s : Address → Nat → Nat)
    (got paid : Nat) (es : List BookEvent) : Prop where
  account : W'.book.account = a
  indexed : W'.book.Indexed T
  grounded : Grounded D W'.core
  flow : Flow D q W.core W'.core s got paid es

/-- What happens while others have control. -/
structure Aside (D : Deployment) (q : Prop) (W W' : World) : Prop where
  book : ∃ d, W'.book = { W.book with defaultAllowPartialFills := d }
  grounded : Grounded D W'.core
  flow : Flow D q W.core W'.core (held D W.core) 0 0 []

section

variable {D : Deployment} {q : Prop} {R : Receivers D q} {W W₁ W' : World} {T : Set Nat}
  {source target market : Address} {amount id value : Nat}

theorem Stretch.trans {a a' : Account} {T' : Set Nat} {s s' : Address → Nat → Nat} {got got' paid paid' : Nat}
    {es es' : List BookEvent} (h : Stretch D q W W₁ a T s got paid es)
    (h' : Stretch D q W₁ W' a' T' s' got' paid' es') :
    Stretch D q W W' a' T' s' (got + got') (paid + paid') (es ++ es') :=
  ⟨h'.account, h'.indexed, h'.grounded, h.flow.trans h'.flow⟩

/-- Where a stretch starts, only the core matters. -/
theorem Stretch.since {a : Account} {s : Address → Nat → Nat} {got paid : Nat} {es : List BookEvent}
    (h : Stretch D q W₁ W' a T s got paid es) (hc : W₁.core = W.core) : Stretch D q W W' a T s got paid es :=
  ⟨h.account, h.indexed, h.grounded, hc ▸ h.flow⟩

/-- A change of the orderbook's own storage. -/
theorem stretch_book {b : Book} (hg : Grounded D W.core) (hi : b.Indexed T) :
    Stretch D q W { W with book := b } b.account T (held D W.core) 0 0 [] :=
  ⟨rfl, hi, hg, .refl _⟩

theorem stretch_emit {e : BookEvent} (hg : Grounded D W.core) (hi : W.book.Indexed T)
    (h : (Event.book e).order = some e) :
    Stretch D q W (W.emit e) W.book.account T (held D W.core) 0 0 [e] :=
  ⟨rfl, hi, hg.emit e, Core.flow_emit h⟩

theorem Aside.stretch (h : Aside D q W W') (hi : W.book.Indexed T) :
    Stretch D q W W' W.book.account T (held D W.core) 0 0 [] := by
  obtain ⟨d, hb⟩ := h.book
  refine ⟨by rw [hb]; rfl, ?_, h.grounded, h.flow⟩
  rw [hb]
  exact hi.change ⟨rfl, rfl, rfl, rfl, rfl, rfl⟩ fun _ _ => ⟨rfl, rfl⟩

theorem Aside.refl (hg : Grounded D W.core) : Aside D q W W := ⟨⟨_, rfl⟩, hg, .refl _⟩

theorem Aside.trans (h : Aside D q W W₁) (h' : Aside D q W₁ W') : Aside D q W W' := by
  obtain ⟨d, hd⟩ := h.book
  obtain ⟨d', hd'⟩ := h'.book
  refine ⟨⟨d', by rw [hd', hd]⟩, h'.grounded, ?_⟩
  have hf := h.flow.trans h'.flow
  rwa [h.flow.held] at hf

theorem Outside.aside (hg : Grounded D W.core) (h : Outside D q W W') : Aside D q W W' := by
  cases h with
  | core w caller c hne hx hc =>
    obtain ⟨hcalm, hap, hg'⟩ := hg.exec hne hx
    exact ⟨⟨_, rfl⟩, hg', .of_apart hcalm hap hc⟩
  | setDefault _ caller allowed hs =>
    simp only [setDefaultAllowPartialFills, bind_eq_ok, Except.ok.injEq] at hs
    obtain ⟨_, _, rfl⟩ := hs
    refine ⟨⟨allowed, rfl⟩, hg.emit _, .of_apart (.of_same rfl rfl rfl) (.emit rfl) fun _ => rfl⟩

/-- Others have control for any number of calls. -/
theorem run_aside (hg : Grounded D W.core) (h : Reach.Run (Outside D q) W W') : Aside D q W W' := by
  induction h with
  | refl => exact .refl hg
  | tail _ hs ih => exact ih.trans (hs.aside ih.grounded)

/-! ## Payments -/

theorem safeTransfer_ends (hg : Grounded D W.core) (hi : W.book.Indexed T) (ht : target ≠ D.marketplace) :
    Ends (W.safeTransfer D target amount)
      (fun W' => W'.book = W.book ∧ Stretch D q W W' W.book.account T (held D W.core) 0 amount [])
      fun e => e = .ERC20Refused ∧
        (W.core.token.refuses D.marketplace target amount = true ∨ W.core.token.balanceOf D.marketplace < amount) := by
  unfold safeTransfer
  cases hp : W.core.pay D.marketplace target amount with
  | ok w =>
    obtain ⟨hf, hg'⟩ := Core.flow_pay (q := q) hg ht hp
    exact ⟨rfl, rfl, hi, hg', hf⟩
  | error e =>
    refine Ends.error ?_
    simp only [Core.pay, Token.transfer] at hp
    by_cases h₁ : W.core.token.refuses D.marketplace target amount = true
    · rw [revertIf_pos _ h₁] at hp; cases hp; exact ⟨rfl, .inl h₁⟩
    · rw [revertIf_neg _ h₁] at hp
      by_cases h₂ : W.core.token.balanceOf D.marketplace < amount
      · rw [ok_bind, revertIf_pos _ h₂] at hp; cases hp; exact ⟨rfl, .inr h₂⟩
      · rw [ok_bind, revertIf_neg _ h₂] at hp; cases hp

theorem pull_ends (hg : Grounded D W.core) (hi : W.book.Indexed T) (hs : source ≠ D.marketplace) :
    Ends (W.pull D source amount)
      (fun W' => W'.book = W.book ∧ Stretch D q W W' W.book.account T (held D W.core) amount 0 []) Plain := by
  unfold pull
  refine Ends.step (fun e he => ?_) fun w hp => ?_
  · rw [Core.payFrom_error he]
    exact plain_of rfl
  · obtain ⟨hf, hg'⟩ := Core.flow_payFrom (q := q) hg hs hp
    have hcash := hf.cash
    refine Ends.checkedSub (by omega) (Ends.revertIf (fun _ => plain_of rfl) fun _ => Ends.ok ?_)
    exact ⟨rfl, rfl, hi, hg', hf⟩

/-- The fees are accrued once they are paid. -/
theorem payFees_ends {f : Fees} {orderId : Nat} (hg : Grounded D W.core) (hi : W.book.Indexed T)
    (hm : W.core.factory.isMarket market = true) :
    Ends (payFees D W market f orderId)
      (fun W' => W'.book = W.book ∧
        Stretch D q W W' W.book.account T (held D W.core) 0 (f.platform + f.creator) []) Plain := by
  unfold payFees
  split
  · refine Ends.bind ((safeTransfer_ends (q := q) hg hi (Core.ne_marketplace D.feeVault_inside)).mono (fun _ h => h)
      fun e he => ?_) fun W₁ hp ⟨hb, h₁⟩ => ?_
    · rw [he.1]; exact plain_of rfl
    · obtain ⟨w₁, hpay, hW⟩ := bind_eq_ok.mp hp
      cases hW
      obtain ⟨_, hw₁⟩ := Core.pay_eq_ok hpay
      have hconf := (hg.sound.markets market hm).1.configured
      have hfee : D.marketplace ≠ D.feeVault := (Core.ne_marketplace D.feeVault_inside).symm
      obtain ⟨w₂, w₃, ha₂, ha₃, _, hv₂, _⟩ := Core.accrue_paid (D := D) w₁ .platformC2C .creatorC2C
        (.order orderId) (.order orderId) hg.sound.wired hg.sound.wired.marketplaceAccrues hconf.economics.treasury
        hconf.treasury (by rw [hw₁]) (by rw [hw₁]; exact move_to _ _ hfee)
      have hv₁ : w₁.vaults = W.core.vaults := by rw [hw₁]
      rw [hv₁, ha₂, ok_bind, hv₂, hv₁, ha₃, ok_bind]
      obtain ⟨hf₂, hg₂⟩ := Core.flow_accrue (q := q) h₁.grounded ha₂
      obtain ⟨hf₃, hg₃⟩ := Core.flow_accrue (q := q) hg₂ ha₃
      have hflow := (h₁.flow.trans hf₂).trans hf₃
      rw [hf₂.held, h₁.flow.held] at hflow
      exact Ends.ok ⟨hb, h₁.account, h₁.indexed, hg₃, hflow⟩
  · rename_i hz
    have hz : f.platform + f.creator = 0 := by omega
    rw [hz]
    exact Ends.ok ⟨rfl, rfl, hi, hg, .refl _⟩

/-- `_pay` pays out the whole price. -/
theorem pay_ends {seller : Address} {gross orderId : Nat} {f : Fees} (hg : Grounded D W.core) (hi : W.book.Indexed T)
    (hs : seller ≠ D.marketplace) (hm : W.core.factory.isMarket market = true) (hf : f.platform + f.creator ≤ gross) :
    Ends (pay D W market seller gross f orderId)
      (fun W' => W'.book = W.book ∧ Stretch D q W W' W.book.account T (held D W.core) 0 gross []) Plain := by
  unfold pay
  refine Ends.checkedSub (by omega) (Ends.checkedSub (by omega) ?_)
  refine Ends.bind ((safeTransfer_ends (q := q) hg hi hs).mono (fun _ h => h) fun e he => ?_) fun W₁ _ ⟨hb, h₁⟩ => ?_
  · rw [he.1]; exact plain_of rfl
  · refine (payFees_ends (q := q) h₁.grounded h₁.indexed (h₁.flow.calm.market market hm)).mono (fun W₂ h₂ => ?_)
      fun _ h => h
    obtain ⟨hb₂, h₂⟩ := h₂
    have h := h₁.trans h₂
    rw [h₁.flow.held, h₁.account] at h
    have hsum : gross - f.platform - f.creator + (f.platform + f.creator) = gross := by omega
    rw [hsum] at h
    exact ⟨hb₂.trans hb, h⟩

/-! ## Deliveries -/

/-- A receiver other than the orderbook accepts, after calls of its own, or rejects. -/
theorem deliver_ends {d : Delivery} (hg : Grounded D W.core) (ht : d.target ≠ D.marketplace) :
    Ends (deliver D R W d) (fun W' => R.answer W d = some W' ∧ Aside D q W W') Plain := by
  unfold deliver
  rw [if_neg ht]
  refine Ends.revertIf (fun _ => plain_of rfl) fun _ => ?_
  cases ha : R.answer W d with
  | none => exact Ends.error (plain_of rfl)
  | some W' => exact Ends.ok ⟨rfl, run_aside hg (R.lawful _ _ _ ha)⟩

theorem moveShares_plain {w : Core} {e : Err}
    (h : w.moveShares D.marketplace market source target id value = .error e) : Plain e := by
  have hends : Ends (w.moveShares D.marketplace market source target id value) (fun _ => True) Plain := by
    unfold Core.moveShares Core.requireMarket Shares.safeTransferFrom Shares.checkTransfer Shares.moveOne
    refine Ends.revertIf (fun _ => plain_of rfl) fun _ => ?_
    refine Ends.bind (P := fun _ => True) ?_ fun _ _ _ => Ends.ok trivial
    refine Ends.bind (P := fun _ => True) ?_ fun _ _ _ => Ends.revertIf (fun _ => plain_of rfl) fun _ => Ends.ok trivial
    refine Ends.revertIf (fun _ => plain_of rfl) fun _ => Ends.revertIf (fun _ => plain_of rfl) fun _ =>
      Ends.guard (fun _ => plain_of rfl) fun _ => trivial
  exact hends.of_error h

/-- Shares sent to somebody else. -/
theorem safeTransferFrom_ends {data : Option Nat} (hg : Grounded D W.core) (hi : W.book.Indexed T)
    (ht : target ≠ D.marketplace) :
    Ends (safeTransferFrom D R W market source target id value data)
      (fun W' => value ≤ (W.core.vaults market).shares.balanceOf id source ∧
        Stretch D q W W' W.book.account T (update₂ (held D W.core) market id
          (move ((W.core.vaults market).shares.balanceOf id) source target value D.marketplace)) 0 0 []) Plain := by
  unfold safeTransferFrom
  refine Ends.step (fun e he => moveShares_plain he) fun w hm => ?_
  obtain ⟨hf, hg', hle⟩ := Core.flow_moveShares (q := q) hg hm
  refine (deliver_ends (W := { W with core := w }) hg' ht).mono (fun W' h => ⟨hle, ?_⟩) fun _ h => h
  have haside := h.2.stretch hi
  have hfirst : Stretch D q W { W with core := w } W.book.account T _ 0 0 [] := ⟨rfl, hi, hg', hf⟩
  have hall := hfirst.trans haside
  rw [hf.held] at hall
  exact hall

/-- Shares sent from the escrow. -/
theorem transferEscrowedShares_ends (market recipient : Address) (outcomeId units : Nat) (hg : Grounded D W.core)
    (hi : W.book.Indexed T) (ht : recipient ≠ D.marketplace) :
    Ends (transferEscrowedShares D R W D.marketplace market recipient outcomeId units)
      (fun W' => units ≤ held D W.core market outcomeId ∧
        Stretch D q W W' W.book.account T
          (update₂ (held D W.core) market outcomeId (held D W.core market outcomeId - units)) 0 0 []) Plain := by
  unfold transferEscrowedShares
  rw [revertIf_neg _ (by simp), ok_bind]
  refine (safeTransferFrom_ends hg hi ht).mono (fun W' h => ?_) fun _ h => h
  rw [move_from _ _ ht.symm] at h
  exact h

/-- Shares sent by somebody else to somebody else. -/
theorem safeTransferFrom_past {data : Option Nat} (hg : Grounded D W.core) (hi : W.book.Indexed T)
    (hs : source ≠ D.marketplace) (ht : target ≠ D.marketplace) :
    Ends (safeTransferFrom D R W market source target id value data)
      (fun W' => Stretch D q W W' W.book.account T (held D W.core) 0 0 []) Plain := by
  refine (safeTransferFrom_ends hg hi ht).mono (fun W' h => ?_) fun _ h => h
  rw [move_of_ne _ _ hs.symm ht.symm] at h
  have hself : update₂ (held D W.core) market id ((W.core.vaults market).shares.balanceOf id D.marketplace) =
      held D W.core := update₂_eq_self _ _ _
  rw [hself] at h
  exact h.2

/-- Shares sent to the orderbook, which accepts the receipt that it expects. -/
theorem safeTransferFrom_receipt {orderId : Nat} (hg : Grounded D W.core) (hi : W.book.Indexed T)
    (hs : source ≠ D.marketplace) :
    Ends (safeTransferFrom D R W market source D.marketplace id value (some orderId))
      (fun W' => W'.book = W.book ∧ Stretch D q W W' W.book.account T
        (update₂ (held D W.core) market id (held D W.core market id + value)) 0 0 []) Plain := by
  unfold safeTransferFrom
  refine Ends.step (fun e he => moveShares_plain he) fun w hm => ?_
  obtain ⟨hf, hg', hle⟩ := Core.flow_moveShares (q := q) hg hm
  rw [move_to _ _ hs] at hf
  unfold deliver
  rw [if_pos rfl]
  exact Ends.revertIf (fun _ => plain_of rfl) fun _ => Ends.ok ⟨rfl, rfl, hi, hg', hf⟩

end

end World

end Cpredict
