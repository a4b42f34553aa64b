import Cpredict.Book.Flow
import Cpredict.FixedPrice.Payment

/-!
# The custody of listed shares

What a call to the fixed-price marketplace changes is one listing, and with it the shares that the marketplace has
(`Change`). While others have control, in the call of a receiver or between two calls, neither changes (`Aside`). From
the inversion of the calls (`exec_change`) follow the custody invariant (`Inv`) and what happens to a listing over its
life (`Later`).
-/

namespace Cpredict

open Outcome Balances Tally Finset

namespace Core

section

variable {D : Deployment} {w w' : Core} {market source target spender : Address} {amount : Nat}

/-- A payment by the marketplace, whoever gets it. -/
theorem Grounded.pay (h : Grounded D w) (hp : w.pay D.marketplace target amount = .ok w') :
    Grounded D w' ∧ Kept w w' := by
  have hfee : D.marketplace ≠ D.feeVault := (ne_marketplace D.feeVault_inside).symm
  have hout : ∀ a, D.outside a = false → tally (Payment.sent a) [⟨D.marketplace, target, amount⟩] = 0 := fun a ha => by
    simp [Payment.sent, (ne_marketplace ha).symm]
  have heff := other_effect (kept_pay hp) (trace_pay hp) hout
  refine ⟨h.next heff (h.sound.wired.pay hfee hp) (fun m => ?_) fun s => ?_, kept_pay hp⟩
  · rw [(kept_pay hp).vaults]
  · obtain ⟨_, rfl⟩ := pay_eq_ok hp
    exact le_rfl

/-- A payment on an allowance, between any two. -/
theorem Grounded.payFrom (h : Grounded D w) (hp : w.payFrom spender source target amount = .ok w') :
    Grounded D w' ∧ Kept w w' := by
  have heff : Effect D w w' := other_effect (kept_payFrom hp) (trace_payFrom hp) fun a ha => by
    by_cases hsa : source = a
    · have hz := h.sound.wired.allowance_zero (hsa ▸ ha) hp
      simp [Payment.sent, hz]
    · simp [Payment.sent, hsa]
  have hap := Apart.payFrom h.reserved.allowance hp
  exact ⟨h.next heff (h.sound.wired.payFrom hp) hap.approvals hap.allowance, kept_payFrom hp⟩

theorem Grounded.accrue {beneficiary : Address} {kind : FeeKind} {ref : FeeReference} (h : Grounded D w)
    (ha : w.accrue D D.marketplace beneficiary amount kind ref = .ok w') : Grounded D w' ∧ Kept w w' :=
  ⟨(flow_accrue (q := True) h ha).2, (kept_accrue ha).1⟩

theorem Grounded.logListing (h : Grounded D w) (e : ListingEvent) : Grounded D (w.emit (.listing e)) :=
  h.next (.other [] rfl rfl rfl (trace_emit ⟨rfl, rfl⟩) fun _ _ _ _ => rfl) (h.sound.wired.emit _) (fun _ => rfl)
    fun _ => le_rfl

theorem Kept.held (h : Kept w w') : held D w' = held D w := by
  unfold Core.held
  rw [h.vaults]

end

end Core

namespace FixedPrice

open Core (Grounded held Calm Handed)

/-! ## Listings -/

/-- The units of an outcome that a listing has in escrow. -/
def Listing.escrowed (l : Listing) (outcomeId : Nat) : Nat := if l.outcomeId = outcomeId then l.remainingUnits else 0

namespace Marketplace

/-- The units of an outcome of a market that the listings have in escrow. -/
def listedUnits (m : Marketplace) (vault : Address) (outcomeId : Nat) : Nat :=
  ∑ seller, ∑ n ∈ range (m.sellerNonce seller), (m.listings ⟨vault, seller, n⟩).escrowed outcomeId

variable {m : Marketplace} {id : ListingId} {l : Listing} {vault : Address} {outcomeId : Nat}

theorem listedUnits_congr {m' : Marketplace} (hn : m'.sellerNonce = m.sellerNonce) (hl : m'.listings = m.listings) :
    m'.listedUnits = m.listedUnits := by
  unfold listedUnits
  rw [hn, hl]

/-- Another version of one listing. -/
theorem listedUnits_setListing {v : Address} {o : Nat} (h : id.nonce < m.sellerNonce id.seller) :
    (m.setListing id l).listedUnits v o + (if id.vault = v then (m.listings id).escrowed o else 0) =
      m.listedUnits v o + (if id.vault = v then l.escrowed o else 0) := by
  by_cases hv : id.vault = v
  · subst hv
    rw [if_pos rfl, if_pos rfl]
    have hinner := sum_change (s := range (m.sellerNonce id.seller))
      (f := fun n => (m.listings ⟨id.vault, id.seller, n⟩).escrowed o)
      (g := fun n => ((m.setListing id l).listings ⟨id.vault, id.seller, n⟩).escrowed o) (mem_range.mpr h)
      fun n _ hne => by
        have : (⟨id.vault, id.seller, n⟩ : ListingId) ≠ id := fun e => hne (congrArg ListingId.nonce e)
        simp only [setListing, Function.update_of_ne this]
    have houter := sum_change (mem_univ id.seller)
      (f := fun s => ∑ n ∈ range (m.sellerNonce s), (m.listings ⟨id.vault, s, n⟩).escrowed o)
      (g := fun s => ∑ n ∈ range (m.sellerNonce s), ((m.setListing id l).listings ⟨id.vault, s, n⟩).escrowed o)
      fun s _ hne => sum_congr rfl fun n _ => by
        have : (⟨id.vault, s, n⟩ : ListingId) ≠ id := fun e => hne (congrArg ListingId.seller e)
        simp only [setListing, Function.update_of_ne this]
    have hself : (m.setListing id l).listings ⟨id.vault, id.seller, id.nonce⟩ = l := Function.update_self _ _ _
    have hold : m.listings ⟨id.vault, id.seller, id.nonce⟩ = m.listings id := rfl
    simp only [hself, hold] at hinner
    simp only [listedUnits]
    have hnonce : (m.setListing id l).sellerNonce = m.sellerNonce := rfl
    rw [hnonce]
    omega
  · rw [if_neg hv, if_neg hv, Nat.add_zero, Nat.add_zero]
    refine sum_congr rfl fun s _ => sum_congr rfl fun n _ => ?_
    have : (⟨v, s, n⟩ : ListingId) ≠ id := fun e => hv (congrArg ListingId.vault e).symm
    simp only [setListing, Function.update_of_ne this]

/-- A new listing. -/
theorem listedUnits_listed (h : id.nonce = m.sellerNonce id.seller)
    (hb : m.listings ⟨vault, id.seller, id.nonce⟩ = .blank) :
    (State.listed m id l).listedUnits vault outcomeId =
      m.listedUnits vault outcomeId + if id.vault = vault then l.escrowed outcomeId else 0 := by
  have hold : ∀ s n, n < m.sellerNonce s → (State.listed m id l).listings ⟨vault, s, n⟩ = m.listings ⟨vault, s, n⟩ := by
    intro s n hn
    have : (⟨vault, s, n⟩ : ListingId) ≠ id := by
      rintro rfl
      exact absurd h (Nat.ne_of_lt hn)
    exact Function.update_of_ne this _ _
  have houter := sum_change (mem_univ id.seller)
    (f := fun s => ∑ n ∈ range (m.sellerNonce s), (m.listings ⟨vault, s, n⟩).escrowed outcomeId)
    (g := fun s => ∑ n ∈ range ((State.listed m id l).sellerNonce s),
      ((State.listed m id l).listings ⟨vault, s, n⟩).escrowed outcomeId)
    fun s _ hne => by
      have hs : (State.listed m id l).sellerNonce s = m.sellerNonce s := Function.update_of_ne hne _ _
      simp only [hs]
      exact sum_congr rfl fun n hn => by rw [hold s n (mem_range.mp hn)]
  have hnonce : (State.listed m id l).sellerNonce id.seller = m.sellerNonce id.seller + 1 := by
    simp only [State.listed, Function.update_self, h]
  simp only [hnonce, sum_range_succ] at houter
  have hinner : ∑ n ∈ range (m.sellerNonce id.seller), ((State.listed m id l).listings ⟨vault, id.seller, n⟩).escrowed
    outcomeId =
      ∑ n ∈ range (m.sellerNonce id.seller), (m.listings ⟨vault, id.seller, n⟩).escrowed outcomeId :=
    sum_congr rfl fun n hn => by rw [hold id.seller n (mem_range.mp hn)]
  have hlast : ((State.listed m id l).listings ⟨vault, id.seller, m.sellerNonce id.seller⟩).escrowed outcomeId =
      if id.vault = vault then l.escrowed outcomeId else 0 := by
    rw [← h]
    by_cases hv : id.vault = vault
    · subst hv
      have hself : (State.listed m id l).listings ⟨id.vault, id.seller, id.nonce⟩ = l := Function.update_self _ _ _
      rw [if_pos rfl, hself]
    · have hne : (⟨vault, id.seller, id.nonce⟩ : ListingId) ≠ id := fun e => hv (congrArg ListingId.vault e).symm
      have hold : (State.listed m id l).listings ⟨vault, id.seller, id.nonce⟩ = .blank :=
        (Function.update_of_ne hne _ _).trans hb
      rw [if_neg hv, hold]
      unfold Listing.escrowed Listing.blank
      split <;> rfl
  simp only [listedUnits]
  omega

end Marketplace

namespace State

section

variable {D : Deployment} {R : Receivers D} {W W₁ W' : State}

/-! ## While others have control -/

/-- What happens while others have control. -/
structure Aside (D : Deployment) (W W' : State) : Prop where
  marketplace : W'.marketplace = W.marketplace
  grounded : Grounded D W'.core
  held : held D W'.core = held D W.core
  calm : Calm W.core W'.core

theorem Aside.refl (hg : Grounded D W.core) : Aside D W W := ⟨rfl, hg, rfl, .refl _⟩

theorem Aside.trans (h : Aside D W W₁) (h' : Aside D W₁ W') : Aside D W W' :=
  ⟨h'.marketplace.trans h.marketplace, h'.grounded, h'.held.trans h.held, h.calm.trans h'.calm⟩

/-- A marketplace that expects no receipt rejects what others send to it. -/
theorem answered_settled {m : Marketplace} (h : m.expectedReceipt = none) (caller : Address) (data : Option ListingId)
    (c : CoreCall) : answered D m caller data c = World.answered D c := by
  have hrejects : ∀ d, m.onERC1155Received d = false := by
    intro d
    unfold Marketplace.onERC1155Received
    split
    · rw [h]; simp
    · rfl
  cases c with
  | safeTransferFrom market source target id value accepts =>
    simp only [answered, World.answered, hrejects]
    by_cases ht : target = D.marketplace <;> simp [ht]
  | _ => rfl

theorem Outside.aside (hg : Grounded D W.core) (hn : W.marketplace.expectedReceipt = none) (h : Outside D W W') :
    Aside D W W' := by
  obtain ⟨w, caller, c, data, hne, hx⟩ := h
  rw [answered_settled hn] at hx
  obtain ⟨hcalm, hap, hg'⟩ := hg.exec hne hx
  exact ⟨rfl, hg', hap.held, hcalm⟩

/-- Others have control for any number of calls. -/
theorem run_aside (hg : Grounded D W.core) (hn : W.marketplace.expectedReceipt = none)
    (h : Reach.Run (Outside D) W W') : Aside D W W' := by
  induction h with
  | refl => exact .refl hg
  | tail _ hs ih => exact ih.trans (hs.aside ih.grounded (by rw [ih.marketplace]; exact hn))

/-! ## Deliveries -/

/-- Shares that the marketplace sends: it has that much less, and the receiver has had control. -/
theorem sent_eq_ok {market source target : Address} {id value : Nat} (hg : Grounded D W.core)
    (hn : W.marketplace.expectedReceipt = none)
    (h : safeTransferFrom D R W market source target id value none = .ok W') :
    target ≠ D.marketplace ∧ value ≤ (W.core.vaults market).shares.balanceOf id source ∧
      ∃ w, W.core.moveShares D.marketplace market source target id value = .ok w ∧
        R.answer { W with core := w } ⟨market, D.marketplace, source, target, id, value, none⟩ = some W' ∧
        W'.marketplace = W.marketplace ∧ Grounded D W'.core ∧ Calm W.core W'.core ∧
        held D W'.core = update₂ (held D W.core) market id
          (move ((W.core.vaults market).shares.balanceOf id) source target value D.marketplace) := by
  unfold safeTransferFrom at h
  obtain ⟨w, hw, h⟩ := bind_eq_ok.mp h
  obtain ⟨hf, hg', hle⟩ := Core.flow_moveShares (q := True) hg hw
  unfold deliver at h
  by_cases ht : target = D.marketplace
  · rw [if_pos ht] at h
    have hno : ({ W with core := w } : State).marketplace.onERC1155Received
        ⟨market, D.marketplace, source, target, id, value, none⟩ = false := rfl
    rw [revertIf_pos _ hno] at h
    cases h
  · rw [if_neg ht] at h
    obtain ⟨_, _, h⟩ := bind_eq_ok.mp h
    split at h
    · rename_i W₂ ha
      cases h
      have haside := run_aside (W := { W with core := w }) hg' hn (R.lawful _ _ _ ha)
      exact ⟨ht, hle, w, hw, ha, haside.marketplace, haside.grounded, hf.calm.trans haside.calm,
        by rw [haside.held]; exact hf.held⟩
    · cases h

/-! ## What a call changes -/

/-- What holds of the core after a call, which takes no time. -/
structure After (D : Deployment) (W W' : State) : Prop where
  grounded : Grounded D W'.core
  calm : Calm W.core W'.core

/-- What a call changes: nothing that is listed, or one listing and the shares in escrow with it. -/
inductive Change (D : Deployment) (W W' : State) : Prop
  | aside (h : Aside D W W')
  | created (id : ListingId) (l : Listing) (nonce : id.nonce = W.marketplace.sellerNonce id.seller)
      (vault : l.vault = id.vault)
    (seller : l.seller = id.seller) (market : W.core.factory.isMarket l.vault = true)
    (outcome : l.outcomeId < (W.core.vaults l.vault).init.outcomeCount)
    (outsider : D.outside l.seller = true ∧ l.seller ≠ D.marketplace) (active : l.active = true)
    (dust : (W.core.vaults l.vault).init.minimumC2CUnits ≤ l.remainingUnits)
    (marketplace : W'.marketplace = { listed W.marketplace id l with expectedReceipt := none })
    (held : held D W'.core = update₂ (held D W.core) l.vault l.outcomeId
      (held D W.core l.vault l.outcomeId + l.remainingUnits))
    (after : After D W W')
  | drawn (id : ListingId) (units : Nat) (open' : Bool) (active : (W.marketplace.listings id).active = true)
    (le : units ≤ (W.marketplace.listings id).remainingUnits)
    (closed : open' = false → units = (W.marketplace.listings id).remainingUnits)
    (dust : open' = true → (W.core.vaults (W.marketplace.listings id).vault).init.minimumC2CUnits ≤
      (W.marketplace.listings id).remainingUnits - units)
    (marketplace : W'.marketplace = W.marketplace.setListing id { W.marketplace.listings id with
      remainingUnits := (W.marketplace.listings id).remainingUnits - units, active := open' })
    (held : held D W'.core = update₂ (held D W.core) (W.marketplace.listings id).vault
      (W.marketplace.listings id).outcomeId
      (held D W.core (W.marketplace.listings id).vault (W.marketplace.listings id).outcomeId - units))
    (after : After D W W')

/-! ### Creation -/

theorem createListing_change {caller vault : Address} {outcomeId amount unitPrice expiresAt : Nat}
    (hg : Grounded D W.core)
    (ho : D.outside caller = true) (hne : caller ≠ D.marketplace)
    (h : createListing D R W caller vault outcomeId amount unitPrice expiresAt = .ok W') : Change D W W' := by
  unfold createListing at h
  obtain ⟨_, hcheck, h⟩ := bind_eq_ok.mp h
  simp only [checkListing, bind_eq_ok, revertIf_eq_ok, Bool.not_eq_false, not_or, not_lt, not_le] at hcheck
  obtain ⟨_, _, _, hmarket, _, _, _, hcount, _, ⟨hmin, _⟩, _⟩ := hcheck
  obtain ⟨outcome, hu, h⟩ := bind_eq_ok.mp h
  simp only [Vault.toUint8, bind_eq_ok, revertIf_eq_ok, Except.ok.injEq] at hu
  obtain ⟨_, _, rfl⟩ := hu
  obtain ⟨W₂, hs, h⟩ := bind_eq_ok.mp h
  cases h
  unfold safeTransferFrom at hs
  obtain ⟨w, hw, hs⟩ := bind_eq_ok.mp hs
  obtain ⟨hf, hg', hle⟩ := Core.flow_moveShares (q := True) hg hw
  rw [move_to _ _ hne] at hf
  unfold deliver at hs
  rw [if_pos rfl] at hs
  obtain ⟨_, _, hs⟩ := bind_eq_ok.mp hs
  cases hs
  refine .created ⟨vault, caller, W.marketplace.sellerNonce caller⟩ ⟨vault, caller, amount, unitPrice, expiresAt,
    outcomeId, true⟩
    rfl rfl rfl hmarket hcount ⟨ho, hne⟩ rfl hmin rfl ?_ ⟨hg'.logListing _, ?_⟩
  · exact hf.held
  · exact hf.calm.trans (.of_same rfl rfl rfl)

/-! ### Fills -/

/-- A fill draws on an active listing, and leaves nothing or at least the minimum. -/
theorem quoteFill_draws {id : ListingId} {desiredUnits minUnits maxGross deadline remaining : Nat} {l : Listing}
    {a : FillAmounts}
    (h : quoteFill W id desiredUnits minUnits maxGross deadline = .ok (l, a, remaining)) :
    l = W.marketplace.listings id ∧ l.active = true ∧ a.units ≤ l.remainingUnits ∧
      remaining = l.remainingUnits - a.units ∧
      (remaining ≠ 0 → (W.core.vaults l.vault).init.minimumC2CUnits ≤ remaining) := by
  simp only [quoteFill, bind_eq_ok, revertIf_eq_ok, checkedSub_eq_ok, Except.ok.injEq, Prod.mk.injEq] at h
  obtain ⟨-, -, -, -, _, hactive, -, -, -, -, -, -, -, -, -, -, _, hdust, -, -, -, -, rest, ⟨-, rfl⟩, q, ⟨-, rfl⟩,
    rfl, rfl, rfl⟩ := h
  refine ⟨rfl, by simpa using hactive, Nat.min_le_right _ _, rfl, fun hne => ?_⟩
  exact not_lt.mp fun hlt => hdust ⟨hne, hlt⟩

theorem creditFees_kept {w w' : Core} {listing : Listing} {id : ListingId} {a : FillAmounts} (hg : Grounded D w)
    (h : creditFees D w listing id a = .ok w') : Grounded D w' ∧ Core.Kept w w' := by
  unfold creditFees accrueFees at h
  split at h
  · obtain ⟨v, hv, h⟩ := bind_eq_ok.mp h
    obtain ⟨hgv, hkv⟩ := hg.accrue hv
    obtain ⟨hgw, hkw⟩ := hgv.accrue h
    exact ⟨hgw, hkv.trans hkw⟩
  · cases h
    exact ⟨hg, rfl, rfl, rfl, rfl⟩

theorem payFrom_kept {w w' : Core} {buyer : Address} {listing : Listing} {id : ListingId} {a : FillAmounts}
    (hg : Grounded D w) (h : payFrom D w buyer listing id a = .ok w') : Grounded D w' ∧ Core.Kept w w' := by
  rw [payFrom_steps] at h
  obtain ⟨v, hv, h⟩ := bind_eq_ok.mp h
  obtain ⟨u, hu, h⟩ := bind_eq_ok.mp h
  have h₁ : Grounded D v ∧ Core.Kept w v := by
    split at hv
    · exact hg.payFrom hv
    · cases hv; exact ⟨hg, rfl, rfl, rfl, rfl⟩
  have h₂ : Grounded D u ∧ Core.Kept v u := by
    split at hu
    · exact h₁.1.payFrom (Core.pullExact_eq_ok hu).1
    · cases hu; exact ⟨h₁.1, rfl, rfl, rfl, rfl⟩
  have h₃ := creditFees_kept h₂.1 h
  exact ⟨h₃.1, (h₁.2.trans h₂.2).trans h₃.2⟩

theorem payHeld_kept {w w' : Core} {listing : Listing} {id : ListingId} {a : FillAmounts}
    (hg : Grounded D w) (h : payHeld D w listing id a = .ok w') : Grounded D w' ∧ Core.Kept w w' := by
  rw [payHeld_steps] at h
  obtain ⟨v, hv, h⟩ := bind_eq_ok.mp h
  obtain ⟨u, hu, h⟩ := bind_eq_ok.mp h
  have h₁ : Grounded D v ∧ Core.Kept w v := by
    split at hv
    · exact hg.pay hv
    · cases hv; exact ⟨hg, rfl, rfl, rfl, rfl⟩
  have h₂ : Grounded D u ∧ Core.Kept v u := by
    split at hu
    · exact h₁.1.pay hu
    · cases hu; exact ⟨h₁.1, rfl, rfl, rfl, rfl⟩
  have h₃ := creditFees_kept h₂.1 h
  exact ⟨h₃.1, (h₁.2.trans h₂.2).trans h₃.2⟩

/-- After the payment, the fill hands over the units that it has taken off the listing. -/
theorem fill_change {buyer : Address} {id : ListingId} {desiredUnits minUnits maxGross deadline : Nat} {l : Listing}
    {a : FillAmounts} {V : State} {c : Core} {units gross : Nat} (hn : W.marketplace.expectedReceipt = none)
    (hV : prepareFill W id desiredUnits minUnits maxGross deadline = .ok (V, l, a)) (hg : Grounded D c)
    (hk : Core.Kept W.core c)
    (h : completeFill D R { V with core := c } id buyer l desiredUnits a = .ok (W', units, gross)) :
    Change D W W' := by
  unfold prepareFill at hV
  obtain ⟨⟨l', a', remaining⟩, hq, hV⟩ := bind_eq_ok.mp hV
  simp only [Except.ok.injEq, Prod.mk.injEq] at hV
  obtain ⟨rfl, rfl, rfl⟩ := hV
  obtain ⟨hl, hactive, hle, hrem, hdust⟩ := quoteFill_draws hq
  unfold completeFill at h
  obtain ⟨W₂, hs, h⟩ := bind_eq_ok.mp h
  simp only [Except.ok.injEq, Prod.mk.injEq] at h
  obtain ⟨rfl, -, -⟩ := h
  obtain ⟨hb, -, w, -, -, hm, hg₂, hcalm, hheld⟩ := sent_eq_ok (by exact hg) (by exact hn) hs
  rw [move_from _ _ hb.symm, hk.held] at hheld
  have hvaults : c.vaults = W.core.vaults := hk.vaults
  subst hl
  refine .drawn id a'.units ((W.marketplace.listings id).active && remaining != 0) hactive hle ?_ ?_ ?_ ?_ ⟨?_, ?_⟩
  · intro hclosed
    rw [hactive] at hclosed
    simp only [Bool.true_and, bne_eq_false_iff_eq] at hclosed
    omega
  · intro hopen
    rw [hactive] at hopen
    simp only [Bool.true_and, bne_iff_ne] at hopen
    rw [← hrem]
    exact hdust hopen
  · rw [← hrem]
    exact hm
  · simp only [hvaults] at hheld
    exact hheld
  · exact hg₂.logListing _
  · exact (Core.Calm.of_kept hk).trans (hcalm.trans (.of_same rfl rfl rfl))

theorem fillListing_change {buyer : Address} {id : ListingId}
    {desiredUnits minUnits maxGross deadline units gross : Nat}
    (hg : Grounded D W.core) (hn : W.marketplace.expectedReceipt = none)
    (h : fillListing D R W buyer id desiredUnits minUnits maxGross deadline = .ok (W', units, gross)) :
    Change D W W' := by
  obtain ⟨l, a, V, c, hV, hc, h⟩ := fillListing_steps h
  obtain ⟨hcore, -⟩ := prepareFill_quoted hV
  obtain ⟨hg', hk⟩ := payFrom_kept (hcore ▸ hg) hc
  exact fill_change hn hV hg' (hcore ▸ hk) h

theorem fillListingWithPermit2_change {buyer : Address} {id : ListingId}
    {desiredUnits minUnits maxGross deadline units gross : Nat} {permit : Permit} (hg : Grounded D W.core)
    (hn : W.marketplace.expectedReceipt = none)
    (h : fillListingWithPermit2 D R W id buyer desiredUnits minUnits maxGross deadline permit =
      .ok (W', units, gross)) :
    Change D W W' := by
  unfold fillListingWithPermit2 at h
  obtain ⟨_, _, h⟩ := bind_eq_ok.mp h
  obtain ⟨_, _, h⟩ := bind_eq_ok.mp h
  obtain ⟨⟨V, l, a⟩, hV, h⟩ := bind_eq_ok.mp h
  obtain ⟨_, _, h⟩ := bind_eq_ok.mp h
  obtain ⟨_, _, h⟩ := bind_eq_ok.mp h
  obtain ⟨v, hv, h⟩ := bind_eq_ok.mp h
  obtain ⟨c, hc, h⟩ := bind_eq_ok.mp h
  obtain ⟨hcore, -⟩ := prepareFill_quoted hV
  obtain ⟨_, _, hv⟩ := bind_eq_ok.mp hv
  rw [hcore] at hv
  obtain ⟨hg₁, hk₁⟩ := hg.payFrom (Core.pullExact_eq_ok hv).1
  obtain ⟨hg₂, hk₂⟩ := payHeld_kept hg₁ hc
  exact fill_change hn hV hg₂ (hk₁.trans hk₂) h

/-! ### Exits -/

theorem returnListing_change {id : ListingId} {event : Listing → ListingEvent} (hg : Grounded D W.core)
    (hn : W.marketplace.expectedReceipt = none) (ha : (W.marketplace.listings id).active = true)
    (h : returnListing D R W id event = .ok W') : Change D W W' := by
  unfold returnListing at h
  obtain ⟨W₂, hs, h⟩ := bind_eq_ok.mp h
  cases h
  obtain ⟨hb, -, w, -, -, hm, hg₂, hcalm, hheld⟩ := sent_eq_ok (by exact hg) (by exact hn) hs
  rw [move_from _ _ hb.symm] at hheld
  refine .drawn id (W.marketplace.listings id).remainingUnits false ha le_rfl (fun _ => rfl) nofun ?_ hheld
    ⟨hg₂.logListing _, hcalm.trans (.of_same rfl rfl rfl)⟩
  rw [Nat.sub_self]
  exact hm

/-- Every call to the marketplace is a change. -/
theorem exec_change {caller : Address} {c : Call} (hg : Grounded D W.core) (hn : W.marketplace.expectedReceipt = none)
    (h : exec D R W caller c = .ok W') : Change D W W' := by
  unfold exec at h
  obtain ⟨_, hcaller, h⟩ := bind_eq_ok.mp h
  simp only [revertIf_eq_ok, not_or, Bool.not_eq_false] at hcaller
  cases c with
  | createListing vault outcomeId amount unitPrice expiresAt => exact createListing_change hg hcaller.1 hcaller.2 h
  | fillListing id desiredUnits minUnits maxGross deadline =>
    obtain ⟨⟨W₂, u, g⟩, hf, h⟩ := bind_eq_ok.mp h
    cases h
    exact fillListing_change hg hn hf
  | fillListingWithPermit2 id buyer desiredUnits minUnits maxGross callDeadline permit =>
    obtain ⟨_, _, h⟩ := bind_eq_ok.mp h
    obtain ⟨⟨W₂, u, g⟩, hf, h⟩ := bind_eq_ok.mp h
    cases h
    exact fillListingWithPermit2_change hg hn hf
  | cancelListing id =>
    obtain ⟨_, hc, h⟩ := bind_eq_ok.mp h
    simp only [revertIf_eq_ok, not_or, Bool.not_eq_false] at hc
    exact returnListing_change hg hn hc.1 h
  | returnTerminalListing id =>
    obtain ⟨_, hc, h⟩ := bind_eq_ok.mp h
    obtain ⟨_, _, h⟩ := bind_eq_ok.mp h
    simp only [revertIf_eq_ok, Bool.not_eq_false] at hc
    exact returnListing_change hg hn hc h

/-! ## The invariant -/

/-- What holds of a listing that has been made. -/
structure Listed (D : Deployment) (W : State) (id : ListingId) (l : Listing) : Prop where
  vault : l.vault = id.vault
  seller : l.seller = id.seller
  nonce : id.nonce < W.marketplace.sellerNonce id.seller
  market : W.core.factory.isMarket l.vault = true
  outcome : l.outcomeId < (W.core.vaults l.vault).init.outcomeCount
  outsider : D.outside l.seller = true ∧ l.seller ≠ D.marketplace
  closed : l.active = false → l.remainingUnits = 0
  dust : l.active = true → (W.core.vaults l.vault).init.minimumC2CUnits ≤ l.remainingUnits

/-- What holds between calls. -/
structure Inv (D : Deployment) (W : State) : Prop where
  grounded : Grounded D W.core
  settled : W.marketplace.expectedReceipt = none
  custody : ∀ vault outcomeId, held D W.core vault outcomeId = W.marketplace.listedUnits vault outcomeId
  listed : ∀ id, W.marketplace.listings id = .blank ∨ Listed D W id (W.marketplace.listings id)

theorem Listed.next {id : ListingId} {l : Listing} (h : Listed D W id l)
    (hn : W.marketplace.sellerNonce id.seller ≤ W'.marketplace.sellerNonce id.seller)
    (hm : W'.core.factory.isMarket l.vault = true) (hi : (W'.core.vaults l.vault).init = (W.core.vaults l.vault).init) :
    Listed D W' id l where
  vault := h.vault
  seller := h.seller
  nonce := h.nonce.trans_le hn
  market := hm
  outcome := by rw [hi]; exact h.outcome
  outsider := h.outsider
  closed := h.closed
  dust := by rw [hi]; exact h.dust

theorem Listed.calm {id : ListingId} {l : Listing} (h : Listed D W id l)
    (hn : W.marketplace.sellerNonce id.seller ≤ W'.marketplace.sellerNonce id.seller) (hc : Calm W.core W'.core) :
    Listed D W' id l :=
  h.next hn (hc.market _ h.market) (hc.init _ h.market)

theorem Inv.of_active {id : ListingId} (h : Inv D W) (ha : (W.marketplace.listings id).active = true) :
    Listed D W id (W.marketplace.listings id) := by
  rcases h.listed id with hb | hl
  · rw [hb] at ha; cases ha
  · exact hl

/-- A listing whose nonce is not used up yet is blank. -/
theorem Inv.unused {id : ListingId} (h : Inv D W) (hn : W.marketplace.sellerNonce id.seller ≤ id.nonce) :
    W.marketplace.listings id = .blank := by
  rcases h.listed id with hb | hl
  · exact hb
  · exact absurd hl.nonce (not_lt.mpr hn)

/-- What a listing has in escrow, the marketplace has. -/
theorem Inv.remaining_le {id : ListingId} (h : Inv D W) (hl : Listed D W id (W.marketplace.listings id)) :
    (W.marketplace.listings id).remainingUnits ≤
      held D W.core (W.marketplace.listings id).vault (W.marketplace.listings id).outcomeId := by
  rw [h.custody, hl.vault]
  have hinner := le_sum (s := range (W.marketplace.sellerNonce id.seller))
    (fun n => (W.marketplace.listings ⟨id.vault, id.seller, n⟩).escrowed (W.marketplace.listings id).outcomeId)
    (mem_range.mpr hl.nonce)
  have houter := le_sum (fun s => ∑ n ∈ range (W.marketplace.sellerNonce s),
    (W.marketplace.listings ⟨id.vault, s, n⟩).escrowed (W.marketplace.listings id).outcomeId) (mem_univ id.seller)
  have hself : (W.marketplace.listings ⟨id.vault, id.seller, id.nonce⟩).escrowed (W.marketplace.listings id).outcomeId =
      (W.marketplace.listings id).remainingUnits := if_pos rfl
  simp only [hself] at hinner
  exact hinner.trans houter

/-- Every change keeps the invariant. -/
theorem Change.inv (h : Inv D W) (hc : Change D W W') : Inv D W' := by
  cases hc with
  | aside ha =>
    refine ⟨ha.grounded, by rw [ha.marketplace]; exact h.settled, fun v o => ?_, fun id => ?_⟩
    · rw [ha.held, ha.marketplace]
      exact h.custody v o
    · rw [ha.marketplace]
      refine (h.listed id).imp_right fun hl => hl.calm ?_ ha.calm
      rw [ha.marketplace]
  | created id l hnonce hv hs hm ho hout hact hdust hmp hheld hafter =>
    have hblank : ∀ vault, W.marketplace.listings ⟨vault, id.seller, id.nonce⟩ = .blank :=
      fun vault => h.unused hnonce.ge
    have hgrow : ∀ s, W.marketplace.sellerNonce s ≤ W'.marketplace.sellerNonce s := by
      intro s
      rw [hmp]
      by_cases hss : s = id.seller
      · subst hss
        simp only [listed, Function.update_self, hnonce]
        omega
      · simp only [listed, Function.update_of_ne hss, le_refl]
    refine ⟨hafter.grounded, by rw [hmp], fun v o => ?_, fun x => ?_⟩
    · have hunits : W'.marketplace.listedUnits = (listed W.marketplace id l).listedUnits := by
        rw [hmp]
        exact Marketplace.listedUnits_congr rfl rfl
      rw [hunits, Marketplace.listedUnits_listed hnonce (hblank v), hheld, ← h.custody v o, hv]
      by_cases hvv : id.vault = v
      · subst hvv
        by_cases hoo : l.outcomeId = o
        · subst hoo; rw [update₂_self]; simp [Listing.escrowed]
        · rw [update₂_other_holder _ _ (Ne.symm hoo)]; simp [Listing.escrowed, hoo]
      · rw [update₂_of_ne _ _ _ (Ne.symm hvv)]; simp [hvv]
    · have hlist : W'.marketplace.listings = Function.update W.marketplace.listings id l := by rw [hmp]; rfl
      by_cases hx : x = id
      · subst hx
        rw [hlist, Function.update_self]
        have hnew : Listed D W' x l := by
          refine ⟨hv, hs, ?_, hafter.calm.market _ hm, ?_, hout, ?_, fun _ => ?_⟩
          · rw [hmp]
            simp only [listed, Function.update_self]
            omega
          · rw [hafter.calm.init _ hm]; exact ho
          · intro hcl; rw [hact] at hcl; cases hcl
          · rw [hafter.calm.init _ hm]; exact hdust
        exact .inr hnew
      · rw [hlist, Function.update_of_ne hx]
        exact (h.listed x).imp_right fun hl => hl.calm (hgrow _) hafter.calm
  | drawn id units open' hact hle hclosed hdust hmp hheld hafter =>
    have hold := h.of_active hact
    generalize hl : ({ W.marketplace.listings id with
      remainingUnits := (W.marketplace.listings id).remainingUnits - units, active := open' } : Listing) = l at hmp
    have hunits : l.remainingUnits = (W.marketplace.listings id).remainingUnits - units := by rw [← hl]
    have houtcome : l.outcomeId = (W.marketplace.listings id).outcomeId := by rw [← hl]
    refine ⟨hafter.grounded, by rw [hmp]; exact h.settled, fun v o => ?_, fun x => ?_⟩
    · rw [hmp, hheld]
      have hset := Marketplace.listedUnits_setListing (m := W.marketplace) (l := l) (v := v) (o := o) hold.nonce
      have hrem := h.remaining_le hold
      rw [← h.custody v o] at hset
      rw [hold.vault] at hrem ⊢
      simp only [Listing.escrowed, houtcome, hunits] at hset
      by_cases hvv : id.vault = v
      · subst hvv
        by_cases hoo : (W.marketplace.listings id).outcomeId = o
        · subst hoo
          rw [update₂_self]
          simp only [if_true] at hset
          omega
        · rw [update₂_other_holder _ _ (Ne.symm hoo)]
          simp only [if_neg hoo, ite_self] at hset
          omega
      · rw [update₂_of_ne _ _ _ (Ne.symm hvv)]
        simp only [if_neg hvv] at hset
        omega
    · have hlist : W'.marketplace.listings = Function.update W.marketplace.listings id l := by rw [hmp]; rfl
      have hsame : W'.marketplace.sellerNonce = W.marketplace.sellerNonce := by rw [hmp]; rfl
      by_cases hx : x = id
      · subst hx
        rw [hlist, Function.update_self, ← hl]
        have hnext : Listed D W' x (W.marketplace.listings x) := hold.calm (by rw [hsame]) hafter.calm
        refine .inr { hnext with closed := fun hcl => ?_, dust := fun hop => ?_ }
        · have := hclosed hcl
          simp only
          omega
        · simp only
          rw [hafter.calm.init _ hold.market]
          exact hdust hop
      · rw [hlist, Function.update_of_ne hx]
        exact (h.listed x).imp_right fun hl => hl.calm (by rw [hsame]) hafter.calm

/-- A marketplace without listings. -/
theorem genesis_inv (h : Genesis D W) : Inv D W := by
  have hvaults := h.core.vaults
  refine ⟨⟨Core.genesis_sound h.core, fun m s => ?_, h.allowance, fun m _ => hvaults m⟩, ?_, fun v o => ?_,
    fun id => .inl ?_⟩
  · rw [hvaults m]; rfl
  · rw [h.marketplace]; rfl
  · have hnone : W.marketplace.listedUnits v o = 0 := by
      rw [h.marketplace]
      simp [Marketplace.listedUnits, Marketplace.deployed]
    rw [hnone]
    show (W.core.vaults v).shares.balanceOf o D.marketplace = 0
    rw [hvaults v]
    rfl
  · rw [h.marketplace]; rfl

/-- What a step does. -/
theorem Step.change (h : Inv D W) (hs : Step D W W') :
    Change D W W' ∨ ∃ seconds, W' = { W with core := { W.core with now := W.core.now + seconds } } := by
  cases hs with
  | call R _ _ caller c hx => exact .inl (exec_change h.grounded h.settled hx)
  | outside _ _ ho => exact .inl (.aside (ho.aside h.grounded h.settled))
  | tick _ seconds => exact .inr ⟨seconds, rfl⟩

theorem Step.inv (h : Inv D W) (hs : Step D W W') : Inv D W' := by
  rcases Step.change h hs with hc | ⟨seconds, rfl⟩
  · exact hc.inv h
  · refine ⟨⟨Core.tick_sound h.grounded.sound seconds, ⟨h.grounded.reserved.approvals, h.grounded.reserved.allowance,
      h.grounded.reserved.blank⟩⟩, h.settled, h.custody, fun id => (h.listed id).imp_right fun hl => ?_⟩
    exact hl.next le_rfl hl.market rfl

/-- The invariant holds in every state that a run reaches. -/
theorem Reachable.inv (h : Reachable D W) : Inv D W :=
  Reach.Reachable.invariant (I := Inv D) (fun _ h₀ => genesis_inv h₀) (fun _ _ _ h hs => Step.inv h hs) h

/-- Custody of the fixed-price marketplace, whatever calls it and others make and whatever receivers do: of every
outcome of every market it has exactly the units of its listings, each listing is of a registered market and an
outcome of it, made by an account that is none of the contracts, has at least the minimum while it is active and
nothing afterwards, and no receipt is expected between two calls. -/
theorem listing_custody (hr : Reachable D W) :
    (∀ vault outcomeId, (W.core.vaults vault).shares.balanceOf outcomeId D.marketplace =
        W.marketplace.listedUnits vault outcomeId) ∧
      (∀ id, W.marketplace.listings id ≠ .blank → Listed D W id (W.marketplace.listings id)) ∧
      W.marketplace.expectedReceipt = none :=
  ⟨(Reachable.inv hr).custody, fun id hb => ((Reachable.inv hr).listed id).resolve_left hb, (Reachable.inv hr).settled⟩

/-! ## The life of a listing -/

/-- What can become of a listing: its terms stay, its units are only drawn, and once closed it stays so. -/
structure Lasts (l l' : Listing) : Prop where
  vault : l'.vault = l.vault
  seller : l'.seller = l.seller
  unitPrice : l'.unitPrice = l.unitPrice
  expiresAt : l'.expiresAt = l.expiresAt
  outcomeId : l'.outcomeId = l.outcomeId
  remaining : l'.remainingUnits ≤ l.remainingUnits
  closed : l.active = false → l'.active = false

theorem Lasts.refl (l : Listing) : Lasts l l := ⟨rfl, rfl, rfl, rfl, rfl, le_rfl, id⟩

theorem Lasts.trans {l l₁ l₂ : Listing} (h : Lasts l l₁) (h' : Lasts l₁ l₂) : Lasts l l₂ where
  vault := h'.vault.trans h.vault
  seller := h'.seller.trans h.seller
  unitPrice := h'.unitPrice.trans h.unitPrice
  expiresAt := h'.expiresAt.trans h.expiresAt
  outcomeId := h'.outcomeId.trans h.outcomeId
  remaining := h'.remaining.trans h.remaining
  closed := fun hc => h'.closed (h.closed hc)

/-- A later state of the marketplace. -/
structure Later (W W' : State) : Prop where
  nonce : ∀ s, W.marketplace.sellerNonce s ≤ W'.marketplace.sellerNonce s
  listings : ∀ id, id.nonce < W.marketplace.sellerNonce id.seller →
    Lasts (W.marketplace.listings id) (W'.marketplace.listings id)

theorem Later.refl (W : State) : Later W W := ⟨fun _ => le_rfl, fun _ _ => .refl _⟩

theorem Later.trans (h : Later W W₁) (h' : Later W₁ W') : Later W W' :=
  ⟨fun s => (h.nonce s).trans (h'.nonce s), fun id hn =>
    (h.listings id hn).trans (h'.listings id (hn.trans_le (h.nonce _)))⟩

theorem Later.of_same (h : W'.marketplace = W.marketplace) : Later W W' :=
  ⟨fun _ => by rw [h], fun _ _ => by rw [h]; exact .refl _⟩

theorem Change.later (hc : Change D W W') : Later W W' := by
  cases hc with
  | aside ha => exact .of_same ha.marketplace
  | created id l hnonce _ _ _ _ _ _ _ hmp _ _ =>
    refine ⟨fun s => ?_, fun x hx => ?_⟩
    · rw [hmp]
      by_cases hss : s = id.seller
      · subst hss
        simp only [listed, Function.update_self, hnonce]
        omega
      · simp only [listed, Function.update_of_ne hss, le_refl]
    · have hne : x ≠ id := by rintro rfl; omega
      have hsame : W'.marketplace.listings x = W.marketplace.listings x := by
        rw [hmp]
        exact Function.update_of_ne hne _ _
      rw [hsame]
      exact .refl _
  | drawn id units open' hact hle hclosed _ hmp _ _ =>
    refine ⟨fun s => by rw [hmp]; exact le_rfl, fun x _ => ?_⟩
    rw [hmp]
    by_cases hx : x = id
    · subst hx
      simp only [Marketplace.setListing, Function.update_self]
      exact ⟨rfl, rfl, rfl, rfl, rfl, Nat.sub_le _ _, fun hcl => by rw [hact] at hcl; cases hcl⟩
    · simp only [Marketplace.setListing, Function.update_of_ne hx]
      exact .refl _

theorem run_later (hr : Reachable D W) (h : Reach.Run (Step D) W W') : Later W W' :=
  Reach.Run.since hr (.refl W) (fun _ _ ht hl hs => by
    rcases Step.change (Reachable.inv ht) hs with hc | ⟨seconds, rfl⟩
    · exact hl.trans hc.later
    · exact hl.trans (.of_same rfl)) h

/-! ## Exits -/

/-- The units of a listing are handed to its seller, who accepts them after calls of its own. After that the marketplace
only logs `event`. -/
structure HandedBack (D : Deployment) (R : Receivers D) (W : State) (l : Listing) (event : ListingEvent) (w : Core)
    (m : Marketplace) (W₁ W' : State) : Prop where
  handed : Handed W.core D.marketplace l.vault D.marketplace l.seller l.outcomeId l.remainingUnits w
  accepted : R.answer ⟨w, m⟩ ⟨l.vault, D.marketplace, D.marketplace, l.seller, l.outcomeId, l.remainingUnits, none⟩ =
    some W₁
  calls : Reach.Run (Outside D) ⟨w, m⟩ W₁
  after : W' = W₁.emit event

/-- A listing is closed and its units have gone to its seller. -/
structure Returned (D : Deployment) (R : Receivers D) (W : State) (id : ListingId) (event : ListingEvent) (W' : State) :
    Prop where
  closed : (W'.marketplace.listings id).active = false
  drawn : (W'.marketplace.listings id).remainingUnits = 0
  moved : held D W'.core = update₂ (held D W.core) (W.marketplace.listings id).vault
    (W.marketplace.listings id).outcomeId
    (held D W.core (W.marketplace.listings id).vault (W.marketplace.listings id).outcomeId -
      (W.marketplace.listings id).remainingUnits)
  back : ∃ w m W₁, HandedBack D R W (W.marketplace.listings id) event w m W₁ W'
  others : ∀ x, x ≠ id → W'.marketplace.listings x = W.marketplace.listings x

/-- The marketplace can always send what a listing has. -/
theorem moveShares_succeeds {id : ListingId} (h : Inv D W) (hl : Listed D W id (W.marketplace.listings id)) :
    ∃ w, W.core.moveShares D.marketplace (W.marketplace.listings id).vault D.marketplace
      (W.marketplace.listings id).seller
      (W.marketplace.listings id).outcomeId (W.marketplace.listings id).remainingUnits = .ok w := by
  have hseller : (W.marketplace.listings id).seller ≠ 0 := by
    intro h0
    have := hl.outsider.1
    rw [h0, D.zero_outside] at this
    cases this
  have hle : (W.marketplace.listings id).remainingUnits ≤
    (W.core.vaults (W.marketplace.listings id).vault).shares.balanceOf
      (W.marketplace.listings id).outcomeId D.marketplace := h.remaining_le hl
  have hmarket : W.core.requireMarket (W.marketplace.listings id).vault = .ok () :=
    Core.requireMarket_eq_ok.mpr hl.market
  obtain ⟨s, hs⟩ : ∃ s, (W.core.vaults (W.marketplace.listings id).vault).shares.safeTransferFrom
    D.marketplace D.marketplace
      (W.marketplace.listings id).seller (W.marketplace.listings id).outcomeId
      (W.marketplace.listings id).remainingUnits = .ok s := by
    unfold Shares.safeTransferFrom Shares.checkTransfer Shares.moveOne
    rw [revertIf_neg _ (fun hx => hx.1 rfl), ok_bind, revertIf_neg _ hseller, ok_bind,
      revertIf_neg _ D.marketplace_ne_zero,
      ok_bind, revertIf_neg _ (not_lt.mpr hle), ok_bind]
    exact ⟨_, rfl⟩
  unfold Core.moveShares
  rw [hmarket, ok_bind, hs, ok_bind]
  exact ⟨_, rfl⟩

theorem returnListing_succeeds {id : ListingId} (h : Inv D W) (ha : (W.marketplace.listings id).active = true)
    (hR : ∀ V d, d.target = (W.marketplace.listings id).seller → (R.answer V d).isSome = true)
    (event : Listing → ListingEvent) : ∃ W', returnListing D R W id event = .ok W' ∧
      Returned D R W id (event (W.marketplace.listings id)) W' := by
  have hl := h.of_active ha
  obtain ⟨w, hw⟩ := moveShares_succeeds h hl
  let l : Listing := { W.marketplace.listings id with active := false, remainingUnits := 0 }
  let closed : State := { W with marketplace := W.marketplace.setListing id l }
  obtain ⟨W₂, ha₂⟩ := Option.isSome_iff_exists.mp (hR { closed with core := w }
    ⟨(W.marketplace.listings id).vault, D.marketplace, D.marketplace, (W.marketplace.listings id).seller,
      (W.marketplace.listings id).outcomeId, (W.marketplace.listings id).remainingUnits, none⟩ rfl)
  have hsent : safeTransferFrom D R closed (W.marketplace.listings id).vault D.marketplace
    (W.marketplace.listings id).seller
      (W.marketplace.listings id).outcomeId (W.marketplace.listings id).remainingUnits none = .ok W₂ := by
    refine bind_eq_ok.mpr ⟨w, hw, ?_⟩
    unfold deliver
    rw [if_neg hl.outsider.2]
    refine bind_eq_ok.mpr ⟨(), revertIf_eq_ok.mpr (by simp [hl.outsider.1]), ?_⟩
    rw [ha₂]
  obtain ⟨hb, -, -, -, -, hm, -, -, hheld⟩ := sent_eq_ok (by exact h.grounded) (by exact h.settled) hsent
  rw [move_from _ _ hb.symm] at hheld
  have hback : HandedBack D R W (W.marketplace.listings id) (event (W.marketplace.listings id)) w closed.marketplace W₂
      (W₂.emit (event (W.marketplace.listings id))) :=
    ⟨Core.moveShares_handed hw, ha₂, R.lawful _ _ _ ha₂, rfl⟩
  refine ⟨_, bind_eq_ok.mpr ⟨W₂, hsent, rfl⟩, ?_, ?_, hheld, ⟨w, _, W₂, hback⟩, fun x hx => ?_⟩
  · show (W₂.marketplace.listings id).active = false
    rw [hm]
    simp [closed, l, Marketplace.setListing]
  · show (W₂.marketplace.listings id).remainingUnits = 0
    rw [hm]
    simp [closed, l, Marketplace.setListing]
  · show W₂.marketplace.listings x = W.marketplace.listings x
    rw [hm]
    exact Function.update_of_ne hx _ _

/-- The way out of a listing, in every reachable state: its seller can cancel it, and anyone can return it once its
market has ended, whatever is paused, whenever it expires and whatever else is listed, provided the seller takes the
shares; all its units go to the seller. After that, and after any other end, no run opens it again or gives its id
to another listing, and neither call succeeds for it. -/
theorem listing_exit (hr : Reachable D W) :
    (∀ id, (W.marketplace.listings id).active = true →
      (∀ V d, d.target = (W.marketplace.listings id).seller → (R.answer V d).isSome = true) →
        (∃ W', exec D R W (W.marketplace.listings id).seller (.cancelListing id) = .ok W' ∧
          Returned D R W id (.ListingCancelled id (W.marketplace.listings id).seller
            (W.marketplace.listings id).remainingUnits) W') ∧
        ((W.core.vaults (W.marketplace.listings id).vault).isTerminal = true → ∀ caller, D.outside caller = true →
          caller ≠ D.marketplace → ∃ W', exec D R W caller (.returnTerminalListing id) = .ok W' ∧
            Returned D R W id (.TerminalListingReturned id caller (W.marketplace.listings id).seller
              (W.marketplace.listings id).remainingUnits) W')) ∧
      ∀ id, (W.marketplace.listings id).active = false → id.nonce < W.marketplace.sellerNonce id.seller →
        ∀ W', Reach.Run (Step D) W W' → Lasts (W.marketplace.listings id) (W'.marketplace.listings id) ∧
          (W'.marketplace.listings id).active = false ∧
          ∀ (S : Receivers D) caller V, exec D S W' caller (.cancelListing id) ≠ .ok V ∧
            exec D S W' caller (.returnTerminalListing id) ≠ .ok V := by
  have h := Reachable.inv hr
  refine ⟨fun id ha hR => ?_, fun id ha hn W' hrun => ?_⟩
  · have hl := h.of_active ha
    have hcaller : ∀ caller, D.outside caller = true → caller ≠ D.marketplace →
        revertIf (D.outside caller = false ∨ caller = D.marketplace) Err.NoSuchCaller = .ok () := fun caller ho hne =>
      revertIf_eq_ok.mpr (by simp [ho, hne])
    refine ⟨?_, fun hterm caller ho hne => ?_⟩
    · obtain ⟨W', hx, hret⟩ := returnListing_succeeds h ha hR fun l => .ListingCancelled id l.seller l.remainingUnits
      refine ⟨W', bind_eq_ok.mpr ⟨(), hcaller _ hl.outsider.1 hl.outsider.2, ?_⟩, hret⟩
      exact bind_eq_ok.mpr ⟨(), revertIf_eq_ok.mpr (by simp [ha]), hx⟩
    · obtain ⟨W', hx, hret⟩ := returnListing_succeeds h ha hR fun l => .TerminalListingReturned id caller l.seller
        l.remainingUnits
      refine ⟨W', bind_eq_ok.mpr ⟨(), hcaller _ ho hne, ?_⟩, hret⟩
      refine bind_eq_ok.mpr ⟨(), revertIf_eq_ok.mpr (by simp [ha]), ?_⟩
      exact bind_eq_ok.mpr ⟨(), revertIf_eq_ok.mpr (by simp [hterm]), hx⟩
  · have hlast := (run_later hr hrun).listings id hn
    have hclosed := hlast.closed ha
    refine ⟨hlast, hclosed, fun S caller V => ⟨fun hx => ?_, fun hx => ?_⟩⟩
    · obtain ⟨_, _, hx⟩ := bind_eq_ok.mp hx
      obtain ⟨_, hc, _⟩ := bind_eq_ok.mp hx
      exact revertIf_eq_ok.mp hc (.inl hclosed)
    · obtain ⟨_, _, hx⟩ := bind_eq_ok.mp hx
      obtain ⟨_, hc, _⟩ := bind_eq_ok.mp hx
      exact revertIf_eq_ok.mp hc hclosed

/-- The life of a listing: over every run its terms stay as they were made, its units are only drawn, once closed it
stays so, and the nonces that make new ids only grow, so that no id is ever used twice. -/
theorem listing_lasts (hr : Reachable D W) (h : Reach.Run (Step D) W W') :
    (∀ seller, W.marketplace.sellerNonce seller ≤ W'.marketplace.sellerNonce seller) ∧
      (∀ id, id.nonce < W.marketplace.sellerNonce id.seller →
        Lasts (W.marketplace.listings id) (W'.marketplace.listings id)) ∧
      ∀ id, W.marketplace.sellerNonce id.seller ≤ id.nonce → W.marketplace.listings id = .blank :=
  ⟨(run_later hr h).nonce, (run_later hr h).listings, fun _ hn => (Reachable.inv hr).unused hn⟩

end

end State

end FixedPrice

/-! ## The sample listing -/

/-- The sample listing is all that the marketplace has. -/
theorem listing_custody_sample :
    ((Sample.performed Sample.offered).core.vaults Sample.market).shares.balanceOf 0 Sample.deployment.marketplace =
      2000000 ∧
      (Sample.performed Sample.offered).marketplace.listedUnits Sample.market 0 = 2000000 := by
  obtain ⟨h, _, _⟩ := FixedPrice.State.listing_custody (Sample.performed_reachable Sample.offered)
  have hb : ((Sample.performed Sample.offered).core.vaults Sample.market).shares.balanceOf 0
    Sample.deployment.marketplace =
      2000000 := by decide +kernel
  exact ⟨hb, (h _ _).symm.trans hb⟩

/-- Alice cancels her listing. -/
theorem listing_exit_sample :
    ∃ W', FixedPrice.State.exec Sample.deployment (Sample.shoppers none) (Sample.performed Sample.offered)
        ((Sample.performed Sample.offered).marketplace.listings Sample.listingId).seller
        (.cancelListing Sample.listingId) = .ok W' ∧
      FixedPrice.State.Returned Sample.deployment (Sample.shoppers none) (Sample.performed Sample.offered)
        Sample.listingId
        (.ListingCancelled Sample.listingId
          ((Sample.performed Sample.offered).marketplace.listings Sample.listingId).seller
          ((Sample.performed Sample.offered).marketplace.listings Sample.listingId).remainingUnits) W' := by
  obtain ⟨h, _⟩ := FixedPrice.State.listing_exit (R := Sample.shoppers none) (Sample.performed_reachable Sample.offered)
  exact (h Sample.listingId (by decide +kernel) fun V d _ => by simp [Sample.shoppers]).1

namespace Sample

/-- Bob fills half of the listing, and Alice cancels the rest. -/
def withdrawn : List Deed :=
  [.core bob (.approveToken deployment.marketplace 500000), .shop bob (.fillListing listingId 1000000 1 500000 9000),
    .shop alice (.cancelListing listingId)]

end Sample

/-- Her listing has kept its terms, and what was not filled of it is hers again. -/
theorem listing_lasts_sample :
    FixedPrice.State.Lasts ((Sample.performed Sample.offered).marketplace.listings Sample.listingId)
        ((Sample.performed (Sample.offered ++ Sample.withdrawn)).marketplace.listings Sample.listingId) ∧
      ((Sample.performed Sample.offered).marketplace.listings Sample.listingId).active = true ∧
      ((Sample.performed (Sample.offered ++ Sample.withdrawn)).marketplace.listings Sample.listingId).active = false ∧
      ((Sample.performed (Sample.offered ++ Sample.withdrawn)).core.vaults Sample.market).shares.balanceOf 0
        Sample.bob = 1000000 ∧
      ((Sample.performed (Sample.offered ++ Sample.withdrawn)).core.vaults Sample.market).shares.balanceOf 0
        Sample.alice = 2000000 := by
  have hrun : Reach.Run (FixedPrice.State.Step Sample.deployment) (Sample.performed Sample.offered)
      (Sample.performed (Sample.offered ++ Sample.withdrawn)) := by
    unfold Sample.performed
    rw [List.foldl_append]
    exact Sample.performs_run _ _
  have hlasts := (FixedPrice.State.listing_lasts (Sample.performed_reachable Sample.offered) hrun).2.1 Sample.listingId
    (by decide +kernel)
  exact ⟨hlasts, by decide +kernel, by decide +kernel, by decide +kernel, by decide +kernel⟩

end Cpredict
