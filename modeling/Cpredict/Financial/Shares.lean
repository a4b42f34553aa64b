import Cpredict.Core.Transfers
import Cpredict.Financial.Facts

/-!
# The shares that facts account for

A fact of the ledger moves shares between accounts (`LedgerFact.shareMoves`). Whatever the normalizer does with an
event, what its facts move is what they take of the movements (`Accounts`), unless there is a `coverage-gap`; so all
facts together have the effect of the transfers that were logged (`scan_accounts`).
-/

namespace Cpredict.Financial

open Outcome Indexer Transfers Tally

/-! ## Arguments that are read back -/

namespace Args

theorem get_jsonSafe (a : Args) (k : String) : a.jsonSafe.get k = (a.get k).map ArgValue.jsonSafe := by
  unfold jsonSafe OrderedMap.get
  rw [List.find?_map, Option.map_map, Option.map_map]
  rfl

theorem get_spread_of_notMem {more : List (String × ArgValue)} (a : Args) {k : String} (h : k ∉ more.map Prod.fst) :
    (a.spread more).get k = a.get k := by
  unfold spread
  induction more generalizing a with
  | nil => rfl
  | cons x more ih =>
    rw [List.map_cons, List.mem_cons, not_or] at h
    rw [List.foldl_cons, ih _ h.2, OrderedMap.get_set_of_ne _ _ h.1]

end Args

/-! ## The moves of facts and movements -/

namespace LedgerFact

/-- The units of the fact, from one account to another. -/
def one (f : LedgerFact) (source target : Address) : List ShareMove :=
  match f.market, f.outcomeId, f.units with
  | some market, some outcomeId, some units => [⟨(market, outcomeId), source, target, units⟩]
  | _, _, _ => []

/-- The shares of `extra.consumed`. -/
def consumed (f : LedgerFact) : List Used :=
  match f.extra.get "consumed" with
  | some (.used parts) => parts
  | _ => []

/-- The shares that a fact moves between accounts. A filled order takes them from the marketplace, unless it tells
that they were not escrowed. -/
def shareMoves (marketplace : Address) (f : LedgerFact) : List ShareMove :=
  match f.kind with
  | .primaryBuy => f.owner.elim [] fun owner => f.one 0 owner
  | .listingCreated => f.owner.elim [] fun owner => f.one owner marketplace
  | .listingFilled => f.owner.elim [] fun owner =>
    f.one (if f.extra.get "escrowed" = some (.bool false) then f.counterparty.getD 0 else marketplace) owner
  | .listingCancelled | .listingReturned => f.owner.elim [] fun owner => f.one marketplace owner
  | .winnerClaimed | .refunded | .losingBurned => f.market.elim [] fun market => f.owner.elim [] fun owner =>
    f.consumed.map fun u => ⟨(market, u.outcomeId), owner, 0, u.units⟩
  | .shareTransfer => f.one (f.owner.getD 0) (f.counterparty.getD 0)
  | _ => []

end LedgerFact

/-- The units that a movement still has. -/
def Movement.move (m : Movement) : ShareMove := ⟨(m.market, m.outcome), m.source.getD 0, m.target.getD 0, m.remaining⟩

/-- The units that were used. -/
def Used.move (market : Address) (source target : Option Address) (u : Used) : ShareMove :=
  ⟨(market, u.outcomeId), source.getD 0, target.getD 0, u.units⟩

/-- The event is one of the marketplace with a `bool` where the interface has one, and none where it has none. -/
structure Typed (decodeEventLog : IndexedEvent → Except FinancialErr (Option (EventName × Args))) : Prop where
  trade : ∀ e a, decodeEventLog e = .ok (some (.TradeExecuted, a)) → ∃ b, a.get "escrowed" = some (.bool b)
  listing : ∀ e a, decodeEventLog e = .ok (some (.ListingFilled, a)) → a.get "escrowed" = none

/-! ## consume -/

section

variable {fits : Movement → Bool} {market : Address} {source target : Option Address}
  {outcome : Option Nat} {units : Nat}

theorem consumeLoop_skip {needed : Nat} {m : Movement} {rest : List Movement} (h : fits m = false ∨ m.remaining = 0) :
    consumeLoop fits needed (m :: rest) = ((consumeLoop fits needed rest).1, m :: (consumeLoop fits needed rest).2) :=
      if_pos h

/-- What one movement gives. -/
def taken (m : Movement) (take : Nat) : List Used := if 0 < take then [⟨m.outcome, take⟩] else []

/-- What a movement still has. -/
def rest (m : Movement) (take : Nat) : Movement := { m with remaining := m.remaining - take }

theorem consumeLoop_take {needed : Nat} {m : Movement} {ms : List Movement} (h : ¬(fits m = false ∨ m.remaining = 0)) :
    consumeLoop fits needed (m :: ms) =
      if needed - min needed m.remaining = 0 then (taken m (min needed m.remaining),
        rest m (min needed m.remaining) :: ms)
      else (taken m (min needed m.remaining) ++ (consumeLoop fits (needed - min needed m.remaining) ms).1,
        rest m (min needed m.remaining) :: (consumeLoop fits (needed - min needed m.remaining) ms).2) := by
  rw [consumeLoop, if_neg h]
  rfl

theorem taken_sum (m : Movement) (take : Nat) : ((taken m take).map Used.units).sum = take := by
  unfold taken
  split
  · simp
  · simp only [List.map_nil, List.sum_nil]
    omega

theorem taken_moves {m : Movement} {take : Nat} (hm : m.market = market ∧ m.source = source ∧ m.target = target)
    (hle : take ≤ m.remaining) :
    Same ((taken m take).map (Used.move market source target) ++ [(rest m take).move]) [m.move] := by
  obtain ⟨rfl, rfl, rfl⟩ := hm
  have hsplit := Same.split (m.market, m.outcome) (m.source.getD 0) (m.target.getD 0) take (m.remaining - take)
  rw [Nat.add_sub_cancel' hle] at hsplit
  unfold taken
  by_cases hz : 0 < take
  · rw [if_pos hz]
    exact hsplit
  · obtain rfl : take = 0 := by omega
    exact .refl _

/-- What is used is gone from the movements. -/
theorem consumeLoop_moves (hf : ∀ m, fits m = true → m.market = market ∧ m.source = source ∧ m.target = target)
    (needed : Nat) (ms : List Movement) :
    Same ((consumeLoop fits needed ms).1.map (Used.move market source target) ++
      (consumeLoop fits needed ms).2.map Movement.move) (ms.map Movement.move) := by
  induction ms generalizing needed with
  | nil => exact .refl _
  | cons m ms ih =>
    by_cases hs : fits m = false ∨ m.remaining = 0
    · rw [consumeLoop_skip hs]
      intro k a
      have hrest := ih needed k a
      simp only [List.map_cons, tally_append, tally_cons] at hrest ⊢
      omega
    · have hfit : fits m = true := by simpa using (not_or.mp hs).1
      have htake := taken_moves (hf m hfit) (Nat.min_le_right needed m.remaining)
      rw [consumeLoop_take hs]
      split
      · intro k a
        have h := htake k a
        simp only [List.map_cons, tally_append, tally_cons, tally_nil] at h ⊢
        omega
      · intro k a
        have h := htake k a
        have hrest := ih (needed - min needed m.remaining) k a
        simp only [List.map_cons, List.map_append, tally_append, tally_cons, tally_nil] at h hrest ⊢
        omega

/-- No more is used than is needed, and it is of the movements that fit. -/
theorem consumeLoop_used (needed : Nat) (ms : List Movement) :
    ((consumeLoop fits needed ms).1.map Used.units).sum ≤ needed ∧
      ∀ u ∈ (consumeLoop fits needed ms).1, ∃ m ∈ ms, fits m = true ∧ u.outcomeId = m.outcome := by
  induction ms generalizing needed with
  | nil => exact ⟨Nat.zero_le _, fun u hu => absurd hu List.not_mem_nil⟩
  | cons m ms ih =>
    by_cases hs : fits m = false ∨ m.remaining = 0
    · rw [consumeLoop_skip hs]
      obtain ⟨hsum, hmem⟩ := ih needed
      refine ⟨hsum, fun u hu => ?_⟩
      obtain ⟨x, hx, hfx⟩ := hmem u hu
      exact ⟨x, List.mem_cons_of_mem _ hx, hfx⟩
    · have hfit : fits m = true := by simpa using (not_or.mp hs).1
      have hone : ∀ take, ∀ u ∈ taken m take, ∃ x ∈ m :: ms, fits x = true ∧ u.outcomeId = x.outcome := by
        intro take u hu
        unfold taken at hu
        split at hu
        · exact ⟨m, List.mem_cons_self, hfit, by rw [List.mem_singleton.mp hu]⟩
        · cases hu
      rw [consumeLoop_take hs]
      split
      · exact ⟨by rw [taken_sum]; exact Nat.min_le_left _ _, hone _⟩
      · obtain ⟨hsum, hmem⟩ := ih (needed - min needed m.remaining)
        refine ⟨?_, fun u hu => ?_⟩
        · rw [List.map_append, List.sum_append, taken_sum]
          omega
        · rcases List.mem_append.mp hu with hu | hu
          · exact hone _ u hu
          · obtain ⟨x, hx, hfx⟩ := hmem u hu
            exact ⟨x, List.mem_cons_of_mem _ hx, hfx⟩

/-- The units used of one outcome, together. -/
theorem used_moves {o : Nat} {used : List Used} (h : ∀ u ∈ used, u.outcomeId = o) :
    Same (used.map (Used.move market source target))
      [⟨(market, o), source.getD 0, target.getD 0, (used.map Used.units).sum⟩] := by
  induction used with
  | nil => exact (Same.none rfl).symm
  | cons u used ih =>
    have hu := h u List.mem_cons_self
    have hrest := ih fun x hx => h x (List.mem_cons_of_mem _ hx)
    have hsplit := Same.split (market, o) (source.getD 0) (target.getD 0) u.units (used.map Used.units).sum
    rw [List.map_cons, List.map_cons, List.sum_cons]
    refine Same.trans ?_ hsplit
    have hone : Used.move market source target u = ⟨(market, o), source.getD 0, target.getD 0, u.units⟩ := by
      rw [Used.move, hu]
    rw [hone]
    exact Same.append (.refl [_]) hrest

end

/-! ## What an event does -/

/-- What the facts that are added account for is what is gone from the movements, or a gap is among them. -/
def Accounts (marketplace : Address) (s s' : Ledger) : Prop :=
  ∃ fs, s'.output = s.output ++ fs ∧ ((∃ f ∈ fs, f.kind = .coverageGap) ∨
    Same (fs.flatMap (LedgerFact.shareMoves marketplace) ++ s'.movements.map Movement.move)
      (s.movements.map Movement.move))

section

variable {mp : Address} {timestamps : Nat → Option Nat} {e : IndexedEvent} {a : Args} {s s₁ s' : Ledger} {f : Fields}
  {fs : List Fields}

theorem Accounts.refl (s : Ledger) : Accounts mp s s := ⟨[], by simp, .inr (.refl _)⟩

theorem Accounts.trans (h : Accounts mp s s₁) (h' : Accounts mp s₁ s') : Accounts mp s s' := by
  obtain ⟨fs, ho, hfs⟩ := h
  obtain ⟨fs', ho', hfs'⟩ := h'
  refine ⟨fs ++ fs', by rw [ho', ho, List.append_assoc], ?_⟩
  rcases hfs with ⟨f, hf, hk⟩ | hs
  · exact .inl ⟨f, List.mem_append_left _ hf, hk⟩
  rcases hfs' with ⟨f, hf, hk⟩ | hs'
  · exact .inl ⟨f, List.mem_append_right _ hf, hk⟩
  · refine .inr ?_
    rw [List.flatMap_append, List.append_assoc]
    exact ((Same.refl _).append hs').trans hs

namespace Ledger

theorem add_eq_ok : s.add timestamps e f = .ok s' ↔ ∃ t, timestamps e.blockNumber = some t ∧ (fact e t f).valid = true ∧
    s' = { s with output := s.output ++ [fact e t f] } := by
  unfold add
  cases timestamps e.blockNumber with
  | none => exact ⟨fun h => (by cases h), fun ⟨_, h, _⟩ => (by cases h)⟩
  | some t =>
    simp only [Option.some.injEq, exists_eq_left']
    by_cases hv : (fact e t f).valid = true
    · rw [if_pos hv]
      exact ⟨fun h => ⟨hv, (Except.ok.inj h).symm⟩, fun h => congrArg _ h.2.symm⟩
    · rw [if_neg hv]
      exact ⟨fun h => (by cases h), fun h => absurd h.1 hv⟩

theorem addAll_eq_ok (h : s.addAll timestamps e fs = .ok s') :
    ∃ t, (fs ≠ [] → timestamps e.blockNumber = some t) ∧ s' = { s with output := s.output ++ fs.map (fact e t) } := by
  unfold addAll at h
  induction fs generalizing s with
  | nil =>
    obtain rfl := Except.ok.inj h
    exact ⟨0, fun hne => absurd rfl hne, by simp⟩
  | cons f fs ih =>
    rw [List.foldlM_cons] at h
    obtain ⟨s₁, h₁, h⟩ := bind_eq_ok.mp h
    obtain ⟨t, ht, -, rfl⟩ := add_eq_ok.mp h₁
    obtain ⟨t', ht', rfl⟩ := ih h
    refine ⟨t, fun _ => ht, ?_⟩
    have hsame : fs.map (fact e t') = fs.map (fact e t) := by
      cases fs with
      | nil => rfl
      | cons x fs => rw [Option.some.inj ((ht' (List.cons_ne_nil _ _)).symm.trans ht)]
    simp only [hsame, List.map_cons, List.append_assoc, List.singleton_append]

/-- The shares were there, or there is a gap. -/
theorem coverage_eq_ok {market owner : Address} {units : Nat} {used : List Used}
    (h : s.coverage timestamps e market owner units used = .ok s') :
    (used.map Used.units).sum = units ∧ s' = s ∨
      ∃ f, f.kind = .coverageGap ∧ s' = { s with output := s.output ++ [f] } := by
  unfold coverage at h
  split at h
  · obtain ⟨t, -, -, rfl⟩ := add_eq_ok.mp h
    exact .inr ⟨_, rfl, rfl⟩
  · rename_i hu
    exact .inl ⟨not_not.mp hu, (Except.ok.inj h).symm⟩

end Ledger

/-- A fact that moves no shares. -/
theorem add_accounts (h : s.add timestamps e f = .ok s') (hq : ∀ t, (Ledger.fact e t f).shareMoves mp = []) :
    Accounts mp s s' := by
  obtain ⟨t, -, -, rfl⟩ := Ledger.add_eq_ok.mp h
  refine ⟨[Ledger.fact e t f], rfl, .inr ?_⟩
  rw [List.flatMap_singleton, hq t, List.nil_append]
  exact .refl _

/-- An event that moves shares, whose facts move what it has used. -/
theorem settle_accounts {market owner : Address} {source target : Option Address} {outcome : Option Nat} {units : Nat}
    {g : List Used → List Fields} (h : s.settle timestamps e market owner source target units outcome g = .ok s')
    (hg : ∀ used t, (used.map Used.units).sum = units → (∀ o ∈ outcome, ∀ u ∈ used, u.outcomeId = o) →
      Same (((g used).map (Ledger.fact e t)).flatMap (LedgerFact.shareMoves mp))
        (used.map (Used.move market source target))) : Accounts mp s s' := by
  simp only [Ledger.settle, Ledger.consume, bind_eq_ok] at h
  obtain ⟨s₁, ha, hc⟩ := h
  have hfit : ∀ m, Movement.fits e market source target outcome m = true →
      (m.market = market ∧ m.source = source ∧ m.target = target) ∧ ∀ o ∈ outcome, m.outcome = o := by
    intro m hm
    simp only [Movement.fits, Bool.and_eq_true, decide_eq_true_eq, Option.all_eq_true] at hm
    exact ⟨hm.1.2.2, hm.2⟩
  have hmoves := consumeLoop_moves (fun m hm => (hfit m hm).1) units s.movements
  have hused : ∀ u ∈ (consumeLoop (Movement.fits e market source target outcome) units s.movements).1,
    ∃ m ∈ s.movements,
      Movement.fits e market source target outcome m = true ∧ u.outcomeId = m.outcome :=
    (consumeLoop_used units s.movements).2
  obtain ⟨t, -, rfl⟩ := Ledger.addAll_eq_ok ha
  rcases Ledger.coverage_eq_ok hc with ⟨hsum, rfl⟩ | ⟨f, hk, rfl⟩
  · refine ⟨_, rfl, .inr (Same.trans ?_ hmoves)⟩
    refine Same.append (hg _ t hsum fun o ho u hu => ?_) (.refl _)
    obtain ⟨m, -, hm, hou⟩ := hused u hu
    exact hou.trans ((hfit m hm).2 o ho)
  · exact ⟨_, List.append_assoc _ _ _, .inl ⟨f, List.mem_append_right _ List.mem_cons_self, hk⟩⟩

/-- An event of one outcome whose facts move its units. -/
theorem settle_one {market owner : Address} {source target : Option Address} {outcomeId units : Nat}
    {g : List Used → List Fields}
    (h : s.settle timestamps e market owner source target units (some outcomeId) g = .ok s')
    (hg : ∀ used t, Same (((g used).map (Ledger.fact e t)).flatMap (LedgerFact.shareMoves mp))
      [⟨(market, outcomeId), source.getD 0, target.getD 0, units⟩]) : Accounts mp s s' :=
  settle_accounts h fun used t hsum ho => (hg used t).trans (hsum ▸ (used_moves (ho outcomeId rfl)).symm)

/-- A handler that is called at some addresses only. -/
theorem branch_ok {P : Ledger → Prop} {p : Prop} [Decidable p] {x : Except FinancialErr Ledger}
    (h : (if p then x else .ok s) = .ok s') (hs : P s) (hx : x = .ok s' → P s') : P s' := by
  by_cases hp : p
  · rw [if_pos hp] at h
    exact hx h
  · rw [if_neg hp] at h
    exact Except.ok.inj h ▸ hs

theorem branch_accounts {p : Prop} [Decidable p] {x : Except FinancialErr Ledger}
    (h : (if p then x else .ok s) = .ok s')
    (hx : x = .ok s' → Accounts mp s s') : Accounts mp s s' := branch_ok h (.refl s) hx

/-! ## The handlers -/

variable {c : FinancialContext} {decodeEventLog : IndexedEvent → Except FinancialErr (Option (EventName × Args))}

theorem onMarketCreated_accounts (h : onMarketCreated timestamps e a s = .ok s') : Accounts mp s s' := by
  simp only [onMarketCreated, bind_eq_ok] at h
  obtain ⟨_, _, _, _, _, _, h⟩ := h
  exact add_accounts h fun _ => rfl

theorem onOrderCreated_accounts (h : onOrderCreated c timestamps e a s = .ok s') :
    Accounts c.deployment.marketplace s s' := by
  simp only [onOrderCreated, bind_eq_ok] at h
  obtain ⟨market, _, owner, _, outcomeId, _, units, _, _, _, orderId, _, s₁, h₁, h⟩ := h
  exact (add_accounts h₁ fun _ => rfl).trans (branch_accounts h fun h => settle_one h fun _ _ => .refl _)

theorem onBidExcessReturned_accounts (h : onBidExcessReturned c timestamps e a s = .ok s') : Accounts mp s s' := by
  simp only [onBidExcessReturned, bind_eq_ok] at h
  obtain ⟨orderId, _, h⟩ := h
  split at h
  · cases h
  · simp only [bind_eq_ok] at h
    obtain ⟨_, _, _, _, _, _, _, _, h⟩ := h
    exact add_accounts h fun _ => rfl

theorem onOrderReleased_accounts (h : onOrderReleased c timestamps e a s = .ok s') :
    Accounts c.deployment.marketplace s s' := by
  simp only [onOrderReleased, bind_eq_ok] at h
  obtain ⟨orderId, _, h⟩ := h
  split at h
  · cases h
  · simp only [bind_eq_ok] at h
    obtain ⟨_, _, _, _, _, _, _, _, _, _, _, _, s₁, h₁, h⟩ := h
    exact (add_accounts h₁ fun _ => rfl).trans (branch_accounts h fun h => settle_one h fun _ _ => .refl _)

theorem onOrderSharesDeferred_accounts (h : onOrderSharesDeferred c timestamps e a s = .ok s') : Accounts mp s s' := by
  simp only [onOrderSharesDeferred, bind_eq_ok] at h
  obtain ⟨orderId, _, h⟩ := h
  split at h
  · cases h
  · simp only [bind_eq_ok] at h
    obtain ⟨_, _, _, _, _, _, _, _, h⟩ := h
    exact add_accounts h fun _ => rfl

/-- The shares go back to the owner, and on to the recipient if that is somebody else. -/
theorem onOrderSharesWithdrawn_accounts (h : onOrderSharesWithdrawn c timestamps e a s = .ok s') :
    Accounts c.deployment.marketplace s s' := by
  simp only [onOrderSharesWithdrawn, bind_eq_ok] at h
  obtain ⟨orderId, _, h⟩ := h
  split at h
  · cases h
  · simp only [bind_eq_ok] at h
    obtain ⟨market, _, owner, _, recipient, _, units, _, outcomeId, _, h⟩ := h
    refine settle_one h fun _ t => ?_
    by_cases hne : owner = recipient
    · subst hne
      rw [if_neg (not_not.mpr rfl)]
      exact .refl _
    · rw [if_pos hne]
      exact Same.through (market, outcomeId) c.deployment.marketplace owner recipient units

theorem onTradeExecuted_accounts (hb : ∃ b, a.get "escrowed" = some (.bool b))
    (h : onTradeExecuted c timestamps e a s = .ok s') : Accounts c.deployment.marketplace s s' := by
  simp only [onTradeExecuted, bind_eq_ok] at h
  obtain ⟨market, _, buyer, _, seller, _, units, _, outcomeId, _, gross, _, _, _, _, _, _, _, _, _, h⟩ := h
  refine settle_one h fun _ t => ?_
  obtain ⟨b, hb⟩ := hb
  have hget : ∀ more : List (String × ArgValue), "escrowed" ∉ more.map Prod.fst →
      (a.spread more).jsonSafe.get "escrowed" = some (.bool b) := fun more hm => by
    rw [Args.get_jsonSafe, Args.get_spread_of_notMem a hm, hb]
    rfl
  simp only [List.map_cons, List.map_nil, List.flatMap_singleton, LedgerFact.shareMoves, Ledger.fact, LedgerFact.one,
    Option.getD_some, hb]
  rw [hget _ (by simp)]
  cases b
  · exact .refl _
  · exact .refl _

/-- A handler that is called with the listing of its log. -/
theorem withListing_ok {P : Prop} {g : Bytes32 → LedgerListing → Ledger → Except FinancialErr Ledger}
    (h : withListing c a g s = .ok s') (hg : ∀ id listing, g id listing s = .ok s' → P) : P := by
  simp only [withListing, bind_eq_ok] at h
  obtain ⟨listingId, _, h⟩ := h
  cases hlisting : c.listings listingId with
  | none => rw [hlisting] at h; cases h
  | some listing =>
    rw [hlisting] at h
    exact hg _ _ h

theorem onListingCreated_accounts {listingId : Bytes32} {listing : LedgerListing}
    (h : onListingCreated c timestamps e a listingId listing s = .ok s') : Accounts c.deployment.marketplace s s' := by
  simp only [onListingCreated, bind_eq_ok] at h
  obtain ⟨units, _, h⟩ := h
  exact settle_one h fun _ _ => .refl _

theorem onListingFilled_accounts {listingId : Bytes32} {listing : LedgerListing} (hb : a.get "escrowed" = none)
    (h : onListingFilled c timestamps e a listingId listing s = .ok s') : Accounts c.deployment.marketplace s s' := by
  simp only [onListingFilled, bind_eq_ok] at h
  obtain ⟨buyer, _, units, _, gross, _, h⟩ := h
  refine settle_one h fun _ t => ?_
  have hget : a.jsonSafe.get "escrowed" = none := by rw [Args.get_jsonSafe, hb]; rfl
  simp only [List.map_cons, List.map_nil, List.flatMap_singleton, LedgerFact.shareMoves, Ledger.fact, LedgerFact.one,
    Option.getD_some, hget]
  exact .refl _

theorem onListingClosed_accounts {kind : FactKind} {listingId : Bytes32} {listing : LedgerListing}
    (hk : kind = .listingCancelled ∨ kind = .listingReturned)
    (h : onListingClosed c timestamps e a kind listingId listing s = .ok s') :
    Accounts c.deployment.marketplace s s' := by
  simp only [onListingClosed, bind_eq_ok] at h
  obtain ⟨units, _, h⟩ := h
  refine settle_one h fun _ t => ?_
  obtain rfl | rfl := hk
  · exact .refl _
  · exact .refl _

theorem onFee_accounts {kind : FactKind} (hk : kind = .feeAccrued ∨ kind = .feeClaimed)
    (h : onFee c timestamps e a kind s = .ok s') : Accounts mp s s' := by
  simp only [onFee, bind_eq_ok] at h
  obtain ⟨_, _, _, _, _, _, h⟩ := h
  obtain rfl | rfl := hk
  · exact add_accounts h fun _ => rfl
  · exact add_accounts h fun _ => rfl

theorem onBond_accounts {kind : FactKind}
    (hk : kind = .bondLocked ∨ kind = .bondCredited ∨ kind = .bondTimeoutFunded ∨ kind = .bondClaimed)
    (h : onBond timestamps e a kind s = .ok s') : Accounts mp s s' := by
  simp only [onBond, bind_eq_ok] at h
  obtain ⟨_, _, _, _, _, _, h⟩ := h
  refine add_accounts h fun _ => ?_
  obtain rfl | rfl | rfl | rfl := hk <;> rfl

theorem onTransfer_accounts (h : onTransfer c timestamps e a s = .ok s') : Accounts mp s s' := by
  simp only [onTransfer, bind_eq_ok] at h
  obtain ⟨_, _, _, _, h⟩ := h
  refine branch_accounts h fun h => ?_
  obtain ⟨_, _, h⟩ := bind_eq_ok.mp h
  exact add_accounts h fun _ => rfl

theorem onUserOperation_accounts (h : onUserOperation c timestamps e a s = .ok s') : Accounts mp s s' := by
  simp only [onUserOperation, bind_eq_ok] at h
  obtain ⟨_, _, h⟩ := h
  refine branch_accounts h fun h => ?_
  obtain ⟨_, _, h⟩ := bind_eq_ok.mp h
  exact add_accounts h fun _ => rfl

theorem onPrimaryPurchased_accounts (h : onPrimaryPurchased timestamps e a s = .ok s') : Accounts mp s s' := by
  simp only [onPrimaryPurchased, bind_eq_ok] at h
  obtain ⟨owner, _, units, _, outcomeId, _, _, _, _, _, h⟩ := h
  exact settle_one h fun _ _ => .refl _

/-- What is burned is what the event has used, whatever its outcomes. -/
theorem onBurned_accounts {kind : FactKind} (hk : kind = .winnerClaimed ∨ kind = .refunded ∨ kind = .losingBurned)
    (h : onBurned timestamps e a kind s = .ok s') : Accounts mp s s' := by
  simp only [onBurned, bind_eq_ok] at h
  obtain ⟨owner, _, units, _, outcome, _, amount, _, h⟩ := h
  refine settle_accounts h fun used t _ _ => ?_
  have hget : (a.spread [("consumed", .used used)]).jsonSafe.get "consumed" = some (.used used) := by
    rw [Args.get_jsonSafe, Args.spread, List.foldl_cons, List.foldl_nil, OrderedMap.get_set_self]
    rfl
  obtain rfl | rfl | rfl := hk <;>
    simp only [List.map_cons, List.map_nil, List.flatMap_singleton, LedgerFact.shareMoves, Ledger.fact,
      LedgerFact.consumed,
      hget, Option.elim_some] <;>
    exact .refl _

theorem onMarket_accounts {name : EventName} (h : onMarket c timestamps e a name s = .ok s') : Accounts mp s s' := by
  unfold onMarket at h
  cases name with
  | PrimaryPurchased => exact onPrimaryPurchased_accounts h
  | WinnerClaimed => exact onBurned_accounts (.inl rfl) h
  | PrincipalRefunded => exact onBurned_accounts (.inr (.inl rfl)) h
  | LosingPositionBurned => exact onBurned_accounts (.inr (.inr rfl)) h
  | EconomicSnapshotCreated => exact add_accounts h fun _ => rfl
  | MarketInitialized | MarketMetadataUpdated | MarketResolved | MarketVoided | TimeoutBonusFunded =>
    obtain ⟨_, _, h⟩ := bind_eq_ok.mp h
    exact add_accounts h fun _ => rfl
  | EarlyBirdClaimed | FinalRemainderAssigned =>
    simp only [bind_eq_ok] at h
    obtain ⟨_, _, _, _, h⟩ := h
    exact add_accounts h fun _ => rfl
  | TimeoutBonusClaimed =>
    simp only [bind_eq_ok] at h
    obtain ⟨_, _, _, _, _, _, h⟩ := h
    exact add_accounts h fun _ => rfl
  | _ =>
    obtain rfl := Except.ok.inj h
    exact .refl s

/-- Whatever the event is, its facts account for what it takes of the movements. -/
theorem onEvent_accounts {d : Decoded} (ht : Typed decodeEventLog)
    (hd : decodeEventLog d.event = .ok (some (d.name, d.args)))
    (h : onEvent c timestamps d s = .ok s') : Accounts c.deployment.marketplace s s' := by
  obtain ⟨e, name, a⟩ := d
  have hother : ∀ name, (if e.address = c.deployment.bondEscrow then .ok s
      else if name = EventName.Transfer ∧ e.address = c.deployment.paymentToken then onTransfer c timestamps e a s
      else if name = .UserOperationEvent ∧ e.address = c.deployment.entryPoint then onUserOperation c timestamps e a s
      else if e.address ∈ c.markets then onMarket c timestamps e a name s
      else .ok s) = .ok s' → Accounts c.deployment.marketplace s s' := by
    intro name h
    split_ifs at h
    · exact Except.ok.inj h ▸ .refl s
    · exact onTransfer_accounts h
    · exact onUserOperation_accounts h
    · exact onMarket_accounts h
    · exact Except.ok.inj h ▸ .refl s
  unfold onEvent at h
  cases name with
  | MarketCreated => exact branch_accounts h onMarketCreated_accounts
  | OrderCreated => exact branch_accounts h onOrderCreated_accounts
  | BidExcessReturned => exact branch_accounts h onBidExcessReturned_accounts
  | OrderReleased => exact branch_accounts h onOrderReleased_accounts
  | OrderSharesDeferred => exact branch_accounts h onOrderSharesDeferred_accounts
  | OrderSharesWithdrawn => exact branch_accounts h onOrderSharesWithdrawn_accounts
  | TradeExecuted => exact branch_accounts h (onTradeExecuted_accounts (ht.trade e a hd))
  | ListingCreated =>
    exact branch_accounts h fun h => withListing_ok h fun _ _ => onListingCreated_accounts
  | ListingFilled =>
    exact branch_accounts h fun h => withListing_ok h fun _ _ => onListingFilled_accounts (ht.listing e a hd)
  | ListingCancelled =>
    exact branch_accounts h fun h => withListing_ok h fun _ _ => onListingClosed_accounts (.inl rfl)
  | TerminalListingReturned =>
    exact branch_accounts h fun h => withListing_ok h fun _ _ => onListingClosed_accounts (.inr rfl)
  | FeeAccrued => exact branch_accounts h (onFee_accounts (.inl rfl))
  | FeeClaimed => exact branch_accounts h (onFee_accounts (.inr rfl))
  | BondLocked => exact branch_accounts h (onBond_accounts (.inl rfl))
  | BondCredited => exact branch_accounts h (onBond_accounts (.inr (.inl rfl)))
  | BondFundedToTimeoutMarket => exact branch_accounts h (onBond_accounts (.inr (.inr (.inl rfl))))
  | BondClaimed => exact branch_accounts h (onBond_accounts (.inr (.inr (.inr rfl))))
  | _ => exact hother _ h

/-! ## The whole scan -/

theorem events_accounts {ds : List Decoded} (ht : Typed decodeEventLog)
    (hd : ∀ d ∈ ds, decodeEventLog d.event = .ok (some (d.name, d.args)))
    (h : ds.foldlM (fun s d => onEvent c timestamps d s) s = .ok s') : Accounts c.deployment.marketplace s s' := by
  induction ds generalizing s with
  | nil => exact Except.ok.inj h ▸ .refl s
  | cons d ds ih =>
    rw [List.foldlM_cons] at h
    obtain ⟨s₁, h₁, h⟩ := bind_eq_ok.mp h
    exact (onEvent_accounts ht (hd d List.mem_cons_self) h₁).trans (ih (fun x hx => hd x (List.mem_cons_of_mem _ hx)) h)

/-- What is left of movements becomes a fact for each. -/
theorem transfers_of_rest (mp : Address) {ms : List Movement}
    (h : ms.foldlM (fun s m => s.add timestamps m.event
      { kind := .shareTransfer, market := some m.market, owner := m.source, counterparty := m.target,
        outcomeId := some m.outcome
        units := some m.remaining, factIndex := m.index, extra := .of [("source", .text "ERC1155")] }) s = .ok s') :
    ∃ fs, s'.output = s.output ++ fs ∧ fs.flatMap (LedgerFact.shareMoves mp) = ms.map Movement.move := by
  induction ms generalizing s with
  | nil => exact ⟨[], by simp [← Except.ok.inj h], rfl⟩
  | cons m ms ih =>
    rw [List.foldlM_cons] at h
    obtain ⟨s₁, h₁, h⟩ := bind_eq_ok.mp h
    obtain ⟨t, -, -, rfl⟩ := Ledger.add_eq_ok.mp h₁
    obtain ⟨fs, ho, hfs⟩ := ih h
    refine ⟨_ :: fs, by rw [ho, List.append_assoc]; rfl, ?_⟩
    rw [List.flatMap_cons, hfs]
    rfl

/-- Movements that have nothing left do nothing. -/
theorem rest_moves (ms : List Movement) :
    Same ((ms.filter fun m => decide (0 < m.remaining)).map Movement.move) (ms.map Movement.move) := by
  induction ms with
  | nil => exact .refl _
  | cons m ms ih =>
    by_cases hm : 0 < m.remaining
    · rw [List.filter_cons_of_pos (by simpa using hm)]
      exact (Same.refl [m.move]).append ih
    · rw [List.filter_cons_of_neg (by simpa using hm)]
      have hzero : m.move.units = 0 := by
        simp only [Movement.move]
        omega
      exact (Same.none hzero).symm.append ih

theorem decodeAll_cons {event : IndexedEvent} {events : List IndexedEvent} {ds : List Decoded}
    (h : decodeAll decodeEventLog (event :: events) = .ok ds) :
    ∃ x rest, decodeEventLog event = .ok x ∧ decodeAll decodeEventLog events = .ok rest ∧
      ds = (x.map fun y => ⟨event, y.1, y.2⟩).toList ++ rest := by
  simp only [decodeAll, List.mapM_cons, bind_eq_ok, Except.ok.injEq] at h
  obtain ⟨xs, ⟨x, ⟨y, hy, rfl⟩, xs', hxs, hp⟩, rfl⟩ := h
  obtain rfl := Except.ok.inj hp
  refine ⟨y, xs'.filterMap id, hy, by simp only [decodeAll, hxs, ok_bind], ?_⟩
  cases y <;> rfl

/-- What is decoded are the logs that are in the table. -/
theorem mem_decodeAll {events : List IndexedEvent} {ds : List Decoded} (h : decodeAll decodeEventLog events = .ok ds)
    {d : Decoded} : d ∈ ds ↔ d.event ∈ events ∧ decodeEventLog d.event = .ok (some (d.name, d.args)) := by
  induction events generalizing ds with
  | nil =>
    obtain rfl := Except.ok.inj h
    simp
  | cons event events ih =>
    obtain ⟨x, rest, hx, hrest, rfl⟩ := decodeAll_cons h
    rw [List.mem_append, ih hrest, List.mem_cons, or_and_right]
    refine or_congr ?_ Iff.rfl
    rw [Option.mem_toList, Option.map_eq_some_iff]
    constructor
    · rintro ⟨y, rfl, rfl⟩
      exact ⟨rfl, hx⟩
    · rintro ⟨he, hd⟩
      rw [he, hx] at hd
      exact ⟨_, Except.ok.inj hd, by rw [← he]⟩

theorem decodeAll_sublist {events : List IndexedEvent} {ds : List Decoded}
    (h : decodeAll decodeEventLog events = .ok ds) : (ds.map Decoded.event).Sublist events := by
  induction events generalizing ds with
  | nil =>
    obtain rfl := Except.ok.inj h
    exact .refl _
  | cons event events ih =>
    obtain ⟨x, rest, -, hrest, rfl⟩ := decodeAll_cons h
    cases x with
    | none => exact (ih hrest).cons _
    | some x => exact (ih hrest).cons_cons _

/-- A log may be the creation of a market or of a listing; it changes nothing else of the context. -/
theorem collect_keeps {c' : FinancialContext} {d : Decoded} (h : collect c d = .ok c') :
    c'.deployment = c.deployment ∧ c'.orders = c.orders := by
  simp only [collect, bind_eq_ok] at h
  obtain ⟨c₁, h₁, h⟩ := h
  have hfirst : c₁.deployment = c.deployment ∧ c₁.orders = c.orders := by
    split at h₁
    · obtain ⟨_, _, h₁⟩ := bind_eq_ok.mp h₁
      exact Except.ok.inj h₁ ▸ ⟨rfl, rfl⟩
    · exact Except.ok.inj h₁ ▸ ⟨rfl, rfl⟩
  split at h
  · simp only [bind_eq_ok] at h
    obtain ⟨_, _, _, _, _, _, _, _, h⟩ := h
    exact Except.ok.inj h ▸ hfirst
  · exact Except.ok.inj h ▸ hfirst

theorem collectOrder_deployment {c' : FinancialContext} {d : Decoded} (h : collectOrder c d = .ok c') :
    c'.deployment = c.deployment := by
  unfold collectOrder at h
  split at h
  · obtain ⟨_, _, h⟩ := bind_eq_ok.mp h
    exact Except.ok.inj h ▸ rfl
  · exact Except.ok.inj h ▸ rfl

theorem collects_keep {c' : FinancialContext} {ds : List Decoded} (h : ds.foldlM collect c = .ok c') :
    c'.deployment = c.deployment ∧ c'.orders = c.orders :=
  foldlM_inv (I := fun c' => c'.deployment = c.deployment ∧ c'.orders = c.orders)
    (fun _ _ _ _ hk h => ⟨(collect_keeps h).1.trans hk.1, (collect_keeps h).2.trans hk.2⟩) ⟨rfl, rfl⟩ h

theorem collectAll_deployment {c' : FinancialContext} {ds : List Decoded} (h : collectAll c ds = .ok c') :
    c'.deployment = c.deployment := by
  obtain ⟨c₁, h₁, h⟩ := bind_eq_ok.mp h
  exact foldlM_inv (I := fun c' => c'.deployment = c.deployment)
    (fun _ _ _ _ hk h => (collectOrder_deployment h).trans hk) (collects_keep h₁).1 h

end

/-- The movements that the logs tell. -/
def loggedMovements (decodeEventLog : IndexedEvent → Except FinancialErr (Option (EventName × Args)))
    (events : List IndexedEvent) (c : FinancialContext) : Except FinancialErr (List Movement) := do
  let ds ← decodeAll decodeEventLog (events.insertionSort (eventLe · ·))
  let c ← collectAll c ds
  allMovements c.markets ds

/-- **The facts account for the shares**: if there is no gap among them, they move as many shares between any
accounts as the transfers that the logs tell. -/
theorem facts_same {decodeEventLog : IndexedEvent → Except FinancialErr (Option (EventName × Args))}
    {events : List IndexedEvent} {blocks : List CanonicalBlock} {c : FinancialContext} {facts : List LedgerFact}
    (ht : Typed decodeEventLog) (h : normalizeFinancialFacts decodeEventLog events blocks c = .ok facts)
    (hg : ∀ f ∈ facts, f.kind ≠ .coverageGap) :
    ∃ ms, loggedMovements decodeEventLog events c = .ok ms ∧
      Same (facts.flatMap (LedgerFact.shareMoves c.deployment.marketplace)) (ms.map Movement.move) := by
  simp only [normalizeFinancialFacts, scan, bind_eq_ok, Except.ok.injEq] at h
  obtain ⟨s, ⟨ds, hds, c', hc, ms, hms, s₁, h₁, hr⟩, rfl⟩ := h
  have hperm := List.perm_insertionSort (factLe · · = true) s.output
  refine ⟨ms, by simp only [loggedMovements, hds, hc, hms, ok_bind], ?_⟩
  obtain ⟨fs, ho, hfs⟩ := events_accounts ht (fun _ hd => ((mem_decodeAll hds).mp hd).2) h₁
  obtain ⟨fs', ho', hfs'⟩ := transfers_of_rest c.deployment.marketplace hr
  rw [collectAll_deployment hc] at hfs
  rw [ho, List.nil_append] at ho'
  refine (Same.of_perm (hperm.flatMap_right _)).trans ?_
  rw [ho', List.flatMap_append, hfs']
  rcases hfs with ⟨f, hf, hk⟩ | hs
  · exact absurd hk (hg f (hperm.mem_iff.mpr (ho' ▸ List.mem_append_left _ hf)))
  · exact ((Same.refl _).append (rest_moves _)).trans hs

end Cpredict.Financial
