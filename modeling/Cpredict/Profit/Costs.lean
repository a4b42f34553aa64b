import Cpredict.Profit.Windows

/-!
# Costs

Every payment for shares goes into the cost of a lot, and leaves it once: into the entry of a sale, a payout, a
refund or a loss. A step is `Accounted` when the entries that it writes charge exactly what it takes off the lots.
From this follows the cash identity of a complete account: its realized net is what it received less what it paid,
with the costs of the lots it still holds put back.
-/

namespace Cpredict

namespace Profit

/-! ## What a fact pays and receives -/

section

variable (owner : Address) (f : LedgerFact)

/-- A purchase of the account: at the primary market, or of a listing of others. -/
def purchase : Bool :=
  decide (f.kind = .primaryBuy) && Holdings.mine owner f ||
    decide (f.kind = .listingFilled) && Holdings.mine owner f && !Holdings.other owner f

def selfFill : Bool := decide (f.kind = .listingFilled) && Holdings.mine owner f && Holdings.other owner f

/-- The payments for purchases and fills. -/
def paid : Int := if purchase owner f || selfFill owner f then f.amount.getD 0 else 0

/-- The payment that goes into a lot. -/
def paidInto (k : LotKey) :
    Int := if purchase owner f && decide (Holdings.lotKey f = some k) then f.amount.getD 0 else 0

def payoutKinds : List FactKind := [.winnerClaimed, .refunded, .earlyBirdClaimed, .timeoutClaimed]

/-- The net proceeds of sales, the payouts to winners, the refunds, the early-bird rewards and the timeout bonuses. -/
def received : Int :=
  if decide (f.kind = .listingFilled) && Holdings.other owner f then f.extra.sellerProceeds.getD 0
  else if decide (f.kind ∈ payoutKinds) && Holdings.mine owner f then f.amount.getD 0
  else 0

/-- The account takes no part in a transfer of shares. -/
def NoTransfer : Prop := f.kind = .shareTransfer → Holdings.mine owner f = false ∧ Holdings.other owner f = false

/-- What trades and payouts have on the chain: a trade is of a lot, nothing is paid for no shares, and a payout is
of a market. -/
structure Proper : Prop where
  lot : purchase owner f = true ∨ f.kind = .listingFilled ∧ Holdings.other owner f = true → Holdings.lotKey f ≠ none
  units : purchase owner f = true → f.amount.getD 0 = 0 ∨ 0 < f.units.getD 0
  market : f.kind ∈ payoutKinds → Holdings.mine owner f = true → f.market ≠ none

end

/-! ## Lots -/

theorem share_bounds {lot : Lot} {available : Nat} (hcost : 0 ≤ lot.cost) (hle : available ≤ lot.units) :
    0 ≤ lot.share available ∧ lot.share available ≤ lot.cost := by
  unfold Lot.share
  split
  · exact ⟨le_refl 0, hcost⟩
  · split
    · exact ⟨hcost, le_refl _⟩
    · rename_i hunits _
      have hprod : (0 : Int) ≤ lot.cost * available := mul_nonneg hcost (Int.natCast_nonneg _)
      rw [Int.tdiv_eq_ediv_of_nonneg hprod]
      refine ⟨Int.ediv_nonneg hprod (Int.natCast_nonneg _), ?_⟩
      refine Int.ediv_le_of_le_mul (by omega) ?_
      exact mul_le_mul_of_nonneg_left (by exact_mod_cast hle) hcost

/-- The last unit takes all of the cost. -/
theorem dispose_empty {lot : Lot} {units : Nat} {escrow : Bool} (hempty : lot.units = 0 → lot.cost = 0)
    (h : (lot.dispose units escrow).units = 0) : (lot.dispose units escrow).cost = 0 := by
  simp only [Lot.dispose] at h ⊢
  unfold Lot.share
  split
  · rename_i hzero
    rw [hempty hzero]
    rfl
  · rw [if_pos (by omega)]
    exact sub_self _

/-- No lot costs less than nothing, and an empty one costs nothing. -/
structure Sane (h : Holdings) : Prop where
  nodup : (h.lots.map Lot.key).Nodup
  cost : ∀ l ∈ h.lots, 0 ≤ l.cost
  empty : ∀ l ∈ h.lots, l.units = 0 → l.cost = 0

/-- The cost of all lots. -/
def lotsCost (h : Holdings) : Int := (h.lots.map Lot.cost).sum

def Held (h : Holdings) (k : LotKey) : Prop := (Table.find Lot.key k h.lots).isSome

section

variable {h : Holdings} {k : LotKey} {g : Lot → Lot}

theorem getLot_mem (hk : Held h k) : h.getLot k ∈ h.lots ∧ (h.getLot k).key = k := by
  obtain ⟨l, hl⟩ := Option.isSome_iff_exists.mp hk
  unfold Holdings.getLot
  rw [hl]
  exact Table.mem_of_find hl

theorem getLot_of_mem (hs : Sane h) {l : Lot} (hl : l ∈ h.lots) : h.getLot l.key = l := by
  unfold Holdings.getLot
  rw [Table.find_of_mem hs.nodup hl]
  rfl

theorem Sane.getLot (hs : Sane h) (k : LotKey) : 0 ≤ (h.getLot k).cost ∧
    ((h.getLot k).units = 0 → (h.getLot k).cost = 0) := by
  by_cases hk : Held h k
  · exact ⟨hs.cost _ (getLot_mem hk).1, hs.empty _ (getLot_mem hk).1⟩
  · unfold Holdings.getLot
    rw [Option.not_isSome_iff_eq_none.mp hk]
    exact ⟨le_refl _, fun _ => rfl⟩

theorem held_open (h : Holdings) (k : LotKey) : Held (h.open k) k := Table.isSome_find_insertNew Lot.key
    (Lot.fresh k) h.lots

theorem sane_open (hs : Sane h) (k : LotKey) : Sane (h.open k) := by
  refine ⟨Table.nodup_insertNew hs.nodup _, fun l hl => ?_, fun l hl => ?_⟩ <;> rcases Table.mem_insertNew
    hl with hl | ⟨rfl, -⟩
  · exact hs.cost l hl
  · exact le_refl _
  · exact hs.empty l hl
  · exact fun _ => rfl

theorem lotsCost_open (h : Holdings) (k : LotKey) : lotsCost (h.open k) = lotsCost h := by
  unfold lotsCost Holdings.open Table.insertNew
  split
  · rfl
  · rw [List.map_append, List.sum_append]
    exact add_zero _

theorem getLot_open (h : Holdings) (k k' : LotKey) : (h.open k).getLot k' = h.getLot k' := by
  unfold Holdings.getLot Holdings.open Table.insertNew
  split
  · rfl
  · rename_i hnone
    have hnone : Table.find Lot.key k h.lots = none := Option.not_isSome_iff_eq_none.mp hnone
    unfold Table.find at hnone ⊢
    rw [List.find?_append]
    cases hf : h.lots.find? fun r => decide (r.key = k') with
    | some l => rfl
    | none =>
      by_cases hk : k = k'
      · subst hk
        simp [Lot.fresh]
      · simp [Lot.fresh, hk]

theorem held_change (hg : ∀ l, (g l).key = l.key) {k' : LotKey} (hk : Held h k') : Held (h.change k g) k' := by
  unfold Held Holdings.change
  rw [Table.isSome_find_update Lot.key hg]
  exact hk

theorem getLot_change (hg : ∀ l, (g l).key = l.key) (hk : Held h k) (k' : LotKey) :
    (h.change k g).getLot k' = if k' = k then g (h.getLot k) else h.getLot k' := by
  unfold Holdings.getLot Holdings.change
  rw [Table.find_update hg]
  cases hf : Table.find Lot.key k' h.lots with
  | none =>
    split
    · rename_i he
      subst he
      rw [Held, hf] at hk
      cases hk
    · rfl
  | some l =>
    obtain ⟨-, hl⟩ := Table.mem_of_find hf
    rw [Option.map_some, Option.getD_some, hl]
    split
    · rename_i he
      subst he
      rw [hf, Option.getD_some]
    · rw [Option.getD_some]

theorem lotsCost_change (hs : Sane h) (hk : Held h k) (g : Lot → Lot) :
    lotsCost (h.change k g) = lotsCost h - (h.getLot k).cost + (g (h.getLot k)).cost := by
  obtain ⟨l, hl⟩ := Option.isSome_iff_exists.mp hk
  unfold lotsCost Holdings.change Holdings.getLot
  rw [Table.sum_map_update Lot.cost hs.nodup hl, hl]
  rfl

theorem sane_change (hs : Sane h) (hg : ∀ l, (g l).key = l.key)
    (hcost : ∀ l, 0 ≤ l.cost → (l.units = 0 → l.cost = 0) → 0 ≤ (g l).cost ∧ ((g l).units = 0 → (g l).cost = 0)) :
    Sane (h.change k g) := by
  refine ⟨?_, fun l hl => ?_, fun l hl => ?_⟩
  · unfold Holdings.change
    rw [Table.map_key_update Lot.key hg]
    exact hs.nodup
  all_goals
    obtain ⟨q, hq, rfl⟩ := Table.mem_update.mp hl
    split
  · exact (hcost q (hs.cost q hq) (hs.empty q hq)).1
  · exact hs.cost q hq
  · exact (hcost q (hs.cost q hq) (hs.empty q hq)).2
  · exact hs.empty q hq

end

/-! ## What the notes of a step charge -/

section

variable {owner : Address} {f : LedgerFact}

def allocated (entries : List PnlEntry) : Int := (entries.map PnlEntry.allocatedCost).sum

def proceeds (entries : List PnlEntry) : Int := (entries.map fun e => (e.proceeds : Int)).sum

theorem allocated_append (l l' : List PnlEntry) : allocated (l ++ l') = allocated l + allocated l' := by
    simp [allocated]

theorem proceeds_append (l l' : List PnlEntry) : proceeds (l ++ l') = proceeds l + proceeds l' := by simp [proceeds]

/-- A step of a handler: the entries charge what is taken off the lots and what is paid beside them, their proceeds
are what is received, and no lot gets more than what is paid into it. -/
structure Accounted (f : LedgerFact) (h : Holdings) (pay got : Int) (into : LotKey → Int)
    (out : Holdings × List Note) : Prop where
  sane : Sane out.1
  charged : allocated (out.2.filterMap (Note.entry f)) + lotsCost out.1 = lotsCost h + pay
  proceeds : Profit.proceeds (out.2.filterMap (Note.entry f)) = got
  lots : ∀ k, (out.1.getLot k).cost ≤ (h.getLot k).cost + into k

variable {h : Holdings} {k : LotKey}

theorem accounted_nothing (hs : Sane h) : Accounted f h 0 0 (fun _ => 0) (h, []) :=
  ⟨hs, by simp [allocated], rfl, fun _ => by simp⟩

/-- A change that leaves the cost of the lot. -/
theorem accounted_change {g : Lot → Lot} (hs : Sane h) (hk : Held h k) (hkey : ∀ l, (g l).key = l.key)
    (hcost : ∀ l, (g l).cost = l.cost)
    (hunits : ∀ l, (g l).units = l.units) {notes : List Note} (hn : notes.filterMap (Note.entry f) = []) :
    Accounted f h 0 0 (fun _ => 0) (h.change k g, notes) := by
  refine ⟨sane_change hs hkey fun l hl he => ?_, ?_, ?_, fun k' => ?_⟩
  · rw [hcost, hunits]
    exact ⟨hl, he⟩
  · rw [hn, lotsCost_change hs hk, hcost]
    simp [allocated]
  · rw [hn]
    rfl
  · rw [getLot_change hkey hk]
    split
    · rename_i he
      rw [hcost, he]
      simp
    · simp

/-- A disposal takes its cost off the lot. -/
theorem dispose_charged (hs : Sane h) (hk : Held h k) (units : Nat) (escrow : Bool) :
    Sane (h.dispose k units escrow).2.1 ∧
      (h.dispose k units escrow).1.cost + lotsCost (h.dispose k units escrow).2.1 = lotsCost h ∧
      0 ≤ (h.dispose k units escrow).1.cost ∧ ∀ k', ((h.dispose k units escrow).2.1.getLot k').cost ≤
        (h.getLot k').cost := by
  have hbounds : ∀ l : Lot, 0 ≤ l.cost → 0 ≤ l.share (min units l.units) ∧ l.share (min units l.units) ≤ l.cost :=
    fun l hl => share_bounds hl (Nat.min_le_right _ _)
  have hlot := hbounds (h.getLot k) (hs.getLot k).1
  refine ⟨sane_change hs (fun _ => rfl) fun l hl he => ⟨?_, dispose_empty he⟩, ?_, hlot.1, fun k' => ?_⟩
  · have := (hbounds l hl).2
    simp only [Lot.dispose]
    omega
  · simp only [Holdings.dispose]
    rw [lotsCost_change hs hk]
    simp only [Lot.disposal, Lot.dispose]
    ring
  · simp only [Holdings.dispose]
    rw [getLot_change (g := fun lot => lot.dispose units escrow) (fun _ => rfl) hk]
    split
    · rename_i he
      rw [he]
      have := hlot.1
      simp only [Lot.dispose]
      omega
    · exact le_refl _

theorem missing_entry (p : Prop) [Decidable p] (reason : String) :
    (if p then [Note.missing reason] else []).filterMap (Note.entry f) = [] := by
  split <;> rfl

/-- A record of a fact that names its market writes its entry. -/
theorem record_entry {market : Address} (hm : f.market = some market) (value : Nat) (d : Disposal)
    (outcomeId : Option Nat) :
    [Note.record value d outcomeId].filterMap (Note.entry f) = [entry f market value d outcomeId] := by
  simp [Note.entry, hm]

/-- A loss is charged once: its lot costs nothing afterwards. -/
theorem writeOff_charged {market : Address} (hm : f.market = some market) (hs : Sane h) (hk : Held h k) :
    Accounted f h 0 0 (fun _ => 0) (h.writeOff k) := by
  refine ⟨sane_change hs (fun _ => rfl) fun l _ _ => ⟨le_refl _, fun _ => rfl⟩, ?_, ?_, fun k' => ?_⟩
  · simp only [Holdings.writeOff]
    rw [record_entry hm, lotsCost_change hs hk]
    simp only [allocated, entry, Lot.loss, Lot.settle, List.map_cons, List.map_nil, List.sum_cons, List.sum_nil]
    ring
  · simp only [Holdings.writeOff]
    rw [record_entry hm]
    simp [Profit.proceeds, entry]
  · simp only [Holdings.writeOff]
    rw [getLot_change (g := Lot.settle) (fun _ => rfl) hk]
    split
    · rename_i he
      subst he
      have := (hs.getLot k').1
      simpa [Lot.settle] using this
    · simp

/-- Two handlers one after the other. -/
theorem Accounted.append {h₁ h₂ : Holdings} {pay pay' got got' : Int} {into into' : LotKey → Int}
    {notes notes' : List Note}
    (ha : Accounted f h pay got into (h₁, notes)) (hb : Accounted f h₁ pay' got' into' (h₂, notes')) :
    Accounted f h (pay + pay') (got + got') (fun k => into k + into' k) (h₂, notes ++ notes') := by
  have hac := ha.charged
  have hbc := hb.charged
  refine ⟨hb.sane, ?_, ?_, fun k => ?_⟩
  · simp only [List.filterMap_append, allocated_append] at hac hbc ⊢
    omega
  · simp only [List.filterMap_append, proceeds_append]
    exact congrArg₂ (· + ·) ha.proceeds hb.proceeds
  · have hak := ha.lots k
    have hbk := hb.lots k
    simp only at hak hbk ⊢
    omega

theorem acquire_charged {market : Address} (hm : f.market = some market) (hs : Sane h) (hk : Held h k)
    {units value : Nat}
    (hunits : value = 0 ∨ 0 < units) :
    Accounted f h value 0 (fun k' => if k' = k then value else 0) (h.acquire k units (some value)) := by
  have hkey : ∀ l : Lot, (l.acquire units (some (value : Int))).key = l.key := fun _ => rfl
  have hbought : Accounted f h value 0 (fun k' => if k' = k then value else 0)
      (h.change k fun lot => lot.acquire units (some (value : Int)), []) := by
    refine ⟨sane_change hs hkey fun l hl he => ?_, ?_, rfl, fun k' => ?_⟩
    · simp only [Lot.acquire, Option.getD_some]
      refine ⟨by omega, fun hz => ?_⟩
      rw [he (by omega)]
      omega
    · rw [lotsCost_change hs hk]
      simp only [Lot.acquire, Option.getD_some, List.filterMap_nil, allocated, List.map_nil, List.sum_nil]
      ring
    · rw [getLot_change (g := fun lot => lot.acquire units (some (value : Int))) hkey hk]
      split
      · rename_i he
        rw [he]
        exact le_refl _
      · omega
  unfold Holdings.acquire
  dsimp only
  split
  · split
    · -- the outcome has lost: what was paid is a loss at once
      have hboth := hbought.append (writeOff_charged hm hbought.sane (held_change hkey hk))
      simp only [add_zero, List.nil_append] at hboth
      exact hboth
    · exact hbought
  · exact hbought

theorem sale_charged {market : Address} (hm : f.market = some market) (hs : Sane h) (hk : Held h k) (units : Nat) :
    Accounted f h 0 (f.extra.sellerProceeds.getD 0 : Nat) (fun _ => 0) (h.onSale f k units) := by
  obtain ⟨hsane, hcost, -, hlots⟩ := dispose_charged hs hk units f.extra.escrowed
  refine ⟨hsane, ?_, ?_, fun k' => (hlots k').trans (by omega)⟩
  · simp only [Holdings.onSale]
    rw [List.filterMap_append, dispose_entries, record_entry hm]
    simp only [allocated, entry, List.nil_append, List.map_cons, List.map_nil, List.sum_cons, List.sum_nil, add_zero]
    exact hcost
  · simp only [Holdings.onSale]
    rw [List.filterMap_append, dispose_entries, record_entry hm]
    simp [Profit.proceeds, entry]

theorem selfFill_charged {market : Address} (hm : f.market = some market) (hs : Sane h) (hk : Held h k)
    (units value : Nat) :
    Accounted f h value (f.extra.sellerProceeds.getD 0 : Nat) (fun _ => 0) (h.onSelfFill f k units value) := by
  have hmissing := missing_entry (f := f) ((h.getLot k).escrow < units) "escrow_balance_gap"
  obtain ⟨hsane, hcost, -, hlots⟩ :=
    accounted_change (f := f) (g := fun lot : Lot => { lot with escrow := lot.escrow - units }) hs hk
    (fun _ => rfl) (fun _ => rfl) (fun _ => rfl) hmissing
  rw [hmissing] at hcost
  refine ⟨hsane, ?_, ?_, hlots⟩
  · simp only [Holdings.onSelfFill]
    rw [List.filterMap_append, hmissing, record_entry hm]
    simp only [allocated, entry, List.nil_append, List.map_cons, List.map_nil, List.sum_cons, List.sum_nil] at hcost ⊢
    omega
  · simp only [Holdings.onSelfFill]
    rw [List.filterMap_append, hmissing, record_entry hm]
    simp [Profit.proceeds, entry]

/-- The lots of the losing outcomes, one after the other. -/
theorem resolved_charged {market : Address} (hm : f.market = some market) (hs : Sane h) (outcomeId : Nat) :
    Accounted f h 0 0 (fun _ => 0) (h.onMarketResolved market outcomeId) := by
  unfold Holdings.onMarketResolved
  dsimp only
  have hfold : ∀ (keys : List LotKey) (acc : Holdings × List Note), Accounted f h 0 0 (fun _ => 0) acc →
    (∀ k ∈ keys, Held acc.1 k) →
      Accounted f h 0 0 (fun _ => 0) (keys.foldl (fun (acc : Holdings × List Note) k =>
        if k.market = market ∧ k.outcomeId ≠ outcomeId ∧ 0 < (acc.1.getLot k).units ∧
          (acc.1.getLot k).lossSettled = false then
          ((acc.1.writeOff k).1, acc.2 ++ (acc.1.writeOff k).2)
        else acc) acc) := by
    intro keys
    induction keys with
    | nil => exact fun acc hacc _ => hacc
    | cons k keys ih =>
      intro acc hacc hheld
      rw [List.foldl_cons]
      split
      · refine ih _ ?_ fun k' hk' => held_change (g := Lot.settle) (fun _ => rfl)
          (hheld k' (List.mem_cons_of_mem k hk'))
        have hboth := hacc.append (writeOff_charged hm hacc.sane (hheld k List.mem_cons_self))
        simp only [add_zero] at hboth
        exact hboth
      · exact ih acc hacc fun k' hk' => hheld k' (List.mem_cons_of_mem k hk')
  refine hfold _ _ ⟨⟨hs.nodup, hs.cost, hs.empty⟩, by simp [allocated, lotsCost], rfl,
    fun k => by simp [Holdings.getLot]⟩ fun k hk => ?_
  obtain ⟨l, hl, rfl⟩ := List.mem_map.mp hk
  exact Table.isSome_find.mpr ⟨l, hl, rfl⟩

/-- The parts of a burn: what they cost is taken off the lots. -/
theorem parts_charged (market : Address) (parts : List Part) {b : Holdings.Burn} (hs : Sane b.holdings)
    (hcost : b.cost + lotsCost b.holdings = lotsCost h) (hpos : 0 ≤ b.cost)
    (hlots : ∀ k, (b.holdings.getLot k).cost ≤ (h.getLot k).cost) :
    Sane (parts.foldl (Holdings.Burn.part market) b).holdings ∧
      (parts.foldl (Holdings.Burn.part market) b).cost + lotsCost
      (parts.foldl (Holdings.Burn.part market) b).holdings = lotsCost h ∧
      0 ≤ (parts.foldl (Holdings.Burn.part market) b).cost ∧
      ∀ k, ((parts.foldl (Holdings.Burn.part market) b).holdings.getLot k).cost ≤ (h.getLot k).cost := by
  induction parts generalizing b with
  | nil => exact ⟨hs, hcost, hpos, hlots⟩
  | cons p parts ih =>
    rw [List.foldl_cons]
    unfold Holdings.Burn.part
    split
    · rename_i outcome quantity _ _
      obtain ⟨hsane, hsum, hnonneg, hle⟩ := dispose_charged
        (sane_open hs _) (held_open b.holdings ⟨market, outcome⟩) quantity false
      rw [lotsCost_open] at hsum
      refine ih hsane ?_ (add_nonneg hpos hnonneg) fun k => ?_
      · exact (add_assoc _ _ _).trans ((congrArg (b.cost + ·) hsum).trans hcost)
      · have := hle k
        rw [getLot_open] at this
        exact le_trans this (hlots k)
    · exact ih hs hcost hpos hlots

/-- A note that leaves nothing open. -/
def Clean (f : LedgerFact) : Note → Prop
  | .missing _ => False
  | .record _ d _ => f.market ≠ none → d.complete = true

theorem burn_charged {market : Address} (hm : f.market = some market) (hs : Sane h) (units value : Nat)
    (hclean : ∀ n ∈ (h.onBurn f market units value).2, Clean f n) :
    Accounted f h 0 (if f.kind = .losingBurned then 0 else value) (fun _ => 0) (h.onBurn f market units value) := by
  obtain ⟨hsane, hcost, hpos, hlots⟩ :=
    parts_charged (h := h) market (Holdings.consumed f) (b := ⟨0, 0, true, none, h, []⟩) hs
    (zero_add _) (le_refl _) fun _ => le_refl _
  have hparts := foldl_part_entries (f := f) market (Holdings.consumed f) ⟨0, 0, true, none, h, []⟩
  unfold Holdings.onBurn at hclean ⊢
  dsimp only at hclean ⊢
  generalize (Holdings.consumed f).foldl (Holdings.Burn.part market) ⟨0, 0, true, none, h, []⟩ =
    b at hsane hcost hpos hlots hparts hclean ⊢
  generalize hd : (if b.burned ≠ units then (⟨b.cost, false, some "burn_movement_missing"⟩ : Disposal) else ⟨b.cost,
    b.complete, b.reason⟩) = d
    at hclean ⊢
  have hdcost : d.cost = b.cost := by
    rw [← hd]
    split <;> rfl
  by_cases hf : f.kind = .losingBurned
  · simp only [hf, ne_eq, not_true, if_false, if_true] at hclean ⊢
    -- nothing is left to be charged: otherwise the burn would have been reported
    have hzero : ¬ (0 < d.cost ∨ d.complete = false) := by
      intro hbad
      rw [if_pos hbad] at hclean
      exact hclean _ (List.mem_append_right _ List.mem_cons_self)
    rw [if_neg hzero, List.append_nil]
    refine ⟨hsane, ?_, ?_, fun k => by simpa using hlots k⟩
    · rw [hparts]
      have : ¬ 0 < b.cost := fun hlt => hzero (.inl (hdcost ▸ hlt))
      simp only [allocated, List.filterMap_nil, List.map_nil, List.sum_nil]
      omega
    · rw [hparts]
      rfl
  · simp only [hf, ne_eq, not_false_eq_true, if_true, if_false]
    refine ⟨hsane, ?_, ?_, fun k => by simpa using hlots k⟩
    · rw [List.filterMap_append, hparts, record_entry hm]
      simp only [allocated, entry, hdcost, List.filterMap_nil, List.nil_append, List.map_cons, List.map_nil,
        List.sum_cons, List.sum_nil]
      omega
    · rw [List.filterMap_append, hparts, record_entry hm]
      simp [Profit.proceeds, entry]

/-! ## A step of the reducer -/

theorem lotKey_market (hk : Holdings.lotKey f = some k) : f.market = some k.market := by
  simp only [Holdings.lotKey, Option.bind_eq_some_iff, Option.map_eq_some_iff] at hk
  obtain ⟨market, hm, outcomeId, -, rfl⟩ := hk
  exact hm

theorem pays_nothing (hb : f.kind ≠ .primaryBuy) (hl : f.kind ≠ .listingFilled) :
    paid owner f = 0 ∧ paidInto owner f = fun _ => 0 := by
  simp [paid, funext_iff, paidInto, purchase, selfFill, hb, hl]

theorem receives_nothing (hl : f.kind ≠ .listingFilled) (hp : f.kind ∉ payoutKinds) : received owner f = 0 := by
  simp [received, hl, hp]

/-- A fact that pays and receives nothing. -/
theorem accounted_other {out : Holdings × List Note} (hb : f.kind ≠ .primaryBuy) (hl : f.kind ≠ .listingFilled)
    (hp : f.kind ∉ payoutKinds) (h' : Accounted f h 0 0 (fun _ => 0) out) :
    Accounted f h (paid owner f) (received owner f) (paidInto owner f) out := by
  rw [(pays_nothing hb hl).1, (pays_nothing hb hl).2, receives_nothing hl hp]
  exact h'

theorem accounted_missing (hs : Sane h) (p : Prop) [Decidable p] (reason : String) :
    Accounted f h 0 0 (fun _ => 0) (h, if p then [.missing reason] else []) :=
  ⟨hs, by simp [missing_entry, allocated], by simp [missing_entry, Profit.proceeds], fun _ => by simp⟩

/-- A change of the bonds. -/
theorem accounted_bonds {h' : Holdings} (hs : Sane h) (he : h'.lots = h.lots) :
    Accounted f h 0 0 (fun _ => 0) (h', []) := by
  refine ⟨⟨?_, ?_, ?_⟩, ?_, rfl, fun k => ?_⟩
  · rw [he]
    exact hs.nodup
  · rw [he]
    exact hs.cost
  · rw [he]
    exact hs.empty
  · simp [allocated, lotsCost, he]
  · simp [Holdings.getLot, he]

theorem settleBond_lots (market : Address) (h : Holdings) : (h.settleBond market).lots = h.lots := by
  unfold Holdings.settleBond
  split <;> rfl

theorem bondCredited_lots (market : Address) (value : Nat) (h : Holdings) :
    (h.onBondCredited market value).lots = h.lots := by
  unfold Holdings.onBondCredited
  split
  · rfl
  · exact settleBond_lots _ _

theorem bondTimeoutFunded_lots (market : Address) (value : Nat) (h : Holdings) :
    (h.onBondTimeoutFunded market value).lots = h.lots := by
  unfold Holdings.onBondTimeoutFunded
  split
  · exact settleBond_lots _ _
  · rfl

section

variable {pay got : Int} {into : LotKey → Int}

/-- The rule of a handler for the facts of the owner: others change nothing. -/
theorem accounted_whenMine {g : Holdings → Holdings × List Note} (hs : Sane h)
    (hnone : Holdings.mine owner f = false → pay = 0 ∧ got = 0 ∧ into = fun _ => 0)
    (hg : Holdings.mine owner f = true → Accounted f h pay got into (g h)) :
    Accounted f h pay got into (Holdings.whenMine owner f g h) := by
  unfold Holdings.whenMine
  cases hm : Holdings.mine owner f with
  | true => exact hg hm
  | false =>
    obtain ⟨rfl, rfl, rfl⟩ := hnone hm
    exact accounted_nothing hs

theorem accounted_withLot {g : LotKey → Holdings → Holdings × List Note} (hs : Sane h)
    (hnone : Holdings.lotKey f = none → pay = 0 ∧ got = 0 ∧ into = fun _ => 0)
    (hg : ∀ k, Holdings.lotKey f = some k → Accounted f h pay got into (g k h)) :
    Accounted f h pay got into (Holdings.withLot f g h) := by
  unfold Holdings.withLot
  cases hk : Holdings.lotKey f with
  | some k => exact hg k hk
  | none =>
    obtain ⟨rfl, rfl, rfl⟩ := hnone hk
    exact accounted_nothing hs

theorem accounted_withMarket {g : Address → Holdings → Holdings × List Note} (hs : Sane h)
    (hnone : f.market = none → pay = 0 ∧ got = 0 ∧ into = fun _ => 0)
    (hg : ∀ market, f.market = some market → Accounted f h pay got into (g market h)) :
    Accounted f h pay got into (Holdings.withMarket f g h) := by
  unfold Holdings.withMarket
  cases hm : f.market with
  | some market => exact hg market hm
  | none =>
    obtain ⟨rfl, rfl, rfl⟩ := hnone hm
    exact accounted_nothing hs

end

theorem purchase_charged (hs : Sane h) (hheld : ∀ k, Holdings.lotKey f = some k → Held h k) (hp : Proper owner f)
    (hbuy : purchase owner f = true) (hgot : received owner f = 0) (hk : Holdings.lotKey f = some k) :
    Accounted f h (paid owner f) (received owner f) (paidInto owner f)
      (h.acquire k (f.units.getD 0) (some ((f.amount.getD 0 : Nat) : Int))) := by
  have h' := acquire_charged (lotKey_market hk) hs (hheld k hk) (hp.units hbuy)
  have hinto : paidInto owner f = fun k' => if k' = k then ((f.amount.getD 0 : Nat) : Int) else 0 := by
    funext k'
    simp only [paidInto, hbuy, hk, Option.some.injEq, Bool.true_and, decide_eq_true_eq]
    by_cases he : k = k'
    · rw [if_pos he, if_pos he.symm]
    · rw [if_neg he, if_neg fun h => he h.symm]
  rw [hgot, hinto]
  simp only [paid, hbuy, Bool.true_or, if_true]
  exact h'

theorem filled_charged (hs : Sane h) (hheld : ∀ k, Holdings.lotKey f = some k → Held h k) (hp : Proper owner f)
    (hf : f.kind = .listingFilled) (hk : Holdings.lotKey f = some k) :
    Accounted f h (paid owner f) (received owner f) (paidInto owner f)
      (h.onListingFilled owner f k (f.units.getD 0) (f.amount.getD 0)) := by
  have hm := lotKey_market hk
  cases hmine : Holdings.mine owner f <;> cases hother : Holdings.other owner f
  · rw [filled_of_others _ _ _ _ hmine hother]
    have hpay : paid owner f = 0 ∧ received owner f = 0 ∧ paidInto owner f = fun _ => 0 := by
      simp [paid, received, funext_iff, paidInto, purchase, selfFill, hf, hmine, hother, payoutKinds]
    rw [hpay.1, hpay.2.1, hpay.2.2]
    exact accounted_nothing hs
  · rw [filled_sale _ _ _ _ hmine hother]
    have hpay : paid owner f = 0 ∧ received owner f = (f.extra.sellerProceeds.getD 0 : Nat) ∧
      paidInto owner f = fun _ => 0 := by
      simp [paid, received, funext_iff, paidInto, purchase, selfFill, hf, hmine, hother]
    rw [hpay.1, hpay.2.1, hpay.2.2]
    exact sale_charged hm hs (hheld k hk) _
  · rw [filled_purchase _ _ _ _ hmine hother]
    exact purchase_charged hs hheld hp (by simp [purchase, hf, hmine, hother])
      (by simp [received, hf, hother, payoutKinds]) hk
  · rw [filled_self _ _ _ _ hmine hother]
    have hpay : paid owner f = (f.amount.getD 0 : Nat) ∧ received owner f = (f.extra.sellerProceeds.getD 0 : Nat) ∧
        paidInto owner f = fun _ => 0 := by
      simp [paid, received, funext_iff, paidInto, purchase, selfFill, hf, hmine, hother]
    rw [hpay.1, hpay.2.1, hpay.2.2]
    exact selfFill_charged hm hs (hheld k hk) _ _

/-- A payout without shares is all gain. -/
theorem bonus_charged {market : Address} (hm : f.market = some market) (hs : Sane h) (value : Nat) :
    Accounted f h 0 value (fun _ => 0) (h, [.record value ⟨0, true, none⟩ f.outcomeId]) := by
  refine ⟨hs, ?_, ?_, fun _ => by simp⟩
  · rw [record_entry hm]
    simp [allocated, entry]
  · rw [record_entry hm]
    simp [Profit.proceeds, entry]

theorem listing_charged (hs : Sane h) (hk : Held h k) (units : Nat) :
    Accounted f h 0 0 (fun _ => 0) (h.onListingCreated k units) ∧
      Accounted f h 0 0 (fun _ => 0) (h.onListingClosed k units) := by
  constructor
  · exact accounted_change (g := fun lot => lot.lock units) hs hk (fun _ => rfl) (fun _ => rfl) (fun _ => rfl)
      (missing_entry ((h.getLot k).units < (h.getLot k).escrow + units) _)
  · exact accounted_change (g := fun lot => lot.unlock units) hs hk (fun _ => rfl) (fun _ => rfl) (fun _ => rfl)
      (missing_entry ((h.getLot k).escrow < units) _)

theorem payout_charged (hs : Sane h) (hp : Proper owner f) (hf : f.kind = .winnerClaimed ∨ f.kind = .refunded)
    (hclean : ∀ n ∈ (Holdings.whenMine owner f (Holdings.withMarket f fun market =>
      Holdings.onBurn f market (f.units.getD 0) (f.amount.getD 0)) h).2, Clean f n) :
    Accounted f h (paid owner f) (received owner f) (paidInto owner f)
      (Holdings.whenMine owner f (Holdings.withMarket f fun market =>
      Holdings.onBurn f market (f.units.getD 0) (f.amount.getD 0)) h) := by
  have hkinds : f.kind ≠ .primaryBuy ∧ f.kind ≠ .listingFilled ∧ f.kind ∈ payoutKinds ∧ f.kind ≠ .losingBurned := by
    rcases hf with hf | hf <;> simp [hf, payoutKinds]
  obtain ⟨hbuy, hfill, hpayout, hburn⟩ := hkinds
  rw [(pays_nothing hbuy hfill).1, (pays_nothing hbuy hfill).2]
  refine accounted_whenMine hs (fun hm => ?_) fun hmine =>
    accounted_withMarket hs (fun hm => absurd hm (hp.market hpayout hmine)) ?_
  · simp [received, hfill, hm]
  · intro market hm
    have hgot : received owner f = (f.amount.getD 0 : Nat) := by simp [received, hfill, hpayout, hmine]
    simp only [Holdings.whenMine, hmine, if_true, Holdings.withMarket, hm] at hclean
    rw [hgot]
    simpa [hburn] using burn_charged hm hs _ _ hclean

theorem bonusFact_charged (hs : Sane h) (hp : Proper owner f) (hf : f.kind = .earlyBirdClaimed ∨
    f.kind = .timeoutClaimed) :
    Accounted f h (paid owner f) (received owner f) (paidInto owner f)
      (h, if Holdings.mine owner f then [.record (f.amount.getD 0) ⟨0, true, none⟩ f.outcomeId] else []) := by
  have hkinds : f.kind ≠ .primaryBuy ∧ f.kind ≠ .listingFilled ∧ f.kind ∈ payoutKinds := by
    rcases hf with hf | hf <;> simp [hf, payoutKinds]
  obtain ⟨hbuy, hfill, hpayout⟩ := hkinds
  rw [(pays_nothing hbuy hfill).1, (pays_nothing hbuy hfill).2]
  cases hmine : Holdings.mine owner f with
  | true =>
    obtain ⟨market, hm⟩ := Option.ne_none_iff_exists'.mp (hp.market hpayout hmine)
    have hgot : received owner f = (f.amount.getD 0 : Nat) := by simp [received, hfill, hpayout, hmine]
    rw [hgot]
    exact bonus_charged hm hs _
  | false =>
    have hgot : received owner f = 0 := by simp [received, hfill, hmine]
    rw [hgot]
    exact accounted_nothing hs

/-- What a fact pays, receives and pays into its lot is accounted for. -/
theorem step_accounted (hs : Sane h) (hp : Proper owner f) (hn : NoTransfer owner f)
    (hclean : ∀ n ∈ (h.step owner f).2, Clean f n) :
    Accounted f h (paid owner f) (received owner f) (paidInto owner f) (h.step owner f) := by
  -- the lot of the fact is opened first, which changes no cost
  obtain ⟨h₀, hh₀, hs₀, hcost, hget, hheld⟩ : ∃ h₀, h₀ = (Holdings.lotKey f).elim h h.open ∧ Sane h₀ ∧
    lotsCost h₀ = lotsCost h ∧
      (∀ k, h₀.getLot k = h.getLot k) ∧ ∀ k, Holdings.lotKey f = some k → Held h₀ k := by
    refine ⟨_, rfl, ?_⟩
    cases hk : Holdings.lotKey f with
    | none => exact ⟨hs, rfl, fun _ => rfl, fun k hk => by cases hk⟩
    | some k =>
      refine ⟨sane_open hs k, lotsCost_open h k, getLot_open h k, ?_⟩
      rintro _ ⟨⟩
      exact held_open h k
  suffices hstep : Accounted f h₀ (paid owner f) (received owner f) (paidInto owner f) (h.step owner f) by
    refine ⟨hstep.sane, by rw [← hcost]; exact hstep.charged, hstep.proceeds, fun k => ?_⟩
    rw [← hget k]
    exact hstep.lots k
  unfold Holdings.step at hclean ⊢
  dsimp only at hclean ⊢
  rw [← hh₀] at hclean ⊢
  have hzero : (0 : Int) = 0 ∧ (0 : Int) = 0 ∧ (fun _ : LotKey => (0 : Int)) = fun _ => 0 := ⟨rfl, rfl, rfl⟩
  cases hf : f.kind <;> simp only [hf] at hclean ⊢
  case coverageGap =>
    exact accounted_other (by simp [hf]) (by simp [hf]) (by simp [hf, payoutKinds]) (accounted_missing hs₀ _ _)
  case primaryBuy =>
    refine accounted_whenMine hs₀ (fun hm => ?_) fun hm => ?_
    · simp [paid, received, funext_iff, paidInto, purchase, selfFill, hf, hm, payoutKinds]
    · have hbuy : purchase owner f = true := by simp [purchase, hf, hm]
      refine accounted_withLot hs₀ (fun hk => absurd hk (hp.lot (.inl hbuy))) fun k hk => ?_
      exact purchase_charged hs₀ hheld hp hbuy (by simp [received, hf, payoutKinds]) hk
  case listingCreated =>
    refine accounted_other (by simp [hf]) (by simp [hf]) (by simp [hf, payoutKinds]) ?_
    exact accounted_whenMine hs₀ (fun _ => hzero) fun _ => accounted_withLot hs₀ (fun _ => hzero) fun k hk =>
      (listing_charged hs₀ (hheld k hk) _).1
  case listingCancelled =>
    refine accounted_other (by simp [hf]) (by simp [hf]) (by simp [hf, payoutKinds]) ?_
    exact accounted_whenMine hs₀ (fun _ => hzero) fun _ => accounted_withLot hs₀ (fun _ => hzero) fun k hk =>
      (listing_charged hs₀ (hheld k hk) _).2
  case listingReturned =>
    refine accounted_other (by simp [hf]) (by simp [hf]) (by simp [hf, payoutKinds]) ?_
    exact accounted_whenMine hs₀ (fun _ => hzero) fun _ => accounted_withLot hs₀ (fun _ => hzero) fun k hk =>
      (listing_charged hs₀ (hheld k hk) _).2
  case listingFilled =>
    refine accounted_withLot hs₀ (fun hk => ?_) fun k hk => filled_charged hs₀ hheld hp hf hk
    -- without a lot the account is on neither side
    have hother : Holdings.other owner f = false := by
      by_contra ho
      exact hp.lot (.inr ⟨hf, by simpa using ho⟩) hk
    have hmine : Holdings.mine owner f = false := by
      by_contra hm
      exact hp.lot (.inl (by simpa [purchase, hf, hother] using hm)) hk
    simp [paid, received, funext_iff, paidInto, purchase, selfFill, hf, hmine, hother, payoutKinds]
  case shareTransfer =>
    refine accounted_other (by simp [hf]) (by simp [hf]) (by simp [hf, payoutKinds]) ?_
    refine accounted_withLot hs₀ (fun _ => hzero) fun k hk => ?_
    rw [transferred_unmoved _ _ _ ((hn hf).1.trans (hn hf).2.symm)]
    exact accounted_nothing hs₀
  case marketResolved =>
    refine accounted_other (by simp [hf]) (by simp [hf]) (by simp [hf, payoutKinds]) ?_
    exact accounted_withLot hs₀ (fun _ => hzero) fun k hk => resolved_charged (lotKey_market hk) hs₀ _
  case winnerClaimed => exact payout_charged hs₀ hp (.inl hf) hclean
  case refunded => exact payout_charged hs₀ hp (.inr hf) hclean
  case losingBurned =>
    refine accounted_other (by simp [hf]) (by simp [hf]) (by simp [hf, payoutKinds]) ?_
    refine accounted_whenMine hs₀ (fun _ => hzero) fun hmine => accounted_withMarket hs₀ (fun _ => hzero)
      fun market hm => ?_
    simp only [Holdings.whenMine, hmine, if_true, Holdings.withMarket, hm] at hclean
    simpa [hf] using burn_charged hm hs₀ _ _ hclean
  case earlyBirdClaimed => exact bonusFact_charged hs₀ hp (.inl hf)
  case timeoutClaimed => exact bonusFact_charged hs₀ hp (.inr hf)
  case bondLocked =>
    refine accounted_other (by simp [hf]) (by simp [hf]) (by simp [hf, payoutKinds]) ?_
    exact accounted_whenMine hs₀ (fun _ => hzero) fun _ => accounted_withMarket hs₀ (fun _ => hzero) fun _ _ =>
      accounted_bonds hs₀ rfl
  case bondCredited =>
    refine accounted_other (by simp [hf]) (by simp [hf]) (by simp [hf, payoutKinds]) ?_
    exact accounted_whenMine hs₀ (fun _ => hzero) fun _ => accounted_withMarket hs₀ (fun _ => hzero) fun _ _ =>
      accounted_bonds hs₀ (bondCredited_lots _ _ _)
  case bondTimeoutFunded =>
    refine accounted_other (by simp [hf]) (by simp [hf]) (by simp [hf, payoutKinds]) ?_
    exact accounted_withMarket hs₀ (fun _ => hzero) fun _ _ => accounted_bonds hs₀ (bondTimeoutFunded_lots _ _ _)
  case bondClaimed =>
    refine accounted_other (by simp [hf]) (by simp [hf]) (by simp [hf, payoutKinds]) ?_
    exact accounted_whenMine hs₀ (fun _ => hzero) fun _ => accounted_bonds hs₀ rfl
  all_goals exact accounted_other (by simp [hf]) (by simp [hf]) (by simp [hf, payoutKinds]) (accounted_nothing hs₀)

end

end Profit

end Cpredict
