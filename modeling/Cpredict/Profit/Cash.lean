import Cpredict.Profit.Costs

/-!
# The cash identity

Over a whole history without open reasons every step is accounted for, so the net that is reported is what the
account received less what it paid, with the costs of its remaining lots put back. Two kinds of facts that the chain
does not produce break the identity: a payment for no shares, whose cost no lot shows, and a payout that names no
market, which no entry shows.
-/

namespace Cpredict

namespace Profit

/-! ## Runs without reasons -/

/-- No fact of the history leaves anything open. -/
def Clear (owner : Address) : Holdings → List LedgerFact → Prop
  | _, [] => True
  | h, f :: l => (∀ n ∈ (h.step owner f).2, Clean f n) ∧ Clear owner (h.step owner f).1 l

section

variable {owner : Address} {h : Holdings}

theorem entriesOf_amount {f : LedgerFact} (hclean : ∀ n ∈ (h.step owner f).2, Clean f n) :
    netOf (entriesOf owner h f) = proceeds (entriesOf owner h f) - allocated (entriesOf owner h f) := by
  unfold entriesOf
  generalize (h.step owner f).2 = notes at hclean
  induction notes with
  | nil => rfl
  | cons n notes ih =>
    have hrest := ih fun n hn => hclean n (List.mem_cons_of_mem _ hn)
    have hn := hclean n List.mem_cons_self
    cases n with
    | missing reason => exact hn.elim
    | record value d outcomeId =>
      cases hm : f.market with
      | none => simpa [Note.entry, hm] using hrest
      | some market =>
        have hd : d.complete = true := hn (by simp [hm])
        have hhead : (Note.record value d outcomeId).entry f = some (entry f market value d outcomeId) := by
          simp [Note.entry, hm]
        rw [List.filterMap_cons_some hhead]
        simp only [netOf, proceeds, allocated, List.map_cons, List.sum_cons] at hrest ⊢
        rw [hrest]
        simp only [entry, hd, if_true, Option.getD_some]
        ring

/-- What holds after a history that is proper, without transfers and clear. -/
structure Books (owner : Address) (h : Holdings) (l : List LedgerFact) : Prop where
  sane : Sane (holdingsAfter owner h l)
  charged : allocated (entriesAfter owner h l) + lotsCost (holdingsAfter owner h l) = lotsCost h +
    (l.map (paid owner)).sum
  proceeds : Profit.proceeds (entriesAfter owner h l) = (l.map (received owner)).sum
  net : netOf (entriesAfter owner h l) = Profit.proceeds (entriesAfter owner h l) - allocated (entriesAfter owner h l)
  lots : ∀ k, ((holdingsAfter owner h l).getLot k).cost ≤ (h.getLot k).cost + (l.map fun f => paidInto owner f k).sum

theorem books (hs : Sane h) {l : List LedgerFact} (hp : ∀ f ∈ l, Proper owner f) (hn : ∀ f ∈ l, NoTransfer owner f)
    (hc : Clear owner h l) : Books owner h l := by
  induction l generalizing h with
  | nil => exact ⟨hs, by simp [allocated, entriesAfter, holdingsAfter], rfl, rfl, fun _ => by simp [holdingsAfter]⟩
  | cons f l ih =>
    have hstep := step_accounted hs (hp f List.mem_cons_self) (hn f List.mem_cons_self) hc.1
    have hrest := ih hstep.sane (fun g hg => hp g (List.mem_cons_of_mem f hg))
      (fun g hg => hn g (List.mem_cons_of_mem f hg)) hc.2
    have hcharged := hstep.charged
    have hproceeds := hstep.proceeds
    have hamount := entriesOf_amount hc.1
    refine ⟨hrest.sane, ?_, ?_, ?_, fun k => ?_⟩
    · have := hrest.charged
      rw [entriesAfter, allocated_append, List.map_cons, List.sum_cons]
      simp only [entriesOf, holdingsAfter, List.foldl_cons] at hcharged this ⊢
      omega
    · rw [entriesAfter, proceeds_append, List.map_cons, List.sum_cons, hrest.proceeds]
      simp only [entriesOf] at hproceeds ⊢
      omega
    · have := hrest.net
      rw [entriesAfter, netOf_append, allocated_append, proceeds_append]
      omega
    · have hlot := hstep.lots k
      have := hrest.lots k
      rw [List.map_cons, List.sum_cons]
      simp only [holdingsAfter, List.foldl_cons] at this ⊢
      omega

theorem clear_append {l l' : List LedgerFact} (hc : Clear owner h (l ++ l')) :
    Clear owner h l ∧ Clear owner (holdingsAfter owner h l) l' := by
  induction l generalizing h with
  | nil => exact ⟨trivial, hc⟩
  | cons f l ih => exact ⟨⟨hc.1, (ih hc.2).1⟩, (ih hc.2).2⟩

end

/-! ## Reasons -/

/-- Without a window and for all markets. -/
def PnlOptions.whole (coverageComplete : Bool) : PnlOptions := ⟨coverageComplete, none, none, none⟩

section

variable (names : Address → String) (coverage : Bool) (owner : Address)

theorem missing_reasons (f : LedgerFact) (reason : String) (r : Report) :
    (missing names (.whole coverage) f reason r).reasons ≠ [] := by
  have hrelevant : relevantMarket (.whole coverage) f = true := rfl
  unfold missing addReason
  rw [if_pos hrelevant]
  split
  · rename_i hmem
    exact List.ne_nil_of_mem hmem
  · simp

/-- A report without reasons had none before, and takes only what is clean. -/
theorem take_reasons {f : LedgerFact} {r : Report} {n : Note} (h : (take names (.whole coverage) f r n).reasons = []) :
    r.reasons = [] ∧ Clean f n := by
  cases n with
  | missing reason => exact absurd h (missing_reasons names coverage f reason r)
  | record value d outcomeId =>
    unfold take record at h
    cases hm : f.market with
    | none =>
      simp only [hm] at h
      exact ⟨h, fun hne => absurd hm hne⟩
    | some market =>
      have hincluded : included (.whole coverage) f = true := rfl
      simp only [hm, hincluded, Bool.true_eq_false, if_false] at h
      split at h
      · rename_i hd
        exact ⟨h, fun _ => hd⟩
      · exact absurd h (missing_reasons names coverage f _ r)

theorem foldl_take_reasons {f : LedgerFact} {notes : List Note} {r : Report}
    (h : (notes.foldl (take names (.whole coverage) f) r).reasons = []) : r.reasons = [] ∧ ∀ n ∈ notes, Clean f n := by
  induction notes generalizing r with
  | nil => exact ⟨h, by simp⟩
  | cons n notes ih =>
    obtain ⟨hr, hn⟩ := ih h
    obtain ⟨hr, hc⟩ := take_reasons names coverage hr
    exact ⟨hr, by simpa using ⟨hc, hn⟩⟩

theorem flows_reasons (o : PnlOptions) (f : LedgerFact) (r : Report) : (flows o owner f r).reasons = r.reasons := by
  unfold flows
  cases f.kind <;> dsimp only <;> split_ifs <;> rfl

/-- A history that leaves no reasons is clear. -/
theorem clear_of_reasons {l : List LedgerFact} {st : State}
    (h : (l.foldl (State.apply names (.whole coverage) owner) st).report.reasons = []) :
    st.report.reasons = [] ∧ Clear owner st.holdings l := by
  induction l generalizing st with
  | nil => exact ⟨h, trivial⟩
  | cons f l ih =>
    obtain ⟨hr, hc⟩ := ih h
    simp only [State.apply, flows_reasons] at hr
    obtain ⟨hr, hn⟩ := foldl_take_reasons names coverage hr
    exact ⟨hr, hn, hc⟩

theorem finalReasons_nil {o : PnlOptions} {st : State} (h : finalReasons names o st = []) : st.report.reasons = [] := by
  unfold finalReasons at h
  generalize selectedLots o st = lots at h
  generalize st.report.reasons = reasons at h
  induction lots generalizing reasons with
  | nil => exact h
  | cons l lots ih =>
    have hr := ih _ h
    dsimp only at hr
    split at hr
    · split at hr
      · exact hr
      · simp at hr
    · exact hr

end

/-! ## The identity -/

theorem sum_filter_of_zero {α : Type} {l : List α} {p : α → Bool} {g : α → Int} (h : ∀ a ∈ l, p a = false → g a = 0) :
    ((l.filter p).map g).sum = (l.map g).sum := by
  induction l with
  | nil => rfl
  | cons a l ih =>
    have hl := ih fun b hb => h b (List.mem_cons_of_mem a hb)
    cases hp : p a with
    | true => rw [List.filter_cons_of_pos hp, List.map_cons, List.sum_cons, List.map_cons, List.sum_cons, hl]
    | false => rw [List.filter_cons_of_neg (by simp [hp]), List.map_cons, List.sum_cons, hl,
        h a List.mem_cons_self hp, zero_add]

/-- What a fact takes off a lot. -/
def charged (owner : Address) (h : Holdings) (f : LedgerFact) (k : LotKey) : Int :=
  (h.getLot k).cost + paidInto owner f k - ((h.step owner f).1.getLot k).cost

/-- A step of a complete history: its entries charge what it takes off the lots, no lot costs less than nothing, and
one without units costs nothing. -/
structure Settled (owner : Address) (h : Holdings) (f : LedgerFact) : Prop where
  entries : allocated (entriesOf owner h f) + lotsCost (h.step owner f).1 = lotsCost h + paid owner f
  charged : ∀ k, 0 ≤ charged owner h f k
  cost : ∀ k, 0 ≤ ((h.step owner f).1.getLot k).cost
  empty : ∀ k, ((h.step owner f).1.getLot k).units = 0 → ((h.step owner f).1.getLot k).cost = 0

theorem sane_empty : Sane .empty := ⟨List.nodup_nil, by simp [Holdings.empty], by simp [Holdings.empty]⟩

section

variable (names : Address → String) (coverage : Bool) (owner : Address)

/-- The history of all facts is the facts in their order. -/
theorem history_whole {input : List LedgerFact} (hid : (input.map LedgerFact.id).Nodup) :
    history (.whole coverage) input = sortFacts input := by
  have hn : ((sortFacts input).map LedgerFact.id).Nodup := ((sortFacts_perm input).map _).nodup_iff.mpr hid
  unfold history
  rw [firsts_of_nodup (by simp) hn]
  exact List.filter_eq_self.mpr fun _ _ => rfl

/-- A result that is complete comes of a clear history. -/
theorem clear_of_complete {input : List LedgerFact} (hid : (input.map LedgerFact.id).Nodup) {p : Pnl}
    (hp : computePnl names (.whole coverage) owner input = some p) (hc : p.complete = true) :
    p = (State.after names (.whole coverage) owner (sortFacts input)).finish names (.whole coverage) owner ∧
      Clear owner .empty (sortFacts input) := by
  have hfinish := computePnl_eq names _ owner hp
  rw [history_whole coverage hid] at hfinish
  refine ⟨hfinish, ?_⟩
  rw [hfinish] at hc
  exact (clear_of_reasons names coverage owner (finalReasons_nil names (List.isEmpty_iff.mp hc))).2

/-- **Profit is exact cash accounting.** For facts with different identities, proper trades and payouts, and no
transfers of shares of the account, a complete result has as its net what the account received less what it paid,
plus the costs of its lots. What is charged and what the lots still cost is what was paid, every lot costs between
nothing and what was paid for it, and so it is at every step: the entries of a fact charge what it takes off the
lots, and an empty lot costs nothing. -/
theorem computePnl_cash {input : List LedgerFact} (hid : (input.map LedgerFact.id).Nodup)
    (hproper : ∀ f ∈ input, Proper owner f)
    (hnone : ∀ f ∈ input, NoTransfer owner f) {p : Pnl} (hp : computePnl names (.whole coverage) owner input = some p)
    (hc : p.complete = true) :
    p.realizedNet = some ((input.map (received owner)).sum - (input.map (paid owner)).sum +
      (p.lots.map PnlLot.knownCost).sum) ∧
    allocated p.entries + (p.lots.map PnlLot.knownCost).sum = (input.map (paid owner)).sum ∧
    (∀ l ∈ p.lots, 0 ≤ l.knownCost ∧ l.knownCost ≤ (input.map fun f => paidInto owner f ⟨l.market, l.outcomeId⟩).sum) ∧
    ∀ pre f post, sortFacts input = pre ++ f :: post → Settled owner (holdingsAfter owner .empty pre) f := by
  obtain ⟨hfinish, hclear⟩ := clear_of_complete names coverage owner hid hp hc
  have hproper' : ∀ f ∈ sortFacts input, Proper owner f := fun f hf => hproper f (mem_sortFacts.mp hf)
  have hnone' : ∀ f ∈ sortFacts input, NoTransfer owner f := fun f hf => hnone f (mem_sortFacts.mp hf)
  have hb := books sane_empty hproper' hnone' hclear
  have hholdings : (State.after names (.whole coverage) owner (sortFacts input)).holdings = holdingsAfter owner .empty
    (sortFacts input) :=
    (foldl_apply names _ owner _ _).1
  have hentries : p.entries = entriesAfter owner .empty (sortFacts input) := by
    rw [hfinish]
    refine (after_entries names _ owner _).trans ?_
    exact List.filter_eq_self.mpr fun _ _ => rfl
  have hlots : p.lots = ((holdingsAfter owner .empty (sortFacts input)).lots.filter fun l => decide (0 < l.units)).map
    fun l =>
      ⟨l.key.market, l.key.outcomeId, l.units, l.escrow, l.cost, l.complete⟩ := by
    rw [hfinish, ← hholdings]
    simp only [State.finish, selectedLots]
    congr 2
    exact List.filter_eq_self.mpr fun _ _ => rfl
  have hcosts : (p.lots.map PnlLot.knownCost).sum = lotsCost (holdingsAfter owner .empty (sortFacts input)) := by
    rw [hlots, List.map_map]
    refine sum_filter_of_zero fun l hl hzero => ?_
    exact hb.sane.empty l hl (by simpa using hzero)
  have hsum : ∀ g : LedgerFact → Int, ((sortFacts input).map g).sum = (input.map g).sum := fun g =>
    ((sortFacts_perm input).map g).sum_eq
  have hcharged := hb.charged
  have hproceeds := hb.proceeds
  have hnet := hb.net
  have hstart : lotsCost .empty = 0 := rfl
  rw [hsum] at hcharged hproceeds
  refine ⟨?_, ?_, fun l hl => ?_, fun pre f post hsplit => ?_⟩
  · have hrealized : p.realizedNet = some (netOf p.entries) := by
      rw [hfinish] at hc ⊢
      simp only [State.finish] at hc ⊢
      rw [if_pos hc]
    rw [hrealized, hentries, hcosts]
    congr 1
    omega
  · rw [hentries, hcosts]
    omega
  · rw [hlots] at hl
    obtain ⟨lot, hlot, rfl⟩ := List.mem_map.mp hl
    have hmem := (List.mem_filter.mp hlot).1
    have hle := hb.lots lot.key
    rw [getLot_of_mem hb.sane hmem, hsum] at hle
    exact ⟨hb.sane.cost lot hmem, by simpa [Holdings.getLot, Holdings.empty, Table.find, Lot.fresh] using hle⟩
  · rw [hsplit] at hclear hproper' hnone'
    obtain ⟨hpre, hrest⟩ := clear_append hclear
    have hbpre := books sane_empty (fun g hg => hproper' g (List.mem_append_left _ hg))
      (fun g hg => hnone' g (List.mem_append_left _ hg)) hpre
    have hmem : f ∈ pre ++ f :: post := List.mem_append_right _ List.mem_cons_self
    have hstep := step_accounted hbpre.sane (hproper' f hmem) (hnone' f hmem) hrest.1
    refine ⟨hstep.charged, fun k => ?_, fun k => (hstep.sane.getLot k).1, fun k => (hstep.sane.getLot k).2⟩
    have := hstep.lots k
    unfold charged
    omega

end

/-! ## Facts that the chain does not produce -/

namespace Facts

def alice : Address := addr 1

def market : Address := addr 2

def noExtra : Extra := ⟨none, none, true, none, .unknown⟩

def result (facts : List LedgerFact) : Option Pnl := computePnl (fun _ => "m") (.whole true) alice facts

/-- Alice buys four shares for ten, and claims five for two of them. -/
def bought : List LedgerFact :=
  [⟨"a", .primaryBuy, 1, 0, 0, 0, 100, some market, some alice, none, some 0, some 4, some 10, noExtra⟩,
   ⟨"b", .winnerClaimed, 3, 0, 0, 0, 300, some market, some alice, none, some 0, some 2, some 5, noExtra⟩]

/-- A payment of ten for no shares. -/
def unitless : List LedgerFact :=
  [⟨"a", .primaryBuy, 1, 0, 0, 0, 100, some market, some alice, none, some 0, some 0, some 10, noExtra⟩]

/-- A reward of ten of no market. -/
def unplaced : List LedgerFact :=
  [⟨"a", .earlyBirdClaimed, 1, 0, 0, 0, 100, none, some alice, none, none, none, some 10, noExtra⟩]

/-- A fill of no lot in which Alice sells for ten. -/
def lotless : List LedgerFact :=
  [⟨"a", .listingFilled, 1, 0, 0, 0, 100, some market, some (addr 3), some alice, none, some 1, some 12,
    ⟨none, some 10, true, none, .unknown⟩⟩]

/-- No transfer of shares, and a complete result whose net is another. -/
def Breaks (facts : List LedgerFact) : Prop :=
  (facts.map LedgerFact.id).Nodup ∧ (∀ f ∈ facts, f.kind ≠ .shareTransfer) ∧ (result facts).any (fun p => p.complete &&
    decide (p.realizedNet ≠ some ((facts.map (received alice)).sum - (facts.map (paid alice)).sum +
      (p.lots.map PnlLot.knownCost).sum))) = true

instance (facts : List LedgerFact) : Decidable (Breaks facts) := inferInstanceAs (Decidable (_ ∧ _ ∧ _))

/-- The identity of the net fails where shares are paid that are none, and where a payout or a trade names no market
or outcome. -/
theorem computePnl_cash_fails : Breaks unitless ∧ Breaks unplaced ∧ Breaks lotless := by
  decide +kernel

theorem proper_bought : ∀ f ∈ bought, Proper alice f := by
  intro f hf
  simp only [bought, List.mem_cons, List.not_mem_nil, or_false] at hf
  rcases hf with rfl | rfl
  · exact ⟨by decide +kernel, by decide +kernel, by decide +kernel⟩
  · exact ⟨by decide +kernel, by decide +kernel, by decide +kernel⟩

theorem computePnl_cash_bought : ∃ p, result bought = some p ∧ p.realizedNet = some
    ((bought.map (received alice)).sum - (bought.map (paid alice)).sum + (p.lots.map PnlLot.knownCost).sum) := by
  obtain ⟨p, hp⟩ := Option.isSome_iff_exists.mp (by decide +kernel : (result bought).isSome = true)
  have hall : (result bought).any Pnl.complete = true := by decide +kernel
  have hcomplete : p.complete = true := by simpa [hp] using hall
  refine ⟨p, hp, (computePnl_cash (fun _ => "m") true alice (by decide +kernel) proper_bought ?_ hp hcomplete).1⟩
  intro f hf hkind
  simp only [bought, List.mem_cons, List.not_mem_nil, or_false] at hf
  rcases hf with rfl | rfl <;> cases hkind

end Facts

end Profit

end Cpredict
