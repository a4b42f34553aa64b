import Cpredict.Profit.Order

/-!
# Windows and markets

What a fact does to the holdings does not depend on the options, and neither do the entries that it would write. The
options only select among them (`after_entries`): the entries of a window are those of its time, those of a set of
markets are those of its markets. So the profit of a period is the sum of the profits of its parts, and that of a
roster the sum of those of its parts.
-/

namespace Cpredict

namespace Profit

section

variable (owner : Address)

/-- The entry that a note writes when nothing is filtered. -/
def Note.entry (f : LedgerFact) : Note → Option PnlEntry
  | .missing _ => none
  | .record proceeds d outcomeId => f.market.map fun market => Profit.entry f market proceeds d outcomeId

/-- The entries of a fact. -/
def entriesOf (h : Holdings) (f : LedgerFact) : List PnlEntry := (h.step owner f).2.filterMap (Note.entry f)

def holdingsAfter (h : Holdings) (l : List LedgerFact) : Holdings := l.foldl (fun h f => (h.step owner f).1) h

/-- The entries of a history. -/
def entriesAfter : Holdings → List LedgerFact → List PnlEntry
  | _, [] => []
  | h, f :: l => entriesOf owner h f ++ entriesAfter (h.step owner f).1 l

theorem entriesAfter_append (h : Holdings) (l l' : List LedgerFact) :
    entriesAfter owner h (l ++ l') = entriesAfter owner h l ++ entriesAfter owner (holdingsAfter owner h l) l' := by
  induction l generalizing h with
  | nil => rfl
  | cons f l ih => rw [List.cons_append, entriesAfter, entriesAfter, ih, List.append_assoc]; rfl

/-- An entry has the time and the market of its fact. -/
theorem mem_entriesOf {h : Holdings} {f : LedgerFact} {e : PnlEntry} (he : e ∈ entriesOf owner h f) :
    e.timestamp = f.timestamp ∧ f.market = some e.market := by
  obtain ⟨n, -, hn⟩ := List.mem_filterMap.mp he
  cases n with
  | missing reason => cases hn
  | record proceeds d outcomeId =>
    obtain ⟨market, hm, rfl⟩ := Option.map_eq_some_iff.mp hn
    exact ⟨rfl, hm⟩

theorem mem_entriesAfter {h : Holdings} {l : List LedgerFact} {e : PnlEntry} (he : e ∈ entriesAfter owner h l) :
    ∃ f ∈ l, e.timestamp = f.timestamp ∧ f.market = some e.market := by
  induction l generalizing h with
  | nil => cases he
  | cons f l ih =>
    rcases List.mem_append.mp he with he | he
    · exact ⟨f, List.mem_cons_self, mem_entriesOf owner he⟩
    · obtain ⟨g, hg, h⟩ := ih he
      exact ⟨g, List.mem_cons_of_mem f hg, h⟩

end

/-! ## Fills, transfers and burns -/

section

variable {owner : Address} {f : LedgerFact} (k : LotKey) (units value : Nat) (h : Holdings)

theorem filled_self (hm : Holdings.mine owner f = true) (ho : Holdings.other owner f = true) :
    h.onListingFilled owner f k units value = h.onSelfFill f k units value := by
  simp [Holdings.onListingFilled, hm, ho]

theorem filled_sale (hm : Holdings.mine owner f = false) (ho : Holdings.other owner f = true) :
    h.onListingFilled owner f k units value = h.onSale f k units := by
  simp [Holdings.onListingFilled, hm, ho]

theorem filled_purchase (hm : Holdings.mine owner f = true) (ho : Holdings.other owner f = false) :
    h.onListingFilled owner f k units value = h.acquire k units (some value) := by
  simp [Holdings.onListingFilled, hm, ho]

theorem filled_of_others (hm : Holdings.mine owner f = false) (ho : Holdings.other owner f = false) :
    h.onListingFilled owner f k units value = (h, []) := by
  simp [Holdings.onListingFilled, hm, ho]

theorem transferred_given (hm : Holdings.mine owner f = true) (ho : Holdings.other owner f = false) :
    h.onShareTransfer owner f k units = (h.dispose k units false).2 := by
  simp [Holdings.onShareTransfer, hm, ho]

theorem transferred_taken (hm : Holdings.mine owner f = false) (ho : Holdings.other owner f = true) :
    h.onShareTransfer owner f k units = h.acquire k units none := by
  simp [Holdings.onShareTransfer, hm, ho]

theorem transferred_unmoved (he : Holdings.mine owner f = Holdings.other owner f) :
    h.onShareTransfer owner f k units = (h, []) := by
  cases ho : Holdings.other owner f <;> rw [ho] at he <;> simp [Holdings.onShareTransfer, he, ho]

theorem dispose_entries (escrow : Bool) : (h.dispose k units escrow).2.2.filterMap (Note.entry f) = [] := by
  unfold Holdings.dispose
  dsimp only
  split <;> rfl

/-- The parts of a burn write no entries. -/
theorem foldl_part_entries (market : Address) (parts : List Part) (b : Holdings.Burn) :
    (parts.foldl (Holdings.Burn.part market) b).notes.filterMap (Note.entry f) = b.notes.filterMap (Note.entry f) := by
  induction parts generalizing b with
  | nil => rfl
  | cons p parts ih =>
    rw [List.foldl_cons, ih]
    unfold Holdings.Burn.part
    split
    · simp only [List.filterMap_append, dispose_entries, List.append_nil]
    · rfl

end

/-! ## What the options select -/

/-- The entry is in the window, and in one of the markets. -/
def shown (o : PnlOptions) (e : PnlEntry) : Bool :=
  o.since.all (fun t => decide (t ≤ e.timestamp)) && o.before.all (fun t => decide (e.timestamp < t)) &&
    o.markets.all fun markets => decide (e.market ∈ markets)

section

variable (names : Address → String) (o : PnlOptions) (owner : Address)

theorem shown_entry {f : LedgerFact} {market : Address} (hm : f.market = some market) (proceeds : Nat) (d : Disposal)
    (outcomeId : Option Nat) : shown o (entry f market proceeds d outcomeId) = included o f := by
  simp only [shown, included, relevantMarket, entry, hm, Option.any_some]
  rfl

theorem missing_entries (f : LedgerFact) (reason : String) (r : Report) :
    (missing names o f reason r).entries = r.entries := by
  unfold missing addReason
  split_ifs <;> rfl

/-- A note writes its entry if the options show it. -/
theorem take_entries (f : LedgerFact) (r : Report) (n : Note) :
    (take names o f r n).entries = r.entries ++ (n.entry f).toList.filter (shown o) := by
  cases n with
  | missing reason => simp only [take, missing_entries, Note.entry, Option.toList_none, List.filter_nil,
      List.append_nil]
  | record proceeds d outcomeId =>
    unfold take record
    cases hm : f.market with
    | none => simp [Note.entry, hm]
    | some market =>
      have hshown := shown_entry o hm proceeds d outcomeId
      simp only [Note.entry, hm, Option.map_some, Option.toList_some]
      cases hi : included o f with
      | false => simp [hshown, hi]
      | true =>
        rw [List.filter_cons_of_pos (by rw [hshown, hi]), List.filter_nil]
        simp only [Bool.true_eq_false, if_false]
        split_ifs
        · rfl
        · rw [missing_entries]

theorem flows_entries (f : LedgerFact) (r : Report) : (flows o owner f r).entries = r.entries := by
  unfold flows
  cases f.kind <;> dsimp only <;> split_ifs <;> rfl

theorem foldl_take_entries (f : LedgerFact) (notes : List Note) (r : Report) :
    (notes.foldl (take names o f) r).entries = r.entries ++ (notes.filterMap (Note.entry f)).filter (shown o) := by
  induction notes generalizing r with
  | nil => simp
  | cons n notes ih =>
    rw [List.foldl_cons, ih, take_entries, List.append_assoc]
    cases he : n.entry f <;> simp [he, List.filter_cons]
    split_ifs <;> rfl

theorem foldl_apply (l : List LedgerFact) (st : State) :
    (l.foldl (State.apply names o owner) st).holdings = holdingsAfter owner st.holdings l ∧
      (l.foldl (State.apply names o owner) st).report.entries =
        st.report.entries ++ (entriesAfter owner st.holdings l).filter (shown o) := by
  induction l generalizing st with
  | nil => exact ⟨rfl, by simp [entriesAfter]⟩
  | cons f l ih =>
    obtain ⟨hh, he⟩ := ih (st.apply names o owner f)
    refine ⟨hh, ?_⟩
    rw [List.foldl_cons, he]
    simp only [State.apply, flows_entries, foldl_take_entries]
    rw [entriesAfter, List.filter_append, List.append_assoc]
    rfl

/-- The entries that are reported: those of the history that the options show. -/
theorem after_entries (l : List LedgerFact) :
    (State.after names o owner l).report.entries = (entriesAfter owner .empty l).filter (shown o) := by
  rw [State.after, (foldl_apply names o owner l _).2]
  rfl

theorem computePnl_eq {input : List LedgerFact} {p : Pnl} (h : computePnl names o owner input = some p) :
    p = (State.after names o owner (history o input)).finish names o owner := by
  unfold computePnl Pnl.parse at h
  rw [reduce_finish] at h
  split_ifs at h
  exact (Option.some.inj h).symm

theorem computePnl_entries {input : List LedgerFact} {p : Pnl} (h : computePnl names o owner input = some p) :
    p.entries = (entriesAfter owner .empty (history o input)).filter (shown o) := by
  rw [computePnl_eq names o owner h]
  exact after_entries names o owner _

theorem computePnl_net {input : List LedgerFact} {p : Pnl} (h : computePnl names o owner input = some p) :
    p.knownRealizedNet = netOf p.entries := by
  rw [computePnl_eq names o owner h]
  rfl

end

theorem netOf_append (l l' : List PnlEntry) : netOf (l ++ l') = netOf l + netOf l' := by simp [netOf]

/-! ## Windows -/

/-- Timestamps do not decrease along the chain. -/
def Timed (input : List LedgerFact) : Prop := ∀ f ∈ input, ∀ g ∈ input, Before f g → f.timestamp ≤ g.timestamp

theorem filter_split {l : List LedgerFact} (hl : l.Pairwise fun f g => f.timestamp ≤ g.timestamp) {b c : Nat}
    (hbc : b ≤ c) :
    l.filter (fun f => decide (f.timestamp < c)) =
      l.filter (fun f => decide (f.timestamp < b)) ++ l.filter fun f => decide (b ≤ f.timestamp ∧ f.timestamp < c) := by
  induction l with
  | nil => rfl
  | cons f l ih =>
    rw [List.pairwise_cons] at hl
    by_cases hb : f.timestamp < b
    · rw [List.filter_cons_of_pos (by rw [decide_eq_true_eq]; omega),
        List.filter_cons_of_pos (by rw [decide_eq_true_eq]; omega),
        List.filter_cons_of_neg (by rw [decide_eq_true_eq]; omega), ih hl.2, List.cons_append]
    · -- from the first fact of the second window on, all are in it or after it
      have hnone : l.filter (fun f => decide (f.timestamp < b)) = [] := by
        rw [List.filter_eq_nil_iff]
        intro g hg
        have := hl.1 g hg
        rw [decide_eq_true_eq]
        omega
      have hsame : l.filter (fun f => decide (f.timestamp < c)) = l.filter fun f => decide (b ≤ f.timestamp ∧
        f.timestamp < c) := by
        rw [ih hl.2, hnone, List.nil_append]
      have hskip : (f :: l).filter (fun f => decide (f.timestamp < b)) = [] := by
        rw [List.filter_cons_of_neg (by rw [decide_eq_true_eq]; omega), hnone]
      have hdec : decide (f.timestamp < c) = decide (b ≤ f.timestamp ∧ f.timestamp < c) := by
        rw [decide_eq_decide]
        omega
      rw [hskip, List.nil_append, List.filter_cons, List.filter_cons, hsame, hdec]

theorem firsts_timed {input : List LedgerFact} (ht : Timed input) :
    (firsts [] (sortFacts input)).Pairwise fun f g => f.timestamp ≤ g.timestamp := by
  refine ((sortFacts_sorted input).sublist (firsts_sublist [] _)).imp_of_mem fun {f g} hf hg hfg => ?_
  exact ht f (mem_sortFacts.mp ((firsts_sublist [] _).subset hf)) g
    (mem_sortFacts.mp ((firsts_sublist [] _).subset hg)) hfg

/-- The window of the options. -/
def PnlOptions.window (o : PnlOptions) (a b : Nat) : PnlOptions := { o with since := some a, before := some b }

theorem history_window (o : PnlOptions) (a b : Nat) (input : List LedgerFact) :
    history (o.window a b) input = (firsts [] (sortFacts input)).filter fun f => decide (f.timestamp < b) := by
  simp [history, PnlOptions.window]

theorem shown_window (o : PnlOptions) (a b : Nat) (e : PnlEntry) :
    shown (o.window a b) e = (decide (a ≤ e.timestamp ∧ e.timestamp < b) && o.markets.all fun markets =>
      decide (e.market ∈ markets)) := by
  simp [shown, PnlOptions.window, Bool.decide_and]

/-- The entries of a window are those of its parts, one after the other. -/
theorem entries_window (o : PnlOptions) (owner : Address) {input : List LedgerFact} (ht : Timed input)
    {a b c : Nat} (hab : a ≤ b)
    (hbc : b ≤ c) :
    (entriesAfter owner .empty (history (o.window a c) input)).filter (shown (o.window a c)) =
      (entriesAfter owner .empty (history (o.window a b) input)).filter (shown (o.window a b)) ++
        (entriesAfter owner .empty (history (o.window b c) input)).filter (shown (o.window b c)) := by
  rw [history_window, history_window, history_window, filter_split (firsts_timed ht) hbc, entriesAfter_append,
    List.filter_append,
    List.filter_append]
  generalize hX : (firsts [] (sortFacts input)).filter (fun f => decide (f.timestamp < b)) = X
  generalize hY : (firsts [] (sortFacts input)).filter (fun f => decide (b ≤ f.timestamp ∧ f.timestamp < c)) = Y
  have hEX : ∀ e ∈ entriesAfter owner .empty X, e.timestamp < b := by
    intro e he
    obtain ⟨f, hf, ht, -⟩ := mem_entriesAfter owner he
    rw [← hX] at hf
    have := of_decide_eq_true (List.mem_filter.mp hf).2
    omega
  have hEY : ∀ e ∈ entriesAfter owner (holdingsAfter owner .empty X) Y, b ≤ e.timestamp ∧ e.timestamp < c := by
    intro e he
    obtain ⟨f, hf, ht, -⟩ := mem_entriesAfter owner he
    rw [← hY] at hf
    have := of_decide_eq_true (List.mem_filter.mp hf).2
    omega
  have hfirst : (entriesAfter owner .empty X).filter (shown (o.window a c)) =
      (entriesAfter owner .empty X).filter (shown (o.window a b)) := by
    refine List.filter_congr fun e he => ?_
    have := hEX e he
    rw [shown_window, shown_window]
    congr 1
    rw [decide_eq_decide]
    omega
  have hnone : (entriesAfter owner .empty X).filter (shown (o.window b c)) = [] := by
    rw [List.filter_eq_nil_iff]
    intro e he
    have := hEX e he
    rw [shown_window, Bool.and_eq_true_iff, decide_eq_true_eq]
    omega
  have hsecond : (entriesAfter owner (holdingsAfter owner .empty X) Y).filter (shown (o.window a c)) =
      (entriesAfter owner (holdingsAfter owner .empty X) Y).filter (shown (o.window b c)) := by
    refine List.filter_congr fun e he => ?_
    have := hEY e he
    rw [shown_window, shown_window]
    congr 1
    rw [decide_eq_decide]
    omega
  rw [hfirst, hnone, List.nil_append, hsecond]

/-! ## Markets -/

/-- The markets of the options. -/
def PnlOptions.only (o : PnlOptions) (markets : Finset Address) : PnlOptions := { o with markets := some markets }

theorem shown_only (o : PnlOptions) (markets : Finset Address) (e : PnlEntry) :
    shown (o.only markets) e =
      (o.since.all (fun t => decide (t ≤ e.timestamp)) && o.before.all (fun t => decide (e.timestamp < t)) &&
        decide (e.market ∈ markets)) := by
  simp [shown, PnlOptions.only]

/-- The net of a union of disjoint sets of markets is the sum of theirs. -/
theorem netOf_union (o : PnlOptions) {M N : Finset Address} (hd : Disjoint M N) (l : List PnlEntry) :
    netOf (l.filter (shown (o.only (M ∪ N)))) = netOf (l.filter (shown (o.only M))) + netOf
      (l.filter (shown (o.only N))) := by
  induction l with
  | nil => rfl
  | cons e l ih =>
    have hnot : e.market ∈ M → e.market ∉ N := fun hM hN => (Finset.disjoint_left.mp hd) hM hN
    simp only [List.filter_cons, shown_only, Finset.mem_union] at ih ⊢
    by_cases hM : e.market ∈ M
    · have hN := hnot hM
      simp only [hM, hN, or_false, decide_true, decide_false, Bool.and_true, Bool.and_false,
        Bool.false_eq_true, if_false]
      split_ifs
      · simp only [netOf, List.map_cons, List.sum_cons] at ih ⊢
        rw [ih]
        ring
      · exact ih
    · simp only [hM, false_or, decide_false, Bool.and_false, Bool.false_eq_true, if_false]
      split_ifs
      · simp only [netOf, List.map_cons, List.sum_cons] at ih ⊢
        rw [ih]
        ring
      · exact ih

end Profit

end Cpredict
