import Cpredict.Profit.Reducer

/-!
# The order of delivery

The reducer sees the facts in the order of the chain, each identity once (`firsts`). Facts at one position of the
chain are the same fact, so that order and those facts depend only on which facts there are, and not on how often
and in which order they are given.
-/

namespace Cpredict

namespace Profit

/-! ## The order of the chain -/

/-- The comparison of the sort. -/
def Before (a b : LedgerFact) : Prop := financialOrder a b ≤ 0

instance : DecidableRel Before := fun a b => inferInstanceAs (Decidable (financialOrder a b ≤ 0))

theorem before_iff {a b : LedgerFact} : Before a b ↔ a.blockNumber < b.blockNumber ∨ a.blockNumber = b.blockNumber ∧
    (a.transactionIndex < b.transactionIndex ∨ a.transactionIndex = b.transactionIndex ∧
      (a.logIndex < b.logIndex ∨ a.logIndex = b.logIndex ∧ a.factIndex ≤ b.factIndex)) := by
  unfold Before financialOrder
  split_ifs <;> omega

theorem before_total (a b : LedgerFact) : Before a b ∨ Before b a := by
  rw [before_iff, before_iff]
  omega

theorem before_trans {a b c : LedgerFact} (hab : Before a b) (hbc : Before b c) : Before a c := by
  rw [before_iff] at *
  omega

theorem position_eq {a b : LedgerFact} (hab : Before a b) (hba : Before b a) : a.position = b.position := by
  rw [before_iff] at *
  simp only [LedgerFact.position, List.cons.injEq, and_true]
  omega

instance : Std.Total Before := ⟨before_total⟩

instance : IsTrans LedgerFact Before := ⟨fun _ _ _ => before_trans⟩

theorem sortFacts_perm (facts : List LedgerFact) : (sortFacts facts).Perm facts := List.perm_insertionSort _ facts

theorem mem_sortFacts {facts : List LedgerFact} {f : LedgerFact} : f ∈ sortFacts facts ↔ f ∈ facts :=
  (sortFacts_perm facts).mem_iff

theorem sortFacts_sorted (facts : List LedgerFact) : (sortFacts facts).Pairwise Before :=
  List.pairwise_insertionSort Before facts

/-! ## Each identity once -/

/-- The facts whose identity is neither among `seen` nor that of an earlier one. -/
def firsts : List String → List LedgerFact → List LedgerFact
  | _, [] => []
  | seen, f :: l => if f.id ∈ seen then firsts seen l else f :: firsts (f.id :: seen) l

theorem firsts_sublist (seen : List String) (l : List LedgerFact) : (firsts seen l).Sublist l := by
  induction l generalizing seen with
  | nil => exact .slnil
  | cons f l ih =>
    rw [firsts]
    split
    · exact (ih seen).cons f
    · exact (ih _).cons_cons f

/-- Where all identities are different, nothing is skipped. -/
theorem firsts_of_nodup {seen : List String} {l : List LedgerFact} (hseen : ∀ f ∈ l, f.id ∉ seen)
    (hn : (l.map LedgerFact.id).Nodup) :
    firsts seen l = l := by
  induction l generalizing seen with
  | nil => rfl
  | cons f l ih =>
    rw [List.map_cons, List.nodup_cons] at hn
    rw [firsts, if_neg (hseen f List.mem_cons_self), ih _ hn.2]
    intro g hg
    rw [List.mem_cons, not_or]
    refine ⟨fun he => hn.1 ?_, hseen g (List.mem_cons_of_mem f hg)⟩
    rw [← he]
    exact List.mem_map_of_mem hg

/-- A fact whose identity has been seen may as well not be there. -/
theorem firsts_filter {seen : List String} {a : LedgerFact} (ha : a.id ∈ seen) (l : List LedgerFact) :
    firsts seen (l.filter fun f => decide (f ≠ a)) = firsts seen l := by
  induction l generalizing seen with
  | nil => rfl
  | cons f l ih =>
    by_cases hf : f = a
    · subst hf
      rw [List.filter_cons_of_neg (by simp), firsts, if_pos ha, ih ha]
    · rw [List.filter_cons_of_pos (by simpa using hf), firsts, firsts]
      split
      · exact ih ha
      · rw [ih (List.mem_cons_of_mem _ ha)]

/-- Two lists with the same facts in the order of the chain give the same facts. -/
theorem firsts_congr {l l' : List LedgerFact} (hl : l.Pairwise Before) (hl' : l'.Pairwise Before)
    (hmem : ∀ f, f ∈ l ↔ f ∈ l')
    (hsame : ∀ f ∈ l, ∀ g ∈ l, f.position = g.position → f = g) (seen : List String) :
    firsts seen l = firsts seen l' := by
  -- the induction removes the first fact of the chain, with all its repetitions, from both lists
  induction hn : l.length using Nat.strong_induction_on generalizing l l' seen with
  | _ n ih =>
    cases l with
    | nil =>
      cases l' with
      | nil => rfl
      | cons b t' => exact absurd ((hmem b).mpr List.mem_cons_self) (by simp)
    | cons a t =>
      cases l' with
      | nil => exact absurd ((hmem a).mp List.mem_cons_self) (by simp)
      | cons b t' =>
        have hb : b ∈ a :: t := (hmem b).mpr List.mem_cons_self
        have ha : a ∈ b :: t' := (hmem a).mp List.mem_cons_self
        have hab : Before a b := by
          rcases List.mem_cons.mp hb with rfl | hb
          · exact (before_total b b).elim id id
          · exact List.rel_of_pairwise_cons hl hb
        have hba : Before b a := by
          rcases List.mem_cons.mp ha with rfl | ha
          · exact (before_total a a).elim id id
          · exact List.rel_of_pairwise_cons hl' ha
        have heq : a = b := hsame a List.mem_cons_self b hb (position_eq hab hba)
        subst heq
        have hrest : ∀ seen, a.id ∈ seen → firsts seen t = firsts seen t' := by
          intro seen hid
          rw [← firsts_filter hid t, ← firsts_filter hid t']
          refine ih _ ?_ (hl.of_cons.filter _) (hl'.of_cons.filter _) ?_ ?_ seen rfl
          · have := List.length_filter_le (fun f => decide (f ≠ a)) t
            simp only [List.length_cons] at hn
            omega
          · intro f
            have hf := hmem f
            simp only [List.mem_cons] at hf
            simp only [List.mem_filter, decide_eq_true_eq]
            grind
          · intro f hf g hg
            exact hsame f (List.mem_cons_of_mem a (List.mem_filter.mp hf).1) g
              (List.mem_cons_of_mem a (List.mem_filter.mp hg).1)
        rw [firsts, firsts]
        split
        · rename_i hid
          exact hrest seen hid
        · rw [hrest _ List.mem_cons_self]

/-! ## The facts that the reducer applies -/

/-- The facts of the chain before the end of the window. -/
def history (o : PnlOptions) (input : List LedgerFact) : List LedgerFact :=
  (firsts [] (sortFacts input)).filter fun f => o.before.all fun t => decide (f.timestamp < t)

section

variable (names : Address → String) (o : PnlOptions) (owner : Address)

theorem foldl_advance (l : List LedgerFact) (st : State) :
    (l.foldl (State.advance names o owner) st).holdings =
        (((firsts st.seen l).filter fun f => o.before.all fun t => decide (f.timestamp < t)).foldl
          (State.apply names o owner) st).holdings ∧
      (l.foldl (State.advance names o owner) st).report =
        (((firsts st.seen l).filter fun f => o.before.all fun t => decide (f.timestamp < t)).foldl
          (State.apply names o owner) st).report := by
  have hseen : ∀ (l : List LedgerFact) (st st' : State), st.holdings = st'.holdings → st.report = st'.report →
      (l.foldl (State.apply names o owner) st).holdings = (l.foldl (State.apply names o owner) st').holdings ∧
        (l.foldl (State.apply names o owner) st).report = (l.foldl (State.apply names o owner) st').report := by
    intro l
    induction l with
    | nil => exact fun st st' hh hr => ⟨hh, hr⟩
    | cons f l ih =>
      intro st st' hh hr
      refine ih _ _ ?_ ?_ <;> simp only [State.apply, hh, hr]
  induction l generalizing st with
  | nil => exact ⟨rfl, rfl⟩
  | cons f l ih =>
    rw [List.foldl_cons, firsts]
    by_cases hid : f.id ∈ st.seen
    · rw [if_pos hid, State.advance, if_pos hid]
      exact ih st
    · rw [if_neg hid, State.advance, if_neg hid]
      cases hend : o.before.any fun t => decide (t ≤ f.timestamp) with
      | true =>
        rw [if_pos rfl, List.filter_cons_of_neg]
        · have h := ih { st with seen := f.id :: st.seen }
          have h' := hseen ((firsts (f.id :: st.seen) l).filter fun f => o.before.all fun t => decide (f.timestamp < t))
            { st with seen := f.id :: st.seen } st rfl rfl
          exact ⟨h.1.trans h'.1, h.2.trans h'.2⟩
        · obtain ⟨t, ht, hle⟩ := (Option.any_eq_true _ _).mp hend
          rw [decide_eq_true_eq] at hle
          rw [ht]
          simp only [Option.all_some, decide_eq_true_eq]
          omega
      | false =>
        rw [if_neg Bool.false_ne_true, List.filter_cons_of_pos, List.foldl_cons]
        · have h := ih (State.apply names o owner { st with seen := f.id :: st.seen } f)
          have h' := hseen ((firsts (f.id :: st.seen) l).filter fun f => o.before.all fun t => decide (f.timestamp < t))
            (State.apply names o owner { st with seen := f.id :: st.seen } f) (State.apply names o owner st f) rfl rfl
          exact ⟨h.1.trans h'.1, h.2.trans h'.2⟩
        · cases hb : o.before with
          | none => rfl
          | some t =>
            rw [hb] at hend
            simp only [Option.any_some, decide_eq_false_iff_not, Nat.not_le] at hend
            simp [hend]

/-- The state after the facts of a history. -/
def State.after (history : List LedgerFact) : State := history.foldl (State.apply names o owner) (State.initial o)

/-- The reducer applies the history. -/
theorem reduce_finish (input : List LedgerFact) :
    (reduce names o owner input).finish names o owner = (State.after names o owner (history o input)).finish
      names o owner := by
  obtain ⟨hholdings, hreport⟩ := foldl_advance names o owner (sortFacts input) (State.initial o)
  have h : ∀ st st' : State, st.holdings = st'.holdings → st.report = st'.report →
    st.finish names o owner = st'.finish names o owner := by
    intro st st' hh hr
    simp only [State.finish, finalReasons, selectedLots, hh, hr]
  exact h _ _ hholdings hreport

/-- **The order of delivery.** The result depends only on which facts there are. -/
theorem computePnl_congr {input input' : List LedgerFact} (hmem : ∀ f, f ∈ input ↔ f ∈ input')
    (hsame : ∀ f ∈ input, ∀ g ∈ input, f.position = g.position → f = g) :
    computePnl names o owner input = computePnl names o owner input' := by
  have hfirsts : firsts [] (sortFacts input) = firsts [] (sortFacts input') := by
    refine firsts_congr (sortFacts_sorted input) (sortFacts_sorted input') (fun f => ?_) (fun f hf g hg => ?_) []
    · rw [mem_sortFacts, mem_sortFacts]
      exact hmem f
    · exact hsame f (mem_sortFacts.mp hf) g (mem_sortFacts.mp hg)
  rw [computePnl, computePnl, reduce_finish, reduce_finish, history, history, hfirsts]

end

end Profit

end Cpredict
