import Cpredict.Lib.Reach
import Cpredict.Automation.SignerLane

/-!
# The quotas of cleanup

`save` counts what was created in the 24 hours before the start of its transaction; the law is about every interval of
24 hours (`Lawful`). A transaction takes the locks of its account and of its market, counts, and inserts its row later
(`Cleaning`); others are admitted, insert, cancel and complete rows between the two. Transactions need not count in the
order in which they have started: of the rows of an interval, the one that is counted last has all the others before it.
So the law is kept by the rows together with what open transactions have still to insert (`Cleaning.Sound`). What a tick
does to the rows is a run of such steps (`performs_run`).
-/

namespace Cpredict.Automation

open Outcome

/-! ## The law -/

/-- A cleanup of the deployment that has not been cancelled, created in the 24 hours from `start` on. -/
def Store.within (st : Store) (start : Nat) (x : Row) : Bool :=
  x.chainId = st.chainId && x.deploymentId = st.deploymentId &&
    (x.action.cleanupMarket.isSome || x.action.isCleanup) && x.state ≠ .cancelled && start ≤ x.createdAt &&
    x.createdAt ≤ start + day

def Action.routine (a : Action) : Bool := a.cleanupPriority = some .routine

/-- In no interval of 24 hours there are more than `limit` cleanups with such actions. -/
def Store.Bounded (st : Store) (rows : List Row) (p : Action → Bool) (limit : Nat) : Prop :=
  ∀ start, rows.countP (fun x => st.within start x && p x.action) ≤ limit

/-- `cleanupQuotaLimits`, in every interval of 24 hours. -/
structure Store.Lawful (st : Store) (rows : List Row) : Prop where
  accountTotal : ∀ owner, st.Bounded rows (fun a => a.owner = owner) accountTotal24h
  accountRoutine : ∀ owner, st.Bounded rows (fun a => a.owner = owner && a.routine) accountRoutine24h
  marketTotal : ∀ market, st.Bounded rows (fun a => a.cleanupMarket = some market) marketTotal24h
  marketRoutine : ∀ market, st.Bounded rows (fun a => a.cleanupMarket = some market && a.routine) marketRoutine24h

section

variable {st : Store} {rows rows' : List Row} {p : Action → Bool} {limit : Nat}

theorem Store.Lawful.imp (h : st.Lawful rows) (hb : ∀ p limit, st.Bounded rows p limit → st.Bounded rows' p limit) :
    st.Lawful rows' where
  accountTotal := fun owner => hb _ _ (h.accountTotal owner)
  accountRoutine := fun owner => hb _ _ (h.accountRoutine owner)
  marketTotal := fun market => hb _ _ (h.marketTotal market)
  marketRoutine := fun market => hb _ _ (h.marketRoutine market)

theorem Store.Bounded.perm (h : st.Bounded rows p limit) (hp : rows.Perm rows') : st.Bounded rows' p limit := by
  intro start
  rw [← hp.countP_eq]
  exact h start

theorem Store.Bounded.sublist (h : st.Bounded rows p limit) (hs : rows'.Sublist rows) : st.Bounded rows' p limit :=
  fun start => hs.countP_le.trans (h start)

/-- Rows that change in place keep their actions, and none comes back from cancellation. -/
theorem Store.Bounded.map {opened : List Row} {g : Row → Row} (h : st.Bounded (opened ++ rows) p limit)
    (hg : ∀ x ∈ rows, (g x).action = x.action ∧ ∀ start, st.within start (g x) = true → st.within start x = true) :
    st.Bounded (opened ++ rows.map g) p limit := by
  intro start
  have hrows : (rows.map g).countP (fun x => st.within start x && p x.action) ≤
      rows.countP (fun x => st.within start x && p x.action) := by
    rw [List.countP_map]
    apply List.countP_mono_left
    intro x hx hgx
    obtain ⟨haction, hwithin⟩ := hg x hx
    simp only [Function.comp_apply, Bool.and_eq_true] at hgx ⊢
    exact ⟨hwithin start hgx.1, haction ▸ hgx.2⟩
  have hlimit := h start
  rw [List.countP_append] at hlimit ⊢
  omega

/-- Open transactions that hold none of the locks have nothing to count. -/
theorem room (p : Action → Bool) {opened : List Row} {start : Nat}
    (hfree : ∀ x ∈ opened, st.within start x = true → p x.action = false)
    (hroom : rows.countP (fun x => st.within start x && p x.action) < limit) :
    (opened ++ rows).countP (fun x => st.within start x && p x.action) < limit := by
  have hnone : opened.countP (fun x => st.within start x && p x.action) = 0 := by
    refine List.countP_eq_zero.mpr fun x hx hcounted => ?_
    obtain ⟨hwithin, hp⟩ := Bool.and_eq_true_iff.mp hcounted
    rw [hfree x hx hwithin] at hp
    cases hp
  rw [List.countP_append, hnone, Nat.zero_add]
  exact hroom

/-- A row more, when the others that it is counted with leave room for it. -/
theorem Store.Bounded.cons {r : Row} (h : st.Bounded rows p limit)
    (hr : ∀ start, st.within start r = true → p r.action = true →
      rows.countP (fun x => st.within start x && p x.action) < limit) : st.Bounded (r :: rows) p limit := by
  intro start
  rw [List.countP_cons]
  split
  · rename_i hcounted
    obtain ⟨hwithin, hp⟩ := Bool.and_eq_true_iff.mp hcounted
    exact hr start hwithin hp
  · exact h start

end

/-! ## What the check counts -/

section

variable {st : Store} {j : Journal} {now start : Nat} {a : Action}

/-- The rows of an interval that has not ended a day before the transaction are counted. -/
theorem countP_within_le (hs : now ≤ start + day) {p q : Row → Bool} (hpq : ∀ x, p x = true → q x = true) :
    j.rows.countP (fun x => st.within start x && p x) ≤ ((st.cleanups j now).filter q).length := by
  rw [Store.cleanups, List.filter_filter, ← List.countP_eq_length_filter]
  apply List.countP_mono_left
  intro x _ hx
  simp only [Store.within, Bool.and_eq_true, decide_eq_true_eq] at hx ⊢
  obtain ⟨⟨⟨hcounted, hstart⟩, -⟩, hp⟩ := hx
  exact ⟨hpq x hp, hcounted, by omega⟩

/-- What has been admitted leaves room in every quota that it is counted in. -/
theorem admitted (h : st.admitCleanup j now a = .ok ()) (hc : a.isCleanup = true) (hs : now ≤ start + day) :
    j.rows.countP (fun x => st.within start x && x.action.owner = a.owner) < accountTotal24h ∧
    (a.routine = true →
      j.rows.countP (fun x => st.within start x && (x.action.owner = a.owner && x.action.routine)) <
        accountRoutine24h) ∧
    (∀ market, a.cleanupMarket = some market →
      j.rows.countP (fun x => st.within start x && x.action.cleanupMarket = some market) < marketTotal24h ∧
      (a.routine = true → j.rows.countP
        (fun x => st.within start x && (x.action.cleanupMarket = some market && x.action.routine)) <
          marketRoutine24h)) := by
  unfold Store.admitCleanup at h
  rw [if_pos hc] at h
  obtain ⟨⟨⟩, -, h⟩ := bind_eq_ok.mp h
  have hquota : st.cleanupQuotaWith j now a = none := by
    cases hq : st.cleanupQuotaWith j now a with
    | none => rfl
    | some reason =>
      rw [hq] at h
      cases h
  unfold Store.cleanupQuotaWith at hquota
  simp only at hquota
  split at hquota
  · cases hquota
  · rename_i haccount
    split at hquota
    · cases hquota
    · rename_i hmarket
      rw [not_or, Nat.not_le, not_and, Nat.not_le, List.filter_filter] at haccount hmarket
      have hroutine : a.routine = true → a.cleanupPriority = some .routine := of_decide_eq_true
      refine ⟨?_, ?_, ?_⟩
      · exact (countP_within_le hs fun x hx => hx).trans_lt haccount.1
      · intro hr
        refine (countP_within_le hs ?_).trans_lt (haccount.2 (hroutine hr))
        intro x hx
        simp only [Action.routine, Bool.and_eq_true, decide_eq_true_eq] at hx
        simp [hx.1, hx.2]
      · intro market hm
        refine ⟨?_, ?_⟩
        · refine (countP_within_le hs ?_).trans_lt hmarket.1
          intro x hx
          simp only [decide_eq_true_eq] at hx
          simp [hx, hm]
        · intro hr
          refine (countP_within_le hs ?_).trans_lt (hmarket.2 (hroutine hr))
          intro x hx
          simp only [Action.routine, Bool.and_eq_true, decide_eq_true_eq] at hx
          simp [hx.1, hx.2, hm]

end

/-! ## Transactions under locks -/

/-- The rows, and those that open transactions have been admitted with and are still to insert. -/
structure Cleaning where
  journal : Journal
  opened : List Row

namespace Cleaning

/-- An open transaction holds the lock of the account or of the market. -/
def Locked (s : Cleaning) (st : Store) (a : Action) : Prop :=
  ∃ x ∈ s.opened, x.chainId = st.chainId ∧ x.deploymentId = st.deploymentId ∧ x.action.isCleanup = true ∧
    (x.action.owner = a.owner ∨ x.action.cleanupMarket = a.cleanupMarket)

/-- An await other than `save`; what it completes has not been cancelled. -/
def Possible (j : Journal) : Await → Prop
  | .save _ _ => False
  | .finish id _ _ => ∀ x ∈ j.rows, x.id = id → x.state ≠ .cancelled
  | _ => True

inductive Step (keccak256 : Bytes → Bytes32) : Cleaning → Cleaning → Prop
  /-- The locks are taken, and the count leaves room. -/
  | enter {s : Cleaning} {st : Store} {now id : Nat} {a : Action} {tx : Prepared}
      (hlocks : a.isCleanup = true → ¬s.Locked st a) (h : st.admitCleanup s.journal now a = .ok ()) :
      Step keccak256 s { s with opened := st.preparedRow now a tx id :: s.opened }
  /-- The row is inserted, and the transaction is committed. -/
  | insert {s : Cleaning} {x : Row} {j : Journal} (hx : x ∈ s.opened) (h : s.journal.insert x = .ok j) :
      Step keccak256 s ⟨j, s.opened.erase x⟩
  | rollback {s : Cleaning} {x : Row} (hx : x ∈ s.opened) : Step keccak256 s { s with opened := s.opened.erase x }
  | store {s : Cleaning} {st : Store} {c : Await} {r : Except WorkerErr (Reply c)} {j : Journal}
      (h : JournalEffect st keccak256 ⟨s.journal, []⟩ ⟨j, []⟩ c r) (hp : Possible s.journal c) :
      Step keccak256 s { s with journal := j }

/-- No transaction is open, and the rows that are there keep the law. -/
def Init (s : Cleaning) : Prop :=
  s.opened = [] ∧ (s.journal.rows.map Row.id).Nodup ∧ ∀ st : Store, st.Lawful s.journal.rows

abbrev Reachable (keccak256 : Bytes → Bytes32) : Cleaning → Prop := Reach.Reachable Init (Step keccak256)

structure Sound (s : Cleaning) : Prop where
  ids : (s.journal.rows.map Row.id).Nodup
  opened : ∀ x ∈ s.opened, x.action.cleanupMarket.isSome = true → x.action.isCleanup = true
  lawful : ∀ st : Store, st.Lawful (s.opened ++ s.journal.rows)

section

variable {keccak256 : Bytes → Bytes32} {s t : Cleaning} {st : Store} {now id start : Nat} {a : Action} {tx : Prepared}
  {x : Row}

theorem isCleanup_of_within (hx : x.action.cleanupMarket.isSome = true → x.action.isCleanup = true)
    (h : st.within start x = true) :
    x.chainId = st.chainId ∧ x.deploymentId = st.deploymentId ∧ x.action.isCleanup = true ∧
      x.createdAt ≤ start + day := by
  simp only [Store.within, Bool.and_eq_true, Bool.or_eq_true, decide_eq_true_eq] at h
  obtain ⟨⟨⟨⟨⟨hchain, hdeployment⟩, hcleanup⟩, -⟩, -⟩, hend⟩ := h
  exact ⟨hchain, hdeployment, hcleanup.elim hx id, hend⟩

theorem preparedRow_cleanup :
    (st.preparedRow now a tx id).action.cleanupMarket.isSome = true →
      (st.preparedRow now a tx id).action.isCleanup = true := by
  unfold Store.preparedRow
  split
  · rename_i hc
    exact fun _ => hc
  · exact fun h => by simp at h

theorem preparedRow_action (hc : (st.preparedRow now a tx id).action.isCleanup = true) :
    a.isCleanup = true ∧ (st.preparedRow now a tx id).action = a := by
  unfold Store.preparedRow at hc ⊢
  split at hc
  · rename_i ha
    exact ⟨ha, if_pos ha⟩
  · rename_i ha
    exact absurd hc ha

theorem within_congr {st₀ : Store} (hchain : st.chainId = st₀.chainId)
    (hdeployment : st.deploymentId = st₀.deploymentId) (x : Row) : st.within start x = st₀.within start x := by
  unfold Store.within
  rw [hchain, hdeployment]

/-- What the locks and the count have left to the new row, in an interval in which it counts. -/
theorem Sound.admitted (h : s.Sound) (hlocks : a.isCleanup = true → ¬s.Locked st a)
    (hcheck : st.admitCleanup s.journal now a = .ok ()) {st₀ : Store}
    (hw : st₀.within start (st.preparedRow now a tx id) = true) :
    (st.preparedRow now a tx id).action = a ∧
    (∀ x ∈ s.opened, st₀.within start x = true → x.action.owner ≠ a.owner ∧ x.action.cleanupMarket ≠ a.cleanupMarket) ∧
    s.journal.rows.countP (fun x => st₀.within start x && x.action.owner = a.owner) < accountTotal24h ∧
    (a.routine = true → s.journal.rows.countP
      (fun x => st₀.within start x && (x.action.owner = a.owner && x.action.routine)) < accountRoutine24h) ∧
    ∀ market, a.cleanupMarket = some market →
      s.journal.rows.countP (fun x => st₀.within start x && x.action.cleanupMarket = some market) < marketTotal24h ∧
      (a.routine = true → s.journal.rows.countP
        (fun x => st₀.within start x && (x.action.cleanupMarket = some market && x.action.routine)) <
          marketRoutine24h) := by
  obtain ⟨hchain, hdeployment, hcleanup, hend⟩ := isCleanup_of_within preparedRow_cleanup hw
  obtain ⟨hc, haction⟩ := preparedRow_action hcleanup
  have hroom := Automation.admitted hcheck hc hend
  have hsame : ∀ x, st.within start x = st₀.within start x := within_congr hchain hdeployment
  simp only [hsame] at hroom
  refine ⟨haction, ?_, hroom⟩
  intro x hx hwx
  obtain ⟨hxchain, hxdeployment, hxcleanup, -⟩ := isCleanup_of_within (h.opened x hx) hwx
  have hfree : ¬(x.action.owner = a.owner ∨ x.action.cleanupMarket = a.cleanupMarket) := fun hor =>
    hlocks hc ⟨x, hx, hxchain.trans hchain.symm, hxdeployment.trans hdeployment.symm, hxcleanup, hor⟩
  exact not_or.mp hfree

theorem Sound.enter (h : s.Sound) (hlocks : a.isCleanup = true → ¬s.Locked st a)
    (hcheck : st.admitCleanup s.journal now a = .ok ()) :
    Sound { s with opened := st.preparedRow now a tx id :: s.opened } where
  ids := h.ids
  opened := by
    intro x hx
    rcases List.mem_cons.mp hx with rfl | hx
    · exact preparedRow_cleanup
    · exact h.opened x hx
  lawful := by
    intro st₀
    refine ⟨?_, ?_, ?_, ?_⟩
    · intro owner
      refine ((h.lawful st₀).accountTotal owner).cons fun start hw hp => ?_
      obtain ⟨haction, hfree, hroom, -⟩ := h.admitted hlocks hcheck hw
      obtain rfl : a.owner = owner := haction ▸ of_decide_eq_true hp
      exact room (fun b => b.owner = a.owner) (fun x hx hwx => decide_eq_false (hfree x hx hwx).1) hroom
    · intro owner
      refine ((h.lawful st₀).accountRoutine owner).cons fun start hw hp => ?_
      obtain ⟨haction, hfree, -, hroom, -⟩ := h.admitted hlocks hcheck hw
      rw [haction, Bool.and_eq_true, decide_eq_true_eq] at hp
      obtain ⟨rfl, hroutine⟩ := hp
      refine room (fun b => b.owner = a.owner && b.routine) (fun x hx hwx => ?_) (hroom hroutine)
      rw [decide_eq_false (hfree x hx hwx).1, Bool.false_and]
    · intro market
      refine ((h.lawful st₀).marketTotal market).cons fun start hw hp => ?_
      obtain ⟨haction, hfree, -, -, hroom⟩ := h.admitted hlocks hcheck hw
      have hmarket : a.cleanupMarket = some market := haction ▸ of_decide_eq_true hp
      refine room (fun b => b.cleanupMarket = some market) (fun x hx hwx => ?_) (hroom market hmarket).1
      exact decide_eq_false (hmarket ▸ (hfree x hx hwx).2)
    · intro market
      refine ((h.lawful st₀).marketRoutine market).cons fun start hw hp => ?_
      obtain ⟨haction, hfree, -, -, hroom⟩ := h.admitted hlocks hcheck hw
      rw [haction, Bool.and_eq_true, decide_eq_true_eq] at hp
      obtain ⟨hmarket, hroutine⟩ := hp
      refine room (fun b => b.cleanupMarket = some market && b.routine) (fun x hx hwx => ?_)
        ((hroom market hmarket).2 hroutine)
      rw [decide_eq_false (hmarket ▸ (hfree x hx hwx).2), Bool.false_and]

/-- A row that is inserted was counted among the open ones. -/
theorem Sound.insert (h : s.Sound) (hx : x ∈ s.opened) {j : Journal} (hi : s.journal.insert x = .ok j) :
    Sound ⟨j, s.opened.erase x⟩ := by
  obtain ⟨hfresh, -, rfl⟩ := insert_ok hi
  refine ⟨?_, fun y hy => h.opened y (List.mem_of_mem_erase hy), fun st => (h.lawful st).imp fun _ _ hb => ?_⟩
  · show ((s.journal.rows ++ [x]).map Row.id).Nodup
    rw [List.map_append, List.map_singleton]
    refine h.ids.append (List.nodup_singleton _) ?_
    simpa [List.disjoint_singleton] using hfresh
  · refine hb.perm ?_
    have hperm : s.opened.Perm (x :: s.opened.erase x) := List.perm_cons_erase hx
    refine (hperm.append_right _).trans ?_
    rw [← List.append_assoc]
    exact (List.perm_append_singleton x _).symm

theorem Sound.rollback (h : s.Sound) : Sound { s with opened := s.opened.erase x } where
  ids := h.ids
  opened := fun y hy => h.opened y (List.mem_of_mem_erase hy)
  lawful := fun st => (h.lawful st).imp fun _ _ hb => hb.sublist (List.erase_sublist.append_right _)

/-- No change brings a row back from cancellation. -/
theorem within_change {j : Journal} {c : Await} {x y : Row} (hp : Possible j c) (hx : x ∈ j.rows)
    (h : RowChange j c x y) (hy : st.within start y = true) : st.within start x = true := by
  have hlive : y.state ≠ .cancelled → x.state ≠ .cancelled := by
    intro hy
    cases h with
    | same _ hs _ _ _ => rwa [← hs]
    | mark _ hb _ _ _ _ => exact hb ▸ TxState.noConfusion
    | cancel _ _ hs _ => exact absurd hs hy
    | unknown _ hb _ _ _ _ => exact hb ▸ TxState.noConfusion
    | finish _ _ _ _ _ => exact hp x hx rfl
    | replace _ hb _ _ _ _ _ =>
      intro hc
      rw [hc] at hb
      cases hb
  have ho := h.owned
  simp only [Store.within, Bool.and_eq_true, decide_eq_true_eq, ne_eq, decide_not, Bool.not_eq_true'] at hy ⊢
  rw [ho.chainId, ho.deploymentId, ho.action, ho.createdAt] at hy
  simp_all

theorem Sound.store (h : s.Sound) {c : Await} {r : Except WorkerErr (Reply c)} {j : Journal}
    (he : JournalEffect st keccak256 ⟨s.journal, []⟩ ⟨j, []⟩ c r) (hp : Possible s.journal c) :
    Sound { s with journal := j } := by
  rcases he.change h.ids with ⟨b, p, new, rfl, -, -⟩ | hin
  · cases hp
  · obtain ⟨g, hrows, hg⟩ := hin
    have hrows : j.rows = s.journal.rows.map g := hrows
    refine ⟨?_, h.opened, fun st₀ => (h.lawful st₀).imp fun p limit hb => ?_⟩
    · show (j.rows.map Row.id).Nodup
      rw [hrows, List.map_map]
      have hids : s.journal.rows.map (Row.id ∘ g) = s.journal.rows.map Row.id :=
        List.map_congr_left fun x hx => (hg x hx).owned.id
      rw [hids]
      exact h.ids
    · show st₀.Bounded (s.opened ++ j.rows) p limit
      rw [hrows]
      exact hb.map fun x hx => ⟨(hg x hx).owned.action, fun start hw => within_change hp hx (hg x hx) hw⟩

theorem Sound.step (h : s.Sound) (hs : Step keccak256 s t) : t.Sound := by
  cases hs with
  | enter hlocks hcheck => exact h.enter hlocks hcheck
  | insert hx hi => exact h.insert hx hi
  | rollback hx => exact h.rollback
  | store he hp => exact h.store he hp

theorem reachable_sound (h : Reachable keccak256 s) : s.Sound := by
  refine h.invariant ?_ fun s t _ hs hstep => hs.step hstep
  rintro s ⟨hopened, hids, hlawful⟩
  refine ⟨hids, ?_, ?_⟩
  · rw [hopened]
    exact fun x hx => absurd hx List.not_mem_nil
  · rw [hopened]
    exact hlawful

/-! ### Ticks -/

theorem Step.insert_head {j j' : Journal} {opened : List Row} (h : j.insert x = .ok j') :
    Step keccak256 ⟨j, x :: opened⟩ ⟨j', opened⟩ := by
  have hstep : Step keccak256 ⟨j, x :: opened⟩ ⟨j', (x :: opened).erase x⟩ := .insert List.mem_cons_self h
  rwa [List.erase_cons_head] at hstep

/-- `save` is admitted and inserts its row. -/
theorem save_run {j j' : Journal} {candidate : Bool} {rec : Record}
    (h : st.save j now a tx id candidate = .ok (j', rec)) : Reach.Run (Step keccak256) ⟨j, []⟩ ⟨j', []⟩ := by
  simp only [Store.save, bind_eq_ok, Except.ok.injEq, Prod.mk.injEq] at h
  obtain ⟨-, -, ⟨⟩, hcheck, j₁, hinsert, rfl, -⟩ := h
  have hfree : a.isCleanup = true → ¬Locked ⟨j, []⟩ st a := by
    rintro - ⟨x, hx, -⟩
    cases hx
  have hopen : Step keccak256 ⟨j, []⟩ ⟨j, [st.preparedRow now a tx id]⟩ := .enter hfree hcheck
  exact (Relation.ReflTransGen.single hopen).tail (.insert_head hinsert)

/-- What an await of a tick does to the rows is a run of such steps. -/
theorem performs_run {w w' : World} {c : Await} {r : Except WorkerErr (Reply c)} (hi : Inv st w) (ha : Allowed st w c)
    (hp : Performs st keccak256 c w r w') : Reach.Run (Step keccak256) ⟨w.journal, []⟩ ⟨w'.journal, []⟩ := by
  obtain ⟨-, he⟩ := hp
  have hstep : Possible w.journal c → Reach.Run (Step keccak256) ⟨w.journal, []⟩ ⟨w'.journal, []⟩ := by
    intro hpossible
    have he' : JournalEffect st keccak256 ⟨w.journal, []⟩ ⟨w'.journal, []⟩ c r := by
      cases c <;> exact he
    exact .single (.store he' hpossible)
  cases c with
  | save b p =>
    obtain ⟨now, id, candidate, hc⟩ := he
    rcases hc.cases with ⟨rec, hsave⟩ | hsame
    · exact save_run hsave
    · rw [hsame]
  | finish id receipt hash =>
    obtain ⟨⟨x, hx, hid, hlive⟩, -⟩ := ha
    refine hstep fun y hy hyid => ?_
    rwa [eq_of_id hi.lane.ids hy (mem_lane.mp hx).1 (hyid.trans hid.symm)]
  | _ => exact hstep trivial

end

end Cleaning

/-! ## The quotas -/

/-- **In every interval of 24 hours the cleanups of an account and of a market keep the limits.** -/
theorem cleanup_quotas {keccak256 : Bytes → Bytes32} {s : Cleaning} (h : Cleaning.Reachable keccak256 s) (st : Store) :
    st.Lawful s.journal.rows :=
  ((Cleaning.reachable_sound h).lawful st).imp fun _ _ hb => hb.sublist (List.sublist_append_right _ _)

/-! ## Two lanes -/

namespace Lanes

def claims : Store := ⟨1, "deployment", addr 7⟩

def matching : Store := ⟨1, "deployment", addr 8⟩

def release (key : String) (owner market : Nat) : Action :=
  ⟨key, addr owner, "release-order", addr 9, [], false, some (addr market), some .routine⟩

def first : Row := claims.preparedRow 100 (release "1" 1 5) ⟨[1], 11, 0, 10⟩ 1

/-- Of a transaction that has started earlier. -/
def second : Row := matching.preparedRow 50 (release "2" 2 6) ⟨[2], 12, 0, 10⟩ 2

def again : Row := claims.preparedRow 90 (release "1" 1 5) ⟨[3], 13, 0, 10⟩ 3

def cancelled : Row := { first with state := .cancelled, nonce := none, rawTransaction := none, reservedWei := 0 }

/-- Both lanes are admitted before either inserts; the first row is cancelled, and its account admitted again. -/
theorem reachable (keccak256 : Bytes → Bytes32) :
    Cleaning.Reachable keccak256 ⟨⟨[second, cancelled, again], []⟩, []⟩ := by
  have h₀ : Cleaning.Reachable keccak256 ⟨⟨[], []⟩, []⟩ :=
    .start ⟨rfl, List.nodup_nil, fun st => ⟨fun _ _ => Nat.zero_le _, fun _ _ => Nat.zero_le _,
      fun _ _ => Nat.zero_le _, fun _ _ => Nat.zero_le _⟩⟩
  have h₁ : Cleaning.Reachable keccak256 ⟨⟨[], []⟩, [first]⟩ :=
    h₀.next (.enter (by rintro - ⟨x, hx, -⟩; cases hx) rfl)
  have h₂ : Cleaning.Reachable keccak256 ⟨⟨[], []⟩, [second, first]⟩ := by
    refine h₁.next (.enter ?_ rfl)
    rintro - ⟨x, hx, -, -, -, hlock⟩
    obtain rfl := List.mem_singleton.mp hx
    revert hlock
    decide
  have h₃ : Cleaning.Reachable keccak256 ⟨⟨[second], []⟩, [first]⟩ := h₂.next (.insert_head rfl)
  have h₄ : Cleaning.Reachable keccak256 ⟨⟨[second, first], []⟩, []⟩ := h₃.next (.insert_head rfl)
  have hcancel : JournalEffect claims keccak256 ⟨⟨[second, first], []⟩, []⟩ ⟨⟨[second, cancelled], []⟩, []⟩
      (.cancelPrepared 1) (.ok ()) := .inl ⟨(), rfl, .inl rfl⟩
  have h₅ : Cleaning.Reachable keccak256 ⟨⟨[second, cancelled], []⟩, []⟩ := h₄.next (.store hcancel trivial)
  have h₆ : Cleaning.Reachable keccak256 ⟨⟨[second, cancelled], []⟩, [again]⟩ :=
    h₅.next (.enter (by rintro - ⟨x, hx, -⟩; cases hx) rfl)
  exact h₆.next (.insert_head rfl)

end Lanes

theorem cleanup_quotas_sample : Lanes.claims.Lawful [Lanes.second, Lanes.cancelled, Lanes.again] :=
  cleanup_quotas (Lanes.reachable fun _ => 0) Lanes.claims

end Cpredict.Automation
