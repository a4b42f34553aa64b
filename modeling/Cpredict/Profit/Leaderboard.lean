import Cpredict.Lib.Collation
import Cpredict.Profit.Windows

/-!
# scoreLeaderboard

The score of an account is the sum of its profits in the markets of the roster in which it took part, each over the
window of that market. Before its first trade in a market an account has no entries there (`net_of_absent`), so a
market counts nothing in a period in which the account has not yet taken part, and the scores of the parts of a
period or of a roster add up. The table has the accounts that took part and whose profits are complete, each ranked
behind those with a higher score (`scoreLeaderboard_ok`).
-/

namespace Cpredict

namespace Profit

open HexText

structure AppAccount where
  address : Address
  controller : Address
deriving DecidableEq

structure PeriodMarket where
  market : Address
  startsAt : Nat
deriving DecidableEq

structure LeaderboardPeriod where
  endsAt : Nat
  markets : List PeriodMarket
deriving DecidableEq

/-- What the loop over the markets of an account collects. -/
structure Score where
  total : Int
  reasons : List String
deriving DecidableEq

structure LeaderboardEntry where
  account : Address
  realizedNet : Int
  marketCount : Nat
  rank : Nat
deriving DecidableEq

section

variable (names : Address → String) (period : LeaderboardPeriod) (accounts : List AppAccount) (facts : List LedgerFact)
  (creators : Address → Option Address) (complete : Finset Address)

/-- The controllers by account; of two entries of one account the later one counts. -/
def controls (a : Address) : Option Address := (accounts.reverse.find? fun x => decide (x.address = a)).map
    AppAccount.controller

def eligible (account : AppAccount) (m : PeriodMarket) : Bool :=
  match creators m.market with
  | none => false
  | some creator =>
    let creatorControl := (controls accounts creator).getD creator
    decide (creator ≠ account.address) && decide (creatorControl ≠ account.controller) &&
      decide (creatorControl ≠ account.address)

def participationKinds : List FactKind :=
  [.primaryBuy, .listingFilled, .shareTransfer, .winnerClaimed, .earlyBirdClaimed, .refunded, .timeoutClaimed]

/-- The fact is a participation of the account in the market before the end. -/
def participates (account market : Address) (endsAt : Nat) (f : LedgerFact) : Bool :=
  decide (f.kind ∈ participationKinds) && decide (f.timestamp < endsAt) && decide (f.market = some market) &&
    (Holdings.mine account f || Holdings.other account f)

def participated (account : AppAccount) : List PeriodMarket :=
  (period.markets.filter (eligible accounts creators account)).filter fun m =>
    facts.any (participates account.address m.market period.endsAt)

def scoreOptions (account : Address) (endsAt : Nat) (m : PeriodMarket) : PnlOptions :=
  ⟨decide (account ∈ complete), some m.startsAt, some endsAt, some {m.market}⟩

/-- The profits of the account in some markets, added up; none if one of them cannot be computed. -/
def scoreMarkets (account : Address) (endsAt : Nat) (markets : List PeriodMarket) : Option Score :=
  markets.foldlM (fun score m => do
    let pnl ← computePnl names (scoreOptions complete account endsAt m) account facts
    some ⟨score.total + pnl.knownRealizedNet, if pnl.complete then score.reasons else
      pnl.missingReasons.foldl (fun rs r => if r ∈ rs then rs else rs ++ [r]) score.reasons⟩) ⟨0, []⟩

/-- The score of an account in a period. -/
def scoreAccount (account : AppAccount) : Option Score :=
  scoreMarkets names facts complete account.address period.endsAt (participated period accounts facts creators account)

/-- `toLowerCase` of the text of an account. -/
def accountText (a : Address) : List (Fin 16) := hexText 40 a.word

section

variable {K : Type} [LinearOrder K] (locale : Collation K)

/-- The comparison of the table: by score downwards, then by account. -/
def ranksBefore (a b : LeaderboardEntry) : Prop := b.realizedNet < a.realizedNet ∨
  a.realizedNet = b.realizedNet ∧ locale.localeCompare (accountText a.account) (accountText b.account) ≤ 0

instance : DecidableRel (ranksBefore locale) := fun _ _ => inferInstanceAs (Decidable (_ ∨ _))

end

/-- Equal scores share the rank of the first of them. -/
def rank : Nat → Nat → Option Int → List LeaderboardEntry → List LeaderboardEntry
  | _, _, _, [] => []
  | i, r, before, v :: l =>
    let r := if i > 0 ∧ before ≠ some v.realizedNet then i + 1 else r
    { v with rank := r } :: rank (i + 1) r (some v.realizedNet) l

/-- The loop over the accounts: those to be listed, and those left out with their reasons. -/
def addScore (acc : List LeaderboardEntry × List (Address × List String)) (account : AppAccount) :
    Option (List LeaderboardEntry × List (Address × List String)) := do
  let markets := participated period accounts facts creators account
  if markets.isEmpty then some acc
  else do
    let score ← scoreAccount names period accounts facts creators complete account
    if score.reasons.isEmpty then some (acc.1 ++ [⟨account.address, score.total, markets.length, 0⟩], acc.2)
    else some (acc.1, acc.2 ++ [(account.address, score.reasons.insertionSort fun a b => a ≤ b)])

/-- The scores of the accounts that took part. -/
def scores : Option (List LeaderboardEntry × List (Address × List String)) :=
  accounts.foldlM (addScore names period accounts facts creators complete) ([], [])

def scoreLeaderboard {K : Type} [LinearOrder K] (locale : Collation K) :
    Option (List LeaderboardEntry × List (Address × List String)) := do
  let (values, excluded) ← scores names period accounts facts creators complete
  some (rank 0 1 none (values.insertionSort (ranksBefore locale)),
    excluded.insertionSort fun a b => locale.localeCompare (accountText a.1) (accountText b.1) ≤ 0)

end

/-! ## The table -/

/-- An entry, but for its rank. -/
def LeaderboardEntry.score (e : LeaderboardEntry) : Address × Int × Nat := (e.account, e.realizedNet, e.marketCount)

theorem rank_score (i r : Nat) (before : Option Int) (l : List LeaderboardEntry) :
    (rank i r before l).map LeaderboardEntry.score = l.map LeaderboardEntry.score := by
  induction l generalizing i r before with
  | nil => rfl
  | cons v l ih =>
    rw [rank, List.map_cons, List.map_cons, ih]
    rfl

/-- Behind entries `pre` of no lower score, of which `before` is the last score and `r` its rank, the entries of a
table get as rank the place behind all that have a higher score. -/
theorem rank_ok {i r : Nat} {before : Option Int} {pre l : List LeaderboardEntry}
    (hl : l.Pairwise fun a b => b.realizedNet ≤ a.realizedNet) (hi : i = pre.length) (hnone : before = none → pre = [])
    (hlow : ∀ n ∈ before, ∀ y ∈ pre, n ≤ y.realizedNet) (hnext : ∀ n ∈ before, ∀ x ∈ l, x.realizedNet ≤ n)
    (hr : r = 1 + pre.countP fun y => before.any fun n => n < y.realizedNet) :
    ∀ e ∈ rank i r before l, e.rank = 1 + (pre ++ l).countP fun x => e.realizedNet < x.realizedNet := by
  induction l generalizing i r before pre with
  | nil => exact fun e he => (List.not_mem_nil he).elim
  | cons v l ih =>
    obtain ⟨hv, hl⟩ := List.pairwise_cons.mp hl
    -- the rank of the first entry counts the higher ones before it
    have hrank : (if i > 0 ∧ before ≠ some v.realizedNet then i + 1 else r) =
        1 + pre.countP fun y => v.realizedNet < y.realizedNet := by
      cases before with
      | none =>
        rw [hnone rfl] at hi hr ⊢
        rw [if_neg fun h => absurd hi h.1.ne', hr]
        rfl
      | some n =>
        by_cases hn : n = v.realizedNet
        · subst hn
          rw [if_neg fun h => h.2 rfl, hr]
          rfl
        · have hall : ∀ y ∈ pre, decide (v.realizedNet < y.realizedNet) = true := by
            intro y hy
            have h₁ := hlow n rfl y hy
            have h₂ := hnext n rfl v List.mem_cons_self
            exact decide_eq_true (by omega)
          rw [List.countP_eq_length.mpr hall, ← hi]
          split_ifs with h
          · omega
          · have hzero : i = 0 := by
              by_contra hne
              exact h ⟨Nat.pos_of_ne_zero hne, fun he => hn (Option.some.inj he)⟩
            rw [hr, hzero, List.length_eq_zero_iff.mp (hi.symm.trans hzero)]
            rfl
    have hlower : ∀ x ∈ v :: l, ∀ e, v.realizedNet ≤ e → ¬ e < x.realizedNet := by
      intro x hx e he
      rcases List.mem_cons.mp hx with rfl | hx
      · omega
      · have := hv x hx
        omega
    rw [rank]
    intro e he
    rcases List.mem_cons.mp he with rfl | he
    · simp only
      rw [hrank, List.countP_append, (List.countP_eq_zero.mpr fun x hx => by simpa using hlower x hx _ le_rfl :
        (v :: l).countP (fun x => decide (v.realizedNet < x.realizedNet)) = 0), Nat.add_zero]
    · rw [← List.singleton_append, ← List.append_assoc]
      refine ih hl (by simp [hi]) (fun h => by cases h) ?_ ?_ ?_ e he
      · intro n hn y hy
        obtain rfl := Option.some.inj hn
        rcases List.mem_append.mp hy with hy | hy
        · cases before with
          | none => rw [hnone rfl] at hy; cases hy
          | some m => exact (hnext m rfl v List.mem_cons_self).trans (hlow m rfl y hy)
        · rw [List.mem_singleton.mp hy]
      · intro n hn x hx
        obtain rfl := Option.some.inj hn
        exact hv x hx
      · rw [hrank, List.countP_append]
        simp

section

variable {names : Address → String} {period : LeaderboardPeriod} {accounts : List AppAccount} {facts : List LedgerFact}
  {creators : Address → Option Address} {complete : Finset Address} {K : Type} [LinearOrder K] {locale : Collation K}
  {entries : List LeaderboardEntry} {excluded : List (Address × List String)}

theorem ranksBefore.le {a b : LeaderboardEntry} (h : ranksBefore locale a b) : b.realizedNet ≤ a.realizedNet := by
  rcases h with h | ⟨h, -⟩
  · exact h.le
  · exact h.ge

instance : Std.Total (ranksBefore locale) where
  total a b := by
    unfold ranksBefore
    rw [Collation.localeCompare_le, Collation.localeCompare_le]
    rcases lt_trichotomy a.realizedNet b.realizedNet with h | h | h
    · exact .inr (.inl h)
    · exact (le_total (locale.sortKey (accountText a.account)) (locale.sortKey (accountText b.account))).imp
        (fun hk => .inr ⟨h, hk⟩) fun hk => .inr ⟨h.symm, hk⟩
    · exact .inl (.inl h)

instance : IsTrans LeaderboardEntry (ranksBefore locale) where
  trans a b c hab hbc := by
    unfold ranksBefore at *
    rw [Collation.localeCompare_le] at *
    rcases hab with hab | ⟨hab, hk⟩
    · rcases hbc with hbc | ⟨hbc, -⟩
      · exact .inl (hbc.trans hab)
      · exact .inl (hbc ▸ hab)
    · rcases hbc with hbc | ⟨hbc, hk'⟩
      · exact .inl (hab ▸ hbc)
      · exact .inr ⟨hab.trans hbc, hk.trans hk'⟩

/-- The account took part and its profits are complete: the entry has its score. -/
structure Scored (names : Address → String) (period : LeaderboardPeriod) (accounts : List AppAccount)
    (facts : List LedgerFact)
    (creators : Address → Option Address) (complete : Finset Address) (account : AppAccount) (e : LeaderboardEntry) :
    Prop where
  address : e.account = account.address
  part : participated period accounts facts creators account ≠ []
  marketCount : e.marketCount = (participated period accounts facts creators account).length
  score : scoreAccount names period accounts facts creators complete account = some ⟨e.realizedNet, []⟩

theorem Scored.of_score {account : AppAccount} {e e' : LeaderboardEntry} (he : e'.score = e.score)
    (h : Scored names period accounts facts creators complete account e) :
    Scored names period accounts facts creators complete account e' := by
  obtain ⟨haccount, hnet, hcount⟩ := by simpa only [LeaderboardEntry.score, Prod.mk.injEq] using he
  exact ⟨haccount.trans h.address, h.part, hcount.trans h.marketCount, by rw [hnet]; exact h.score⟩

/-- What the loop has collected of some accounts, besides what it had. -/
structure Collected (names : Address → String) (period : LeaderboardPeriod) (accounts : List AppAccount)
    (facts : List LedgerFact)
    (creators : Address → Option Address) (complete : Finset Address) (l : List AppAccount)
    (acc res : List LeaderboardEntry × List (Address × List String)) : Prop where
  listed : acc.1 ⊆ res.1
  excluded : acc.2 ⊆ res.2
  sound : ∀ e ∈ res.1, e ∈ acc.1 ∨ ∃ account ∈ l, Scored names period accounts facts creators complete account e
  total : ∀ account ∈ l, participated period accounts facts creators account ≠ [] →
    (∃ e ∈ res.1, Scored names period accounts facts creators complete account e) ∨
      ∃ s, scoreAccount names period accounts facts creators complete account = some s ∧ s.reasons ≠ [] ∧
        ∃ x ∈ res.2, x.1 = account.address

theorem addScore_ok {account : AppAccount} {acc res : List LeaderboardEntry × List (Address × List String)}
    (h : addScore names period accounts facts creators complete acc account = some res) :
    Collected names period accounts facts creators complete [account] acc res := by
  unfold addScore at h
  simp only at h
  split at h
  · rename_i hnone
    obtain rfl := Option.some.inj h
    refine ⟨List.Subset.refl _, List.Subset.refl _, fun e he => .inl he, fun x hx hpart => ?_⟩
    rw [List.mem_singleton.mp hx] at hpart
    exact absurd (List.isEmpty_iff.mp hnone) hpart
  · rename_i hpart
    rw [List.isEmpty_iff] at hpart
    obtain ⟨score, hscore, h⟩ := Option.bind_eq_some_iff.mp h
    split at h
    · rename_i hreasons
      obtain rfl := Option.some.inj h
      have hnew : Scored names period accounts facts creators complete account
          ⟨account.address, score.total, (participated period accounts facts creators account).length, 0⟩ := by
        refine ⟨rfl, hpart, rfl, hscore.trans ?_⟩
        rw [← List.isEmpty_iff.mp hreasons]
      refine ⟨List.subset_append_left _ _, List.Subset.refl _, fun e he => ?_, fun x hx _ => ?_⟩
      · rcases List.mem_append.mp he with he | he
        · exact .inl he
        · rw [List.mem_singleton.mp he]
          exact .inr ⟨account, List.mem_singleton_self _, hnew⟩
      · rw [List.mem_singleton.mp hx]
        exact .inl ⟨_, List.mem_append_right _ (List.mem_singleton_self _), hnew⟩
    · rename_i hreasons
      obtain rfl := Option.some.inj h
      refine ⟨List.Subset.refl _, List.subset_append_left _ _, fun e he => .inl he, fun x hx _ => ?_⟩
      rw [List.mem_singleton.mp hx]
      refine .inr ⟨score, hscore, fun he => hreasons (List.isEmpty_iff.mpr he), _,
        List.mem_append_right _ (List.mem_singleton_self _), rfl⟩

theorem addScores_ok {l : List AppAccount} {acc res : List LeaderboardEntry × List (Address × List String)}
    (h : l.foldlM (addScore names period accounts facts creators complete) acc = some res) :
    Collected names period accounts facts creators complete l acc res := by
  induction l generalizing acc with
  | nil =>
    obtain rfl := Option.some.inj h
    exact ⟨List.Subset.refl _, List.Subset.refl _, fun e he => .inl he, fun x hx => (List.not_mem_nil hx).elim⟩
  | cons account l ih =>
    obtain ⟨acc₁, h₁, h⟩ := Option.bind_eq_some_iff.mp ((List.foldlM_cons ..).symm.trans h)
    have hfirst := addScore_ok h₁
    have hrest := ih h
    refine ⟨List.Subset.trans hfirst.listed hrest.listed, List.Subset.trans hfirst.excluded hrest.excluded,
      fun e he => ?_, fun x hx hpart => ?_⟩
    · rcases hrest.sound e he with he | ⟨x, hx, hs⟩
      · rcases hfirst.sound e he with he | ⟨x, hx, hs⟩
        · exact .inl he
        · rw [List.mem_singleton.mp hx] at hs
          exact .inr ⟨account, List.mem_cons_self, hs⟩
      · exact .inr ⟨x, List.mem_cons_of_mem _ hx, hs⟩
    · rcases List.mem_cons.mp hx with rfl | hx
      · rcases hfirst.total x (List.mem_singleton_self _) hpart with ⟨e, he, hs⟩ | ⟨s, hs, hreasons, y, hy, hya⟩
        · exact .inl ⟨e, hrest.listed he, hs⟩
        · exact .inr ⟨s, hs, hreasons, y, hrest.excluded hy, hya⟩
      · exact hrest.total x hx hpart

/-- The table has an entry for every account that took part and whose profits are complete, and no other; an account
that took part and whose profits are not complete is left out with its reasons. The scores do not rise, and the rank
of an entry counts those with a higher score. -/
theorem scoreLeaderboard_ok
    (h : scoreLeaderboard names period accounts facts creators complete locale = some (entries, excluded)) :
    (∀ e ∈ entries, ∃ account ∈ accounts, Scored names period accounts facts creators complete account e) ∧
    (∀ account ∈ accounts, participated period accounts facts creators account ≠ [] →
      (∃ e ∈ entries, Scored names period accounts facts creators complete account e) ∨
        ∃ s, scoreAccount names period accounts facts creators complete account = some s ∧ s.reasons ≠ [] ∧
          ∃ x ∈ excluded, x.1 = account.address) ∧
    (entries.Pairwise fun a b => b.realizedNet ≤ a.realizedNet) ∧
    ∀ e ∈ entries, e.rank = 1 + entries.countP fun x => e.realizedNet < x.realizedNet := by
  obtain ⟨⟨values, left⟩, hscores, h⟩ := Option.bind_eq_some_iff.mp h
  obtain ⟨rfl, rfl⟩ := Prod.mk.inj (Option.some.inj h)
  have hc := addScores_ok hscores
  have hperm : (values.insertionSort (ranksBefore locale)).Perm values := List.perm_insertionSort _ _
  have hsorted : (values.insertionSort (ranksBefore locale)).Pairwise fun a b => b.realizedNet ≤ a.realizedNet :=
    (List.pairwise_insertionSort (ranksBefore locale) values).imp ranksBefore.le
  have hscore := rank_score 0 1 none (values.insertionSort (ranksBefore locale))
  refine ⟨fun e he => ?_, fun account ha hpart => ?_, ?_, fun e he => ?_⟩
  · obtain ⟨v, hv, hve⟩ := List.mem_map.mp (hscore ▸ List.mem_map_of_mem he)
    rcases hc.sound v (hperm.mem_iff.mp hv) with hv | ⟨account, ha, hs⟩
    · cases hv
    · exact ⟨account, ha, hs.of_score hve.symm⟩
  · rcases hc.total account ha hpart with ⟨v, hv, hs⟩ | ⟨s, hs, hreasons, x, hx, hxa⟩
    · obtain ⟨e, he, hev⟩ := List.mem_map.mp (hscore ▸ List.mem_map_of_mem (hperm.mem_iff.mpr hv))
      exact .inl ⟨e, he, hs.of_score hev⟩
    · exact .inr ⟨s, hs, hreasons, x, (List.mem_insertionSort _).mpr hx, hxa⟩
  · have hnets := congrArg (List.map fun x => x.2.1) hscore
    simp only [List.map_map] at hnets
    rw [← List.pairwise_map (f := LeaderboardEntry.realizedNet) (R := fun a b => b ≤ a)] at hsorted ⊢
    exact (congrArg _ hnets).mpr hsorted
  · have hcount : (rank 0 1 none (values.insertionSort (ranksBefore locale))).countP
      (fun x => e.realizedNet < x.realizedNet) =
        (values.insertionSort (ranksBefore locale)).countP fun x => e.realizedNet < x.realizedNet := by
      have hmap := congrArg (List.countP fun x => decide (e.realizedNet < x.2.1)) hscore
      rwa [List.countP_map, List.countP_map] at hmap
    rw [hcount]
    exact @rank_ok 0 1 none [] _ hsorted rfl (fun _ => rfl) (fun n hn => by cases hn) (fun n hn => by cases hn) rfl e he

end

/-! ## Before the first trade -/

section

variable {owner m : Address}

/-- The account holds nothing in the market. -/
def Idle (m : Address) (h : Holdings) : Prop := ∀ l ∈ h.lots, l.key.market = m → l.units = 0

theorem idle_open {h : Holdings} (hi : Idle m h) (k : LotKey) : Idle m (h.open k) := by
  intro l hl hm
  rcases Table.mem_insertNew hl with hl | ⟨rfl, -⟩
  · exact hi l hl hm
  · rfl

theorem idle_change {h : Holdings} {k : LotKey} {g : Lot → Lot} (hkey : ∀ l, (g l).key = l.key)
    (hg : ∀ l, l.key.market = m → l.key = k → l.units = 0 → (g l).units = 0) (hi : Idle m h) :
    Idle m (h.change k g) := by
  intro l hl hm
  obtain ⟨q, hq, rfl⟩ := Table.mem_update.mp hl
  split at hm
  · rename_i hk
    rw [if_pos hk]
    rw [hkey] at hm
    exact hg q hm hk (hi q hq hm)
  · rename_i hk
    rw [if_neg hk]
    exact hi q hq hm

theorem idle_dispose {h : Holdings} (hi : Idle m h) (k : LotKey) (units : Nat) (escrow : Bool) :
    Idle m (h.dispose k units escrow).2.1 :=
  idle_change (fun _ => rfl) (fun l _ _ hl => by simp [Lot.dispose, hl]) hi

theorem idle_writeOff {h : Holdings} (hi : Idle m h) (k : LotKey) : Idle m (h.writeOff k).1 :=
  idle_change (fun _ => rfl) (fun _ _ _ hl => hl) hi

theorem idle_acquire {h : Holdings} (hi : Idle m h) {k : LotKey} (hk : k.market ≠ m) (units : Nat) (cost : Option Int) :
    Idle m (h.acquire k units cost).1 := by
  have hchange : Idle m (h.change k fun lot => lot.acquire units cost) :=
    idle_change (fun _ => rfl) (fun l hm hl _ => absurd (hl ▸ hm) hk) hi
  unfold Holdings.acquire
  dsimp only
  split
  · split
    · exact idle_writeOff hchange k
    · exact hchange
  · exact hchange

theorem idle_burnPart {b : Holdings.Burn} (hi : Idle m b.holdings) (market : Address) (p : Part) :
    Idle m (b.part market p).holdings := by
  unfold Holdings.Burn.part
  split
  · exact idle_dispose (idle_open hi _) _ _ _
  · exact hi

theorem idle_burn {h : Holdings} (hi : Idle m h) (f : LedgerFact) (market : Address) (units value : Nat) :
    Idle m (h.onBurn f market units value).1 := by
  have hfold : ∀ (parts : List Part) (b : Holdings.Burn), Idle m b.holdings →
    Idle m (parts.foldl (Holdings.Burn.part market) b).holdings := by
    intro parts
    induction parts with
    | nil => exact fun b hb => hb
    | cons p parts ih => exact fun b hb => ih _ (idle_burnPart hb market p)
  exact hfold _ ⟨0, 0, true, none, h, []⟩ hi

/-- At the resolution of a market nothing is written off in a market in which nothing is held. -/
theorem idle_resolved {h : Holdings} (hi : Idle m h) (market : Address) (outcomeId : Nat) :
    Idle m (h.onMarketResolved market outcomeId).1 ∧ (market = m → (h.onMarketResolved market outcomeId).2 = []) := by
  unfold Holdings.onMarketResolved
  dsimp only
  have hfold : ∀ (keys : List LotKey) (acc : Holdings × List Note), Idle m acc.1 → (market = m → acc.2 = []) →
      let out := keys.foldl (fun (acc : Holdings × List Note) k =>
        if k.market = market ∧ k.outcomeId ≠ outcomeId ∧ 0 < (acc.1.getLot k).units ∧
          (acc.1.getLot k).lossSettled = false then
          ((acc.1.writeOff k).1, acc.2 ++ (acc.1.writeOff k).2)
        else acc) acc
      Idle m out.1 ∧ (market = m → out.2 = []) := by
    intro keys
    induction keys with
    | nil => exact fun acc hi hn => ⟨hi, hn⟩
    | cons k keys ih =>
      intro acc hi hn
      rw [List.foldl_cons]
      split
      · rename_i hk
        refine ih _ (idle_writeOff hi k) fun hm => ?_
        -- a lot of the market has no units
        have hunits : (acc.1.getLot k).units = 0 := by
          unfold Holdings.getLot
          cases hf : Table.find Lot.key k acc.1.lots with
          | none => rfl
          | some l =>
            obtain ⟨hl, hkey⟩ := Table.mem_of_find hf
            exact hi l hl (by rw [hkey, hk.1, hm])
        omega
      · exact ih acc hi hn
  exact hfold _ _ hi fun _ => rfl

/-- A handler leaves the account without holdings in the market, and writes no entry there. -/
def Spared (m : Address) (f : LedgerFact) (out : Holdings × List Note) : Prop :=
  Idle m out.1 ∧ (f.market = some m → out.2.filterMap (Note.entry f) = [])

variable {f : LedgerFact} {h : Holdings}

theorem spared_nothing (hi : Idle m h) : Spared m f (h, []) := ⟨hi, fun _ => rfl⟩

theorem spared_missing (hi : Idle m h) (p : Prop) [Decidable p] (reason : String) :
    Spared m f (h, if p then [.missing reason] else []) := ⟨hi, fun _ => by split <;> rfl⟩

theorem spared_whenMine {g : Holdings → Holdings × List Note} (hi : Idle m h) (hg : Holdings.mine owner f = true →
    Spared m f (g h)) :
    Spared m f (Holdings.whenMine owner f g h) := by
  unfold Holdings.whenMine
  split
  · rename_i hmine
    exact hg hmine
  · exact spared_nothing hi

theorem spared_withLot {g : LotKey → Holdings → Holdings × List Note} (hi : Idle m h)
    (hg : ∀ k : LotKey, f.market = some k.market → Spared m f (g k h)) : Spared m f (Holdings.withLot f g h) := by
  unfold Holdings.withLot
  split
  · rename_i k hk
    simp only [Holdings.lotKey, Option.bind_eq_some_iff, Option.map_eq_some_iff] at hk
    obtain ⟨market, hm, outcomeId, -, rfl⟩ := hk
    exact hg _ hm
  · exact spared_nothing hi

theorem spared_withMarket {g : Address → Holdings → Holdings × List Note} (hi : Idle m h)
    (hg : ∀ market, f.market = some market → Spared m f (g market h)) : Spared m f (Holdings.withMarket f g h) := by
  unfold Holdings.withMarket
  split
  · rename_i market hm
    exact hg market hm
  · exact spared_nothing hi

/-- What happens in another market. -/
theorem spared_elsewhere {out : Holdings × List Note} (hi : Idle m out.1) (hne : f.market ≠ some m) : Spared m f out :=
  ⟨hi, fun hm => absurd hm hne⟩

theorem idle_filled (hi : Idle m h) {k : LotKey} (hk : k.market ≠ m) (units value : Nat) :
    Idle m (h.onListingFilled owner f k units value).1 := by
  cases hm : Holdings.mine owner f <;> cases ho : Holdings.other owner f
  · rw [filled_of_others k units value h hm ho]
    exact hi
  · rw [filled_sale k units value h hm ho]
    exact idle_dispose hi k units _
  · rw [filled_purchase k units value h hm ho]
    exact idle_acquire hi hk _ _
  · rw [filled_self k units value h hm ho]
    exact idle_change (fun _ => rfl) (fun _ _ _ hl => hl) hi

theorem idle_transferred (hi : Idle m h) {k : LotKey} (hk : k.market ≠ m) (units : Nat) :
    Idle m (h.onShareTransfer owner f k units).1 := by
  cases hm : Holdings.mine owner f <;> cases ho : Holdings.other owner f
  · rw [transferred_unmoved k units h (hm.trans ho.symm)]
    exact hi
  · rw [transferred_taken k units h hm ho]
    exact idle_acquire hi hk _ _
  · rw [transferred_given k units h hm ho]
    exact idle_dispose hi k units _
  · rw [transferred_unmoved k units h (hm.trans ho.symm)]
    exact hi

theorem idle_settleBond (hi : Idle m h) (market : Address) : Idle m (h.settleBond market) := by
  unfold Holdings.settleBond
  split
  · exact hi
  · exact hi

/-- A fact that is no participation of the account in the market leaves it without holdings there, and writes no
entry there. -/
theorem spared_step (hi : Idle m h) {endsAt : Nat} (ht : f.timestamp < endsAt)
    (hno : participates owner m endsAt f = false) :
    Spared m f (h.step owner f) := by
  have hopen : Idle m ((Holdings.lotKey f).elim h h.open) := by
    cases Holdings.lotKey f with
    | none => exact hi
    | some k => exact idle_open hi k
  -- a fact of the kinds that are participations is one of others, or one in another market
  have hkind : f.kind ∈ participationKinds → f.market = some m → Holdings.mine owner f = false ∧
    Holdings.other owner f = false := by
    intro hk hm
    simpa [participates, ht, hk, hm] using hno
  have hmine : f.kind ∈ participationKinds → Holdings.mine owner f = true → f.market ≠ some m := by
    intro hk hmine hm
    rw [(hkind hk hm).1] at hmine
    cases hmine
  unfold Holdings.step
  dsimp only
  generalize (Holdings.lotKey f).elim h h.open = h at hopen
  cases hf : f.kind <;> simp only [hf, participationKinds, List.mem_cons, reduceCtorEq, List.not_mem_nil, or_false,
    or_self, or_true,
    forall_const, false_implies] at hkind hmine
  case coverageGap => exact spared_missing hopen _ _
  case primaryBuy =>
    refine spared_whenMine hopen fun hmn => spared_withLot hopen fun k hk => spared_elsewhere ?_ (hmine hmn)
    exact idle_acquire hopen (fun hkm => hmine hmn (hkm ▸ hk)) _ _
  case listingCreated =>
    refine spared_whenMine hopen fun _ => spared_withLot hopen fun k hk => spared_missing ?_ _ _
    exact idle_change (fun _ => rfl) (fun _ _ _ hl => hl) hopen
  case listingCancelled =>
    refine spared_whenMine hopen fun _ => spared_withLot hopen fun k hk => spared_missing ?_ _ _
    exact idle_change (fun _ => rfl) (fun _ _ _ hl => hl) hopen
  case listingReturned =>
    refine spared_whenMine hopen fun _ => spared_withLot hopen fun k hk => spared_missing ?_ _ _
    exact idle_change (fun _ => rfl) (fun _ _ _ hl => hl) hopen
  case listingFilled =>
    refine spared_withLot hopen fun k hk => ?_
    by_cases hkm : k.market = m
    · obtain ⟨hm, ho⟩ := hkind (hkm ▸ hk)
      rw [filled_of_others _ _ _ _ hm ho]
      exact spared_nothing hopen
    · exact spared_elsewhere (idle_filled hopen hkm _ _) fun hm => hkm (Option.some.inj (hk.symm.trans hm))
  case shareTransfer =>
    refine spared_withLot hopen fun k hk => ?_
    by_cases hkm : k.market = m
    · obtain ⟨hm, ho⟩ := hkind (hkm ▸ hk)
      rw [transferred_unmoved _ _ _ (hm.trans ho.symm)]
      exact spared_nothing hopen
    · exact spared_elsewhere (idle_transferred hopen hkm _) fun hm => hkm (Option.some.inj (hk.symm.trans hm))
  case marketResolved =>
    refine spared_withLot hopen fun k hk => ?_
    obtain ⟨hidle, hnone⟩ := idle_resolved hopen k.market k.outcomeId
    refine ⟨hidle, fun hm => ?_⟩
    rw [hnone (Option.some.inj (hk.symm.trans hm))]
    rfl
  case winnerClaimed =>
    exact spared_whenMine hopen fun hmn => spared_withMarket hopen fun market _ =>
      spared_elsewhere (idle_burn hopen f _ _ _) (hmine hmn)
  case refunded =>
    exact spared_whenMine hopen fun hmn => spared_withMarket hopen fun market _ =>
      spared_elsewhere (idle_burn hopen f _ _ _) (hmine hmn)
  case losingBurned =>
    refine spared_whenMine hopen fun _ => spared_withMarket hopen fun market _ => ⟨idle_burn hopen f _ _ _, fun _ => ?_⟩
    unfold Holdings.onBurn
    dsimp only
    rw [List.filterMap_append, foldl_part_entries, hf, if_neg (by simp)]
    split_ifs <;> rfl
  case earlyBirdClaimed =>
    refine ⟨hopen, fun hm => ?_⟩
    rw [(hkind hm).1]
    rfl
  case timeoutClaimed =>
    refine ⟨hopen, fun hm => ?_⟩
    rw [(hkind hm).1]
    rfl
  case bondLocked => exact spared_whenMine hopen fun _ => spared_withMarket hopen fun _ _ => spared_nothing hopen
  case bondCredited =>
    refine spared_whenMine hopen fun _ => spared_withMarket hopen fun market _ => spared_nothing ?_
    unfold Holdings.onBondCredited
    split
    · exact hopen
    · exact idle_settleBond (by exact hopen) market
  case bondTimeoutFunded =>
    refine spared_withMarket hopen fun market _ => spared_nothing ?_
    unfold Holdings.onBondTimeoutFunded
    split
    · exact idle_settleBond (by exact hopen) market
    · exact hopen
  case bondClaimed => exact spared_whenMine hopen fun _ => spared_nothing hopen
  all_goals exact spared_nothing hopen

/-- Before its first trade in a market the account has no entries there. -/
theorem no_entries_of_absent {l : List LedgerFact} {u : Nat}
    (hl : ∀ f ∈ l, f.timestamp < u ∧ participates owner m u f = false) (hi : Idle m h) :
    ∀ e ∈ entriesAfter owner h l, e.market ≠ m := by
  induction l generalizing h with
  | nil => simp [entriesAfter]
  | cons f l ih =>
    obtain ⟨ht, hno⟩ := hl f List.mem_cons_self
    obtain ⟨hidle, hnone⟩ := spared_step hi ht hno
    intro e he hm
    rcases List.mem_append.mp he with he | he
    · have hmarket := (mem_entriesOf owner he).2
      rw [hm] at hmarket
      rw [entriesOf, hnone hmarket] at he
      cases he
    · exact ih (fun g hg => hl g (List.mem_cons_of_mem f hg)) hidle e he hm

end

/-! ## Scores -/

section

variable (names : Address → String) (accounts : List AppAccount) (facts : List LedgerFact)
  (creators : Address → Option Address)
  (complete : Finset Address)

/-- The profit of an account in a market of the roster. -/
def marketNet (account : Address) (u : Nat) (m : PeriodMarket) : Int :=
  let o := scoreOptions complete account u m
  netOf ((entriesAfter account .empty (history o facts)).filter (shown o))

/-- The total is the sum over the markets. -/
theorem scoreMarkets_total {account : Address} {endsAt : Nat} {markets : List PeriodMarket} {s : Score}
    (h : scoreMarkets names facts complete account endsAt markets = some s) :
    s.total = (markets.map (marketNet facts complete account endsAt)).sum := by
  have hfold : ∀ (markets : List PeriodMarket) (s₀ s : Score), markets.foldlM (fun score m => do
      let pnl ← computePnl names (scoreOptions complete account endsAt m) account facts
      some ⟨score.total + pnl.knownRealizedNet, if pnl.complete then score.reasons else
        pnl.missingReasons.foldl (fun rs r => if r ∈ rs then rs else rs ++ [r]) score.reasons⟩) s₀ = some s →
      s.total = s₀.total + (markets.map (marketNet facts complete account endsAt)).sum := by
    intro markets
    induction markets with
    | nil =>
      intro s₀ s h
      cases h
      simp
    | cons m markets ih =>
      intro s₀ s h
      rw [List.foldlM_cons] at h
      obtain ⟨s₁, h₁, h⟩ := Option.bind_eq_some_iff.mp h
      obtain ⟨pnl, hpnl, h₁⟩ := Option.bind_eq_some_iff.mp h₁
      cases h₁
      rw [ih _ _ h, List.map_cons, List.sum_cons, computePnl_net names _ account hpnl,
        computePnl_entries names _ account hpnl]
      exact add_assoc _ _ _
  rw [hfold markets ⟨0, []⟩ s h]
  exact zero_add _

/-- The markets in which the account took part, by their indicators. -/
theorem sum_filter_split {l : List PeriodMarket} {p q : PeriodMarket → Bool} {f g g' : PeriodMarket → Int}
    (h : ∀ m ∈ l, (if p m then f m else 0) = (if q m then g m else 0) + if p m then g' m else 0) :
    ((l.filter p).map f).sum = ((l.filter q).map g).sum + ((l.filter p).map g').sum := by
  induction l with
  | nil => rfl
  | cons m l ih =>
    have hm := h m List.mem_cons_self
    have hl := ih fun x hx => h x (List.mem_cons_of_mem m hx)
    cases hp : p m <;> cases hq : q m <;> simp only [hp, hq, Bool.false_eq_true, if_true, if_false] at hm <;>
      simp only [List.filter_cons, hp, hq, Bool.false_eq_true, if_true, if_false, List.map_cons, List.sum_cons, hl]
        <;> omega

/-- A market counts nothing in a period in which the account has not taken part in it. -/
theorem marketNet_of_absent {account : Address} {endsAt : Nat} {m : PeriodMarket}
    (h : facts.any (participates account m.market endsAt) = false) : marketNet facts complete account endsAt m = 0 := by
  have hnone : (entriesAfter account .empty (history (scoreOptions complete account endsAt m) facts)).filter
      (shown (scoreOptions complete account endsAt m)) = [] := by
    rw [List.filter_eq_nil_iff]
    intro e he hshown
    have hmarket : e.market = m.market := by simpa [shown, scoreOptions] using (Bool.and_eq_true_iff.mp hshown).2
    refine no_entries_of_absent (m := m.market) (u := endsAt) ?_ (fun l hl => by cases hl) e he hmarket
    intro f hf
    obtain ⟨hf, ht⟩ := List.mem_filter.mp hf
    refine ⟨by simpa [scoreOptions] using ht, ?_⟩
    have hmem : f ∈ facts := mem_sortFacts.mp ((firsts_sublist [] _).subset hf)
    exact Bool.eq_false_iff.mpr fun hp => Bool.eq_false_iff.mp h (List.any_eq_true.mpr ⟨f, hmem, hp⟩)
  unfold marketNet
  dsimp only
  rw [hnone]
  rfl

/-- The profit over a window is that of its parts. -/
theorem marketNet_split (ht : Timed facts) (account : Address) {b e : Nat} {m : PeriodMarket}
    (hb : m.startsAt ≤ b) (he : b ≤ e) :
    marketNet facts complete account e m =
      marketNet facts complete account b m + marketNet facts complete account e ⟨m.market, b⟩ := by
  have h := entries_window ⟨decide (account ∈ complete), none, none, some {m.market}⟩ account ht hb he
  unfold marketNet
  dsimp only
  rw [← netOf_append]
  exact congrArg netOf h

theorem participates_mono {account market : Address} {b e : Nat} (he : b ≤ e) {f : LedgerFact}
    (h : participates account market b f = true) : participates account market e f = true := by
  simp only [participates, Bool.and_eq_true, decide_eq_true_eq] at h ⊢
  exact ⟨⟨⟨h.1.1.1, by omega⟩, h.1.2⟩, h.2⟩

/-- The score of a roster is the sum of the scores of its parts. -/
theorem score_roster {account : AppAccount} {endsAt : Nat} {ms ms₁ ms₂ : List PeriodMarket}
    (hp : ms.Perm (ms₁ ++ ms₂)) {s s₁ s₂ : Score}
    (h : scoreAccount names ⟨endsAt, ms⟩ accounts facts creators complete account = some s)
    (h₁ : scoreAccount names ⟨endsAt, ms₁⟩ accounts facts creators complete account = some s₁)
    (h₂ : scoreAccount names ⟨endsAt, ms₂⟩ accounts facts creators complete account = some s₂) :
    s.total = s₁.total + s₂.total := by
  rw [scoreMarkets_total names facts complete h, scoreMarkets_total names facts complete h₁,
    scoreMarkets_total names facts complete h₂,
    ← List.sum_append, ← List.map_append]
  refine (List.Perm.map _ ?_).sum_eq
  simp only [participated, ← List.filter_append]
  exact (hp.filter _).filter _

/-- The score of a period is the sum of the scores of its parts. -/
theorem score_period (ht : Timed facts) {account : AppAccount} {b e : Nat} {ms : List PeriodMarket}
    (hb : ∀ m ∈ ms, m.startsAt ≤ b)
    (he : b ≤ e) {s s₁ s₂ : Score} (h : scoreAccount names ⟨e, ms⟩ accounts facts creators complete account = some s)
    (h₁ : scoreAccount names ⟨b, ms⟩ accounts facts creators complete account = some s₁)
    (h₂ : scoreAccount names ⟨e, ms.map fun m => ⟨m.market, b⟩⟩ accounts facts creators complete account = some s₂) :
    s.total = s₁.total + s₂.total := by
  have hmap : participated ⟨e, ms.map fun m => ⟨m.market, b⟩⟩ accounts facts creators account =
      (participated ⟨e, ms⟩ accounts facts creators account).map fun m => ⟨m.market, b⟩ := by
    simp only [participated, List.filter_map]
    rfl
  rw [scoreMarkets_total names facts complete h, scoreMarkets_total names facts complete h₁,
    scoreMarkets_total names facts complete h₂,
    hmap, List.map_map]
  refine sum_filter_split fun m hm => ?_
  have hsplit := marketNet_split facts complete ht account.address (hb m (List.mem_filter.mp hm).1) he
  cases hlate : facts.any (participates account.address m.market b) with
  | true =>
    have hall : facts.any (participates account.address m.market e) = true := by
      obtain ⟨f, hf, hpart⟩ := List.any_eq_true.mp hlate
      exact List.any_eq_true.mpr ⟨f, hf, participates_mono he hpart⟩
    simp only [hall, if_true, hsplit, Function.comp]
  | false =>
    have hzero := marketNet_of_absent facts complete hlate
    simp only [hsplit, hzero, Function.comp, Bool.false_eq_true, if_false, zero_add]

/-- **Profit does not depend on how it is asked for.** For facts that are the same where their positions are, with
timestamps that do not decrease along the chain: the result depends only on which facts there are, the entries of a
window are those of its two parts one after the other, the net of two disjoint sets of markets is the sum of theirs,
and so the score of an account is the sum of its scores for the parts of a roster or of a period. -/
theorem computePnl_additive (o : PnlOptions) (owner : Address) {input : List LedgerFact}
    (hsame : ∀ f ∈ input, ∀ g ∈ input, f.position = g.position → f = g) (ht : Timed input) :
    (∀ input', (∀ f, f ∈ input ↔ f ∈ input') → computePnl names o owner input = computePnl names o owner input') ∧
    (∀ a b c, a ≤ b → b ≤ c → ∀ p q r, computePnl names (o.window a b) owner input = some p →
      computePnl names (o.window b c) owner input = some q → computePnl names (o.window a c) owner input = some r →
      r.entries = p.entries ++ q.entries ∧ r.knownRealizedNet = p.knownRealizedNet + q.knownRealizedNet) ∧
    (∀ M N, Disjoint M N → ∀ p q r, computePnl names (o.only M) owner input = some p →
      computePnl names (o.only N) owner input = some q →
      computePnl names (o.only (M ∪ N)) owner input = some r →
        r.knownRealizedNet = p.knownRealizedNet + q.knownRealizedNet) ∧
    (∀ accounts creators complete account endsAt ms ms₁ ms₂, List.Perm ms (ms₁ ++ ms₂) → ∀ s s₁ s₂,
      scoreAccount names ⟨endsAt, ms⟩ accounts input creators complete account = some s →
      scoreAccount names ⟨endsAt, ms₁⟩ accounts input creators complete account = some s₁ →
      scoreAccount names ⟨endsAt, ms₂⟩ accounts input creators complete account = some s₂ →
        s.total = s₁.total + s₂.total) ∧
    (∀ accounts creators complete account b e, b ≤ e → ∀ ms : List PeriodMarket, (∀ m ∈ ms, m.startsAt ≤ b) → ∀ s s₁ s₂,
      scoreAccount names ⟨e, ms⟩ accounts input creators complete account = some s →
      scoreAccount names ⟨b, ms⟩ accounts input creators complete account = some s₁ →
      scoreAccount names ⟨e, ms.map fun m => ⟨m.market, b⟩⟩ accounts input creators complete account = some s₂ →
      s.total = s₁.total + s₂.total) := by
  refine ⟨fun input' hmem => computePnl_congr names o owner hmem hsame, ?_, ?_, ?_, ?_⟩
  · intro a b c hab hbc p q r hp hq hr
    have hentries : r.entries = p.entries ++ q.entries := by
      rw [computePnl_entries names _ owner hp, computePnl_entries names _ owner hq, computePnl_entries names _ owner hr]
      exact entries_window o owner ht hab hbc
    refine ⟨hentries, ?_⟩
    rw [computePnl_net names _ owner hp, computePnl_net names _ owner hq, computePnl_net names _ owner hr,
      hentries, netOf_append]
  · intro M N hd p q r hp hq hr
    rw [computePnl_net names _ owner hp, computePnl_net names _ owner hq, computePnl_net names _ owner hr,
      computePnl_entries names _ owner hp, computePnl_entries names _ owner hq, computePnl_entries names _ owner hr]
    exact netOf_union o hd _
  · intro accounts creators complete account endsAt ms ms₁ ms₂ hperm s s₁ s₂ h h₁ h₂
    exact score_roster names accounts input creators complete hperm h h₁ h₂
  · intro accounts creators complete account b e he ms hb s s₁ s₂ h h₁ h₂
    exact score_period names accounts input creators complete ht hb he h h₁ h₂

/-! ## A purchase and a payout -/

namespace Sample

def alice : Address := addr 1

def market : Address := addr 2

def noExtra : Extra := ⟨none, none, true, none, .unknown⟩

/-- Alice buys four shares for ten in block 1 and claims twenty for them in block 3. -/
def purchase : LedgerFact := ⟨"a", .primaryBuy, 1, 0, 0, 0, 100, some market, some alice, none, some 0, some 4,
    some 10, noExtra⟩

def payout : LedgerFact := ⟨"b", .winnerClaimed, 3, 0, 0, 0, 300, some market, some alice, none, some 0, some 4,
    some 20, noExtra⟩

def all : PnlOptions := ⟨true, none, none, none⟩

def pnl (o : PnlOptions) : Option Pnl := computePnl (fun _ => "m") o alice [payout, purchase]

theorem computePnl_additive_sample : (pnl (all.window 0 400)).map Pnl.knownRealizedNet = some 10 ∧
    ∃ p q r, pnl (all.window 0 200) = some p ∧ pnl (all.window 200 400) = some q ∧ pnl (all.window 0 400) = some r ∧
      r.knownRealizedNet = p.knownRealizedNet + q.knownRealizedNet := by
  have hsame : ∀ f ∈ [payout, purchase], ∀ g ∈ [payout, purchase], f.position = g.position → f = g := by decide +kernel
  have htimed : Timed [payout, purchase] := by
    unfold Timed
    decide +kernel
  obtain ⟨p, hp⟩ := Option.isSome_iff_exists.mp (by decide +kernel : (pnl (all.window 0 200)).isSome = true)
  obtain ⟨q, hq⟩ := Option.isSome_iff_exists.mp (by decide +kernel : (pnl (all.window 200 400)).isSome = true)
  obtain ⟨r, hr⟩ := Option.isSome_iff_exists.mp (by decide +kernel : (pnl (all.window 0 400)).isSome = true)
  refine ⟨by decide +kernel, p, q, r, hp, hq, hr, ?_⟩
  exact ((computePnl_additive (fun _ => "m") all alice hsame htimed).2.1 0 200 400 (by decide) (by decide) p
    q r hp hq hr).2

end Sample

end

end Profit

end Cpredict
