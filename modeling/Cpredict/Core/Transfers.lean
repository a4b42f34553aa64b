import Cpredict.Core.Custodians
import Cpredict.Lib.Transfers

/-!
# The log of share transfers

The vaults log every change of a share balance as a transfer, from or to the zero address when shares are minted or
burned. `Moves` says that a change of the state is the one that the transfers it logs describe, and it composes; so in
every reachable state the logged transfers, replayed from nothing, give every balance (`Ledgered`).
-/

namespace Cpredict

open Outcome Balances Transfers

/-- A transfer of shares of one outcome of a market. The zero address mints and burns. -/
abbrev ShareMove := Move (Address × Nat) Address

/-- The transfers that an event logs. -/
def Event.shareMoves : Event → List ShareMove
  | .vault market (.TransferSingle _ source target id value) => [⟨(market, id), source, target, value⟩]
  | .vault market (.TransferBatch _ source target parts) => parts.map fun p => ⟨(market, p.1), source, target, p.2⟩
  | _ => []

def shareMoves (log : Log) : List ShareMove := log.flatMap fun x => x.event.shareMoves

theorem shareMoves_append (xs ys : Log) : shareMoves (xs ++ ys) = shareMoves xs ++ shareMoves ys := List.flatMap_append

theorem shareMoves_events (t : Nat) (es : List Event) :
    shareMoves (es.map (LogEntry.mk t)) = es.flatMap Event.shareMoves := by
  unfold shareMoves
  rw [List.flatMap_map]

/-! ## The shares of one vault -/

/-- The transfers, all of one market, take the balances of `s` to those of `s'`. -/
structure Shares.Took (market : Address) (s s' : Shares) (ms : List ShareMove) : Prop where
  own : ∀ x ∈ ms, x.asset.1 = market
  replayed : ∀ b : Address × Nat → Address → Nat, (∀ o a, a ≠ 0 → b (market, o) a = s.balanceOf o a) →
    Covered 0 b ms ∧ ∀ o a, a ≠ 0 → replay b ms (market, o) a = s'.balanceOf o a
  nobody : (∀ o, s.balanceOf o 0 = 0) → ∀ o, s'.balanceOf o 0 = 0

namespace Shares

variable {s t s' : Shares} {market source target : Address} {id value : Nat}

theorem Took.refl (market : Address) (s : Shares) : Took market s s [] :=
  ⟨by simp, fun _ hb => ⟨trivial, hb⟩, id⟩

theorem Took.trans {ms ms' : List ShareMove} (h : Took market s t ms) (h' : Took market t s' ms') :
    Took market s s' (ms ++ ms') := by
  refine ⟨fun x hx => ?_, fun b hb => ?_, fun h0 => h'.nobody (h.nobody h0)⟩
  · rcases List.mem_append.mp hx with hx | hx
    · exact h.own x hx
    · exact h'.own x hx
  · obtain ⟨hc, hr⟩ := h.replayed b hb
    obtain ⟨hc', hr'⟩ := h'.replayed _ hr
    exact ⟨covered_append.mpr ⟨hc, hc'⟩, fun o a ha => by rw [replay_append, hr' o a ha]⟩

theorem Took.of_balances (h : s'.balanceOf = s.balanceOf) : Took market s s' [] :=
  ⟨by simp, fun _ hb => ⟨trivial, fun o a ha => by rw [h]; exact hb o a ha⟩, fun h0 o => by rw [h]; exact h0 o⟩

/-- One transfer. -/
theorem Took.one {x : ShareMove} (hx : x.asset = (market, id)) (hp : x.source ≠ 0 → x.units ≤ s.balanceOf id x.source)
    (hs : ∀ o a, a ≠ 0 → s'.balanceOf o a = s.balanceOf o a - sent (market, o) a x + received (market, o) a x)
    (hz : (∀ o, s.balanceOf o 0 = 0) → ∀ o, s'.balanceOf o 0 = 0) : Took market s s' [x] := by
  refine ⟨by simp [hx], fun b hb => ⟨⟨fun h0 => ?_, trivial⟩, fun o a ha => ?_⟩, hz⟩
  · rw [hx, hb id _ h0]
    exact hp h0
  · simp only [replay_cons, replay_nil, apply, hb o a ha, hs o a ha]

theorem mint_took (h : s.mint target id value = .ok s') : Took market s s' [⟨(market, id), 0, target, value⟩] := by
  obtain ⟨htarget, hb, _⟩ := mint_eq_ok h
  refine .one rfl (fun h0 => absurd rfl h0) (fun o a ha => ?_) fun h0 o => by
    rw [hb, update₂_other_holder _ _ (Ne.symm htarget), h0 o]
  simp only [sent, received, hb, Prod.mk.injEq, true_and]
  by_cases ho : id = o
  · subst ho
    by_cases hat : target = a
    · subst hat; simp [update₂, ha.symm]
    · simp [update₂, hat, Ne.symm hat, ha.symm]
  · simp [update₂_of_ne _ _ _ (Ne.symm ho), ho]

theorem burn_took (h : s.burn source id value = .ok s') : Took market s s' [⟨(market, id), source, 0, value⟩] := by
  obtain ⟨hle, hb, _⟩ := burn_eq_ok h
  refine .one rfl (fun _ => hle) (fun o a ha => ?_) fun h0 o => Nat.le_zero.mp ((burn_le h o 0).trans (h0 o).le)
  simp only [sent, received, hb, Prod.mk.injEq, true_and]
  by_cases ho : id = o
  · subst ho
    by_cases has : source = a
    · subst has; simp [update₂, ha.symm]
    · simp [update₂, has, Ne.symm has, ha.symm]
  · simp [update₂_of_ne _ _ _ (Ne.symm ho), ho]

theorem moveOne_took (htarget : target ≠ 0) (h : s.moveOne source target id value = .ok s') :
    Took market s s' [⟨(market, id), source, target, value⟩] := by
  have hnobody := fun o => (moveOne_moved h).losers o 0 (Ne.symm htarget)
  obtain ⟨hle, rfl⟩ := moveOne_eq_ok h
  refine .one rfl (fun _ => hle) (fun o a _ => ?_) fun h0 o => Nat.le_zero.mp ((hnobody o).trans (h0 o).le)
  simp only [sent, received, setBalances, Prod.mk.injEq, true_and, Function.update_apply]
  by_cases ho : id = o
  · subst ho
    simp only [true_and, if_true]
    by_cases hst : source = target
    · subst hst
      rw [move_self _ hle]
      split
      · rename_i has
        subst has
        exact (Nat.sub_add_cancel hle).symm
      · rfl
    · by_cases has : source = a
      · subst has
        rw [move_from _ _ hst, if_pos rfl, if_neg (Ne.symm hst)]
        rfl
      · by_cases hat : target = a
        · subst hat
          rw [move_to _ _ hst, if_neg has, if_pos rfl]
          rfl
        · rw [move_of_ne _ _ (Ne.symm has) (Ne.symm hat), if_neg has, if_neg hat]
          rfl
  · simp [ho, Ne.symm ho]

theorem moveAll_took (htarget : target ≠ 0) : ∀ (parts : List (Nat × Nat)) {s s' : Shares},
    s.moveAll source target parts = .ok s' →
    Took market s s' (parts.map fun p => ⟨(market, p.1), source, target, p.2⟩)
  | [], s, _, h => by cases h; exact .refl market s
  | (id, value) :: rest, s, s', h => by
    simp only [moveAll, bind_eq_ok] at h
    obtain ⟨t, h₁, h₂⟩ := h
    exact (moveOne_took htarget h₁).trans (moveAll_took htarget rest h₂)

theorem safeTransferFrom_took {operator : Address} (h : s.safeTransferFrom operator source target id value = .ok s') :
    Took market s s' [⟨(market, id), source, target, value⟩] := by
  simp only [safeTransferFrom, bind_eq_ok] at h
  obtain ⟨_, hc, h⟩ := h
  exact moveOne_took (checkTransfer_eq_ok hc).2.1 h

theorem safeBatchTransferFrom_took {operator : Address} {parts : List (Nat × Nat)}
    (h : s.safeBatchTransferFrom operator source target parts = .ok s') :
    Took market s s' (parts.map fun p => ⟨(market, p.1), source, target, p.2⟩) := by
  simp only [safeBatchTransferFrom, bind_eq_ok] at h
  obtain ⟨_, hc, h⟩ := h
  exact moveAll_took (checkTransfer_eq_ok hc).2.1 parts h

end Shares

/-- The burns of a refund, of the outcomes that the owner holds. -/
theorem Vault.burnAll_took {market owner : Address} : ∀ {ids : List Nat} {s s' : Shares}, ids.Nodup →
    burnAll owner ids s = .ok s' →
    Shares.Took market s s' ((ids.filter fun o => s.balanceOf o owner ≠ 0).map fun o =>
      ⟨(market, o), owner, 0, s.balanceOf o owner⟩)
  | [], s, _, _, h => by cases h; exact .refl market s
  | id :: rest, s, s', hnd, h => by
    obtain ⟨hnot, hrest⟩ := List.nodup_cons.mp hnd
    simp only [burnAll, bind_eq_ok] at h
    obtain ⟨t, ht, h⟩ := h
    have hb := (burnHeld_eq_ok ht).1
    have hkeep : ∀ o ∈ rest, t.balanceOf o owner = s.balanceOf o owner := fun o ho => by
      rw [hb, update₂_of_ne _ _ _ (by rintro rfl; exact hnot ho)]
    have htail : Shares.Took market t s' _ := burnAll_took hrest h
    have hmoves : ((rest.filter fun o => t.balanceOf o owner ≠ 0).map fun o =>
        (⟨(market, o), owner, 0, t.balanceOf o owner⟩ : ShareMove)) =
        (rest.filter fun o => s.balanceOf o owner ≠ 0).map fun o => ⟨(market, o), owner, 0, s.balanceOf o owner⟩ := by
      rw [List.filter_congr fun o ho => by rw [hkeep o ho]]
      exact List.map_congr_left fun o ho => by rw [hkeep o (List.mem_filter.mp ho).1]
    rw [hmoves] at htail
    unfold burnHeld at ht
    split at ht
    · rename_i hne
      rw [List.filter_cons_of_pos (by simpa using hne), List.map_cons]
      exact (Shares.burn_took ht).trans htail
    · rename_i hz
      cases ht
      rw [List.filter_cons_of_neg (by simpa using hz)]
      exact htail

namespace Core

/-! ## The core -/

/-- The shares of every outcome of every market. -/
def shareHoldings (w : Core) : Address × Nat → Address → Nat := fun k a => (w.vaults k.1).shares.balanceOf k.2 a

/-- A change that is the one of the transfers it logs. What is no market after it was none before, and keeps its
shares. -/
structure Moves (w w' : Core) (ms : List ShareMove) : Prop where
  log : ∃ es, w'.log = w.log ++ es ∧ shareMoves es = ms
  covered : Covered 0 w.shareHoldings ms
  replayed : Agree 0 (replay w.shareHoldings ms) w'.shareHoldings
  unborn : ∀ m, w'.factory.isMarket m = false →
    w.factory.isMarket m = false ∧ (w'.vaults m).shares = (w.vaults m).shares
  nobody : (∀ k, w.shareHoldings k 0 = 0) → ∀ k, w'.shareHoldings k 0 = 0

section

variable {D : Deployment} {w w₁ w' : Core} {caller market owner source target spender : Address} {amount : Nat}
  {ms ms' : List ShareMove}

namespace Moves

/-- A change of no share balance. -/
theorem still (hl : ∃ es, w'.log = w.log ++ es ∧ shareMoves es = [])
    (hv : ∀ m, (w'.vaults m).shares.balanceOf = (w.vaults m).shares.balanceOf)
    (hu : ∀ m, w'.factory.isMarket m = false →
      w.factory.isMarket m = false ∧ (w'.vaults m).shares = (w.vaults m).shares) : Moves w w' [] :=
  ⟨hl, trivial, fun k a _ => by simp only [replay_nil, shareHoldings, hv], hu, fun h0 k => by
    simpa only [shareHoldings, hv] using h0 k⟩

theorem refl (w : Core) : Moves w w [] := .still ⟨[], by simp, rfl⟩ (fun _ => rfl) fun _ h => ⟨h, rfl⟩

theorem trans (h : Moves w w₁ ms) (h' : Moves w₁ w' ms') : Moves w w' (ms ++ ms') := by
  obtain ⟨es, hl, he⟩ := h.log
  obtain ⟨es', hl', he'⟩ := h'.log
  obtain ⟨hcov, hagree⟩ := h.replayed.symm.replay h'.covered
  refine ⟨⟨es ++ es', by rw [hl', hl, List.append_assoc], by rw [shareMoves_append, he, he']⟩,
    covered_append.mpr ⟨h.covered, hcov⟩, ?_, fun m hm => ?_, fun h0 => h'.nobody (h.nobody h0)⟩
  · rw [replay_append]
    exact hagree.symm.trans h'.replayed
  · obtain ⟨hm₁, hs₁⟩ := h'.unborn m hm
    obtain ⟨hm₂, hs₂⟩ := h.unborn m hm₁
    exact ⟨hm₂, hs₁.trans hs₂⟩

theorem done (h : Moves w w₁ ms) (h' : Moves w₁ w' []) : Moves w w' ms := by
  simpa using h.trans h'

/-- A change of neither shares nor the log. -/
theorem of_same (hv : ∀ m, (w'.vaults m).shares = (w.vaults m).shares) (hf : w'.factory.isMarket = w.factory.isMarket)
    (hl : w'.log = w.log) : Moves w w' [] :=
  .still ⟨[], by simpa using hl, rfl⟩ (fun m => by rw [hv]) fun m hm => ⟨by rw [← hf]; exact hm, hv m⟩

theorem emitAll {es : List Event} (h : es.flatMap Event.shareMoves = []) : Moves w (w.emitAll es) [] :=
  .still ⟨_, rfl, by rw [shareMoves_events, h]⟩ (fun _ => rfl) fun _ hm => ⟨hm, rfl⟩

theorem emit {e : Event} (h : e.shareMoves = []) : Moves w (w.emit e) [] :=
  show Moves w (w.emitAll [e]) [] from emitAll (by simp [h])

/-- Other storage of a vault, with the same shares. -/
theorem setVault {v : Vault} (h : v.shares = (w.vaults market).shares) : Moves w (w.setVault market v) [] := by
  refine of_same (fun m => ?_) rfl rfl
  by_cases hm : m = market
  · subst hm; simpa [Core.setVault] using h
  · simp [Core.setVault, hm]

/-- A change of the shares of one vault, with its transfers in the log. -/
theorem take {v : Vault} {es : List Event} (hm : w.factory.isMarket market = true)
    (ht : Shares.Took market (w.vaults market).shares v.shares ms) (he : es.flatMap Event.shareMoves = ms) :
    Moves w ((w.setVault market v).emitAll es) ms := by
  obtain ⟨hcov, hrep⟩ := ht.replayed w.shareHoldings fun _ _ _ => rfl
  refine ⟨⟨_, rfl, by rw [shareMoves_events, he]⟩, hcov, fun k a ha => ?_, fun m hm' => ⟨hm', ?_⟩, fun h0 k => ?_⟩
  · obtain ⟨m, o⟩ := k
    by_cases hmm : m = market
    · subst hmm
      rw [hrep o a ha]
      simp [shareHoldings, Core.setVault, Core.emitAll]
    · have hother : ∀ x ∈ ms, x.asset ≠ (m, o) := fun x hx hxa => hmm (by rw [← ht.own x hx, hxa])
      rw [replay_other hother]
      simp [shareHoldings, Core.setVault, Core.emitAll, hmm]
  · have hmm : m ≠ market := by
      rintro rfl
      have hm'' : w.factory.isMarket m = false := hm'
      rw [hm] at hm''
      cases hm''
    simp [Core.setVault, Core.emitAll, hmm]
  · by_cases hmm : k.1 = market
    · have hzero := ht.nobody (fun o => h0 (market, o)) k.2
      simpa [shareHoldings, Core.setVault, Core.emitAll, hmm] using hzero
    · simpa [shareHoldings, Core.setVault, Core.emitAll, hmm] using h0 k

/-- A payment, on an allowance or not. -/
theorem pay (h : w.pay source target amount = .ok w') : Moves w w' [] := by
  obtain ⟨_, rfl⟩ := pay_eq_ok h
  exact .still ⟨_, rfl, rfl⟩ (fun _ => rfl) fun _ hm => ⟨hm, rfl⟩

theorem payFrom (h : w.payFrom spender source target amount = .ok w') : Moves w w' [] := by
  obtain ⟨_, _, rfl⟩ := payFrom_eq_ok h
  exact .still ⟨_, rfl, rfl⟩ (fun _ => rfl) fun _ hm => ⟨hm, rfl⟩

theorem pullExact (h : w.pullExact spender source target amount = .ok w') : Moves w w' [] :=
  payFrom (pullExact_eq_ok h).1

theorem accrue {sender beneficiary : Address} {kind : FeeKind} {ref : FeeReference}
    (h : w.accrue D sender beneficiary amount kind ref = .ok w') : Moves w w' [] := by
  simp only [Core.accrue, bind_eq_ok, Except.ok.injEq] at h
  obtain ⟨f, _, rfl⟩ := h
  have hset : Moves w { w with feeVault := f } [] := .of_same (fun _ => rfl) rfl rfl
  by_cases hz : amount = 0
  · rw [if_pos hz]; exact hset
  · rw [if_neg hz]; exact hset.trans (.emit rfl)

theorem sync {previous current : Nat} (h : w.sync market = .ok (w', previous, current)) : Moves w w' [] := by
  simp only [Core.sync, bind_eq_ok, Except.ok.injEq, Prod.mk.injEq, Prod.exists] at h
  obtain ⟨g, p, c, _, rfl, _, _⟩ := h
  have hset : Moves w { w with guard := g } [] := .of_same (fun _ => rfl) rfl rfl
  by_cases hr : g.retired = true
  · rw [if_pos hr]; exact hset
  · rw [if_neg hr]; exact hset.trans (.emit rfl)

end Moves

/-! ## The functions of the core -/

theorem finalRemainder_moves (market : Address) (pool : PoolId) (owner : Address) (units remainingUnits amount : Nat) :
    (finalRemainder market pool owner units remainingUnits amount).flatMap Event.shareMoves = [] := by
  unfold finalRemainder
  split <;> rfl

/-- Other storage of a vault, with the same shares, and an event. -/
theorem vault_moves {v : Vault} {e : VaultEvent} (hv : v.shares = (w.vaults market).shares)
    (he : (Event.vault market e).shareMoves = []) : Moves w ((w.setVault market v).emit (.vault market e)) [] :=
  (Moves.setVault hv).trans (.emit he)

/-- A claim that burns no shares. -/
theorem claim_moves {v : Vault} {pool : PoolId} {units remainingUnits rest : Nat} {e : VaultEvent}
    (hv : v.shares = (w.vaults market).shares) (he : (Event.vault market e).shareMoves = [])
    (hp : ((w.setVault market v).emitAll (finalRemainder market pool owner units remainingUnits rest)).pay market owner
      amount = .ok w₁) : Moves w (w₁.emit (.vault market e)) [] :=
  (((Moves.setVault hv).trans (.emitAll (finalRemainder_moves ..))).trans (.pay hp)).trans (.emit he)

theorem emitAll_emitAll (w : Core) (xs ys : List Event) : (w.emitAll xs).emitAll ys = w.emitAll (xs ++ ys) := by
  simp [emitAll]

/-- A purchase mints what it fills. -/
theorem completeBuy_moves {buyer : Address} {outcomeId desiredUnits filledUnits : Nat} {accepts : Bool}
    (hm : w.factory.isMarket market = true)
    (h : completeBuy D w caller market buyer outcomeId desiredUnits filledUnits accepts = .ok w') :
    Moves w w' [⟨(market, outcomeId), 0, buyer, filledUnits⟩] := by
  simp only [completeBuy, bind_eq_ok, Except.ok.injEq] at h
  obtain ⟨g, _, v, hv, _, _, rfl⟩ := h
  obtain ⟨_, _, _, _, s, hs, rfl⟩ := Vault.completeBuy_eq_ok.mp hv
  have hreserve : Moves w { w with guard := g } [] := .of_same (fun _ => rfl) rfl rfl
  rw [emitAll_emitAll]
  refine hreserve.trans (.take hm (Shares.mint_took hs) ?_)
  rw [List.flatMap_append]
  split <;> rfl

theorem buy_moves {outcomeId desiredUnits minUnits maxPayment deadline : Nat} {accepts : Bool}
    (h : buy D w caller market outcomeId desiredUnits minUnits maxPayment deadline accepts = .ok w') :
    ∃ units, Moves w w' [⟨(market, outcomeId), 0, caller, units⟩] := by
  simp only [buy, bind_eq_ok, requireMarket_eq_ok] at h
  obtain ⟨_, hm, units, _, w₁, hp, h⟩ := h
  exact ⟨units, (Moves.pullExact hp).trans (completeBuy_moves (by rw [(kept_pullExact hp).factory]; exact hm) h)⟩

theorem buyWithPermit2_moves {outcomeId desiredUnits minUnits maxPayment callDeadline permittedAmount : Nat}
    {permittedToken : Address} {permitAccepted accepts : Bool}
    (h : buyWithPermit2 D w caller market owner outcomeId desiredUnits minUnits maxPayment callDeadline permittedToken
      permittedAmount permitAccepted accepts = .ok w') : ∃ units,
        Moves w w' [⟨(market, outcomeId), 0, owner, units⟩] := by
  simp only [buyWithPermit2, bind_eq_ok, requireMarket_eq_ok] at h
  obtain ⟨_, hm, _, _, _, _, units, _, _, _, _, _, w₁, hp, h⟩ := h
  exact ⟨units, (Moves.pullExact hp).trans (completeBuy_moves (by rw [(kept_pullExact hp).factory]; exact hm) h)⟩

theorem updateBeforeFirstBuy_moves {terms : MarketTerms} (h : updateBeforeFirstBuy w caller market terms = .ok w') :
    Moves w w' [] := by
  simp only [updateBeforeFirstBuy, bind_eq_ok, Except.ok.injEq] at h
  obtain ⟨_, _, v, hv, rfl⟩ := h
  have hs : v.shares = (w.vaults market).shares := by rw [(Vault.updateBeforeFirstBuy_eq_ok hv).1]
  exact vault_moves hs rfl

theorem payRake_moves {b : PayoutBreakdown} (h : payRake D w market b = .ok w') : Moves w w' [] := by
  unfold payRake at h
  simp only at h
  split at h
  · cases h; exact .refl w
  · simp only [bind_eq_ok] at h
    obtain ⟨w₁, h₁, w₂, h₂, h₃⟩ := h
    exact ((Moves.pay h₁).trans (.accrue h₂)).trans (.accrue h₃)

theorem resolve_moves {outcomeId : Nat} {evidenceHash : Bytes32}
    (h : resolve D w caller market outcomeId evidenceHash = .ok w') : Moves w w' [] := by
  simp only [resolve, bind_eq_ok, Prod.exists] at h
  obtain ⟨_, _, v, payouts, hv, h⟩ := h
  have hs : v.shares = (w.vaults market).shares := by
    obtain ⟨_, _, _, _, _, ⟨_, rfl, _⟩ | ⟨_, rfl, _⟩⟩ := Vault.resolve_eq_ok hv <;> rfl
  cases payouts with
  | none => cases h; exact vault_moves hs rfl
  | some b =>
    simp only [bind_eq_ok, Except.ok.injEq] at h
    obtain ⟨w₁, h₁, _, _, rfl⟩ := h
    exact ((Moves.setVault hs).trans (payRake_moves h₁)).trans (.emit rfl)

theorem creatorVoid_moves {evidenceHash : Bytes32} (h : creatorVoid w caller market evidenceHash = .ok w') :
    Moves w w' [] := by
  simp only [creatorVoid, bind_eq_ok, Except.ok.injEq] at h
  obtain ⟨_, _, v, hv, rfl⟩ := h
  have hs : v.shares = (w.vaults market).shares := by
    obtain ⟨_, _, _, rfl⟩ := Vault.creatorVoid_eq_ok.mp hv
    rfl
  exact vault_moves hs rfl

theorem voidAfterDeadline_moves (h : voidAfterDeadline w caller market = .ok w') : Moves w w' [] := by
  simp only [voidAfterDeadline, bind_eq_ok, Except.ok.injEq] at h
  obtain ⟨_, _, v, hv, rfl⟩ := h
  have hs : v.shares = (w.vaults market).shares := by
    obtain ⟨_, _, rfl⟩ := Vault.voidAfterDeadline_eq_ok.mp hv
    rfl
  exact vault_moves hs rfl

/-- A claim of winnings burns the winning units of its owner. -/
theorem claimWinningsFor_moves (h : claimWinningsFor D w caller market owner = .ok w') :
    ∃ units, Moves w w' [⟨(market, (w.vaults market).winningOutcome), owner, 0, units⟩] := by
  simp only [claimWinningsFor, bind_eq_ok, requireMarket_eq_ok, Except.ok.injEq, Prod.exists] at h
  obtain ⟨_, hm, v, units, payout, hv, w₁, hp, rfl⟩ := h
  obtain ⟨_, _, _, _, _, s, hs, rfl⟩ := Vault.claimWinningsFor_eq_ok hv
  refine ⟨units, ((Moves.take hm (Shares.burn_took hs) ?_).done (.pay hp)).done (.emit rfl)⟩
  rw [List.flatMap_append, finalRemainder_moves]
  rfl

theorem claimEarlyBirdFor_moves (h : claimEarlyBirdFor w caller market owner = .ok w') : Moves w w' [] := by
  simp only [claimEarlyBirdFor, bind_eq_ok, Except.ok.injEq, Prod.exists] at h
  obtain ⟨_, _, v, score, reward, hv, w₁, hp, rfl⟩ := h
  have hs : v.shares = (w.vaults market).shares := by
    obtain ⟨_, _, _, _, _, rfl⟩ := Vault.claimEarlyBirdFor_eq_ok hv
    rfl
  exact claim_moves hs rfl hp

/-- The transfers of a refund: all that its owner holds is burned. -/
def refundMoves (v : Vault) (market owner : Address) : List ShareMove :=
  ((List.range v.init.outcomeCount).filter fun o => v.shares.balanceOf o owner ≠ 0).map fun o =>
    ⟨(market, o), owner, 0, v.shares.balanceOf o owner⟩

theorem refundBurns_moves (caller market owner : Address) (v : Vault) :
    (refundBurns caller market v owner).flatMap Event.shareMoves = refundMoves v market owner := by
  unfold refundBurns refundMoves
  rw [List.flatMap_map]
  exact List.flatMap_pure_eq_map _ _

theorem refundFor_moves (h : refundFor D w caller market owner = .ok w') :
    Moves w w' (refundMoves (w.vaults market) market owner) := by
  simp only [refundFor, bind_eq_ok, requireMarket_eq_ok, Except.ok.injEq, Prod.exists] at h
  obtain ⟨_, hm, v, amount, hv, w₁, hp, rfl⟩ := h
  have htook : Shares.Took market (w.vaults market).shares v.shares (refundMoves (w.vaults market) market owner) := by
    obtain ⟨_, _, _, _, s, hs, rfl⟩ := Vault.refundFor_eq_ok hv
    exact Vault.burnAll_took List.nodup_range hs
  exact ((Moves.take hm htook (refundBurns_moves caller market owner _)).done (.pay hp)).done (.emit rfl)

theorem claimTimeoutBonusFor_moves (h : claimTimeoutBonusFor w caller market owner = .ok w') : Moves w w' [] := by
  simp only [claimTimeoutBonusFor, bind_eq_ok, Except.ok.injEq, Prod.exists] at h
  obtain ⟨_, _, v, units, reward, hv, w₁, hp, rfl⟩ := h
  have hs : v.shares = (w.vaults market).shares := by
    obtain ⟨_, _, _, _, _, _, rfl⟩ := Vault.claimTimeoutBonusFor_eq_ok.mp hv
    rfl
  exact claim_moves hs rfl hp

theorem burnLosingPosition_moves {outcomeId : Nat} (h : burnLosingPosition w caller market outcomeId = .ok w') :
    ∃ units, Moves w w' [⟨(market, outcomeId), caller, 0, units⟩] := by
  simp only [burnLosingPosition, bind_eq_ok, requireMarket_eq_ok, Except.ok.injEq, Prod.exists] at h
  obtain ⟨_, hm, v, units, hv, rfl⟩ := h
  obtain ⟨_, _, _, _, _, s, hs, rfl⟩ := Vault.burnLosingPosition_eq_ok hv
  exact ⟨units, .take hm (Shares.burn_took hs) rfl⟩

theorem moveShares_moves {id value : Nat} (h : moveShares w caller market source target id value = .ok w') :
    Moves w w' [⟨(market, id), source, target, value⟩] := by
  simp only [moveShares, bind_eq_ok, requireMarket_eq_ok, Except.ok.injEq] at h
  obtain ⟨_, hm, s, hs, rfl⟩ := h
  have htake : Moves w ((w.setVault market { w.vaults market with shares := s }).emitAll
      [.vault market (.TransferSingle caller source target id value)]) [⟨(market, id), source, target, value⟩] :=
    .take hm (Shares.safeTransferFrom_took hs) rfl
  exact htake

theorem safeTransferFrom_moves {id value : Nat} {accepts : Bool}
    (h : safeTransferFrom D w caller market source target id value accepts = .ok w') :
    Moves w w' [⟨(market, id), source, target, value⟩] := by
  simp only [safeTransferFrom, bind_eq_ok, Except.ok.injEq] at h
  obtain ⟨w₁, hm, _, _, rfl⟩ := h
  exact moveShares_moves hm

theorem safeBatchTransferFrom_moves {parts : List (Nat × Nat)} {accepts : Bool}
    (h : safeBatchTransferFrom D w caller market source target parts accepts = .ok w') :
    Moves w w' (parts.map fun p => ⟨(market, p.1), source, target, p.2⟩) := by
  simp only [safeBatchTransferFrom, bind_eq_ok, requireMarket_eq_ok, Except.ok.injEq] at h
  obtain ⟨_, hm, s, hs, _, _, rfl⟩ := h
  have htake : Moves w ((w.setVault market { w.vaults market with shares := s }).emitAll
      [.vault market (.TransferBatch caller source target parts)])
      (parts.map fun p => ⟨(market, p.1), source, target, p.2⟩) :=
    .take hm (Shares.safeBatchTransferFrom_took hs) (by simp [Event.shareMoves])
  exact htake

theorem setApprovalForAll_moves {operator : Address} {approved : Bool}
    (h : setApprovalForAll w caller market operator approved = .ok w') : Moves w w' [] := by
  simp only [setApprovalForAll, bind_eq_ok, requireMarket_eq_ok, Except.ok.injEq] at h
  obtain ⟨_, hm, rfl⟩ := h
  have htake : Moves w ((w.setVault market { w.vaults market with
      shares := (w.vaults market).shares.setApprovalForAll caller operator approved }).emitAll
      [.vault market (.ApprovalForAll caller operator approved)]) [] :=
    .take hm (Shares.Took.of_balances rfl) rfl
  exact htake

theorem settleBond_moves (h : settleBond D w market = .ok w') : Moves w w' [] := by
  simp only [settleBond, bind_eq_ok, Prod.exists] at h
  obtain ⟨_, _, _, _, _, _, e, b, _, h⟩ := h
  have hset : ∀ e : Escrow, Moves w { w with escrow := e } [] := fun e => .of_same (fun _ => rfl) rfl rfl
  split at h
  · simp only [fundTimeoutBonus, bind_eq_ok, Except.ok.injEq, Prod.exists] at h
    obtain ⟨w₁, hp, _, ⟨_, _, v, hv, w₂, _, _, hs, _, _, rfl⟩, rfl⟩ := h
    have hv : v.shares = (w₁.vaults market).shares := by
      obtain ⟨_, _, _, _, _, rfl⟩ := Vault.fundTimeoutBonus_eq_ok.mp hv
      rfl
    have hfund : Moves w w₂ [] := (((hset e).trans (.pay hp)).trans (.setVault hv)).trans (.sync hs)
    exact (hfund.trans (.emit rfl)).trans (.emit rfl)
  · cases h
    have hes : ((if timedOut (w.vaults market) = true then [Event.EmptyTimeoutBondCredited market b.creator
      b.amount] else [])
        ++ [Event.BondCredited market b.creator b.amount]).flatMap Event.shareMoves = [] := by split <;> rfl
    exact (hset _).trans (.emitAll hes)

theorem claimBondFor_moves {creator : Address} (h : claimBondFor D w caller creator = .ok w') : Moves w w' [] := by
  simp only [claimBondFor, bind_eq_ok, Except.ok.injEq, Prod.exists] at h
  obtain ⟨credits, amount, _, w₁, hp, rfl⟩ := h
  have hset : Moves w { w with escrow := { w.escrow with credits := credits } } [] := .of_same (fun _ => rfl) rfl rfl
  exact (hset.trans (.pay hp)).trans (.emit rfl)

theorem claimFeesFor_moves {beneficiary : Address} (h : claimFeesFor D w caller beneficiary = .ok w') :
    Moves w w' [] := by
  simp only [claimFeesFor, bind_eq_ok, Except.ok.injEq, Prod.exists] at h
  obtain ⟨credits, amount, _, w₁, hp, rfl⟩ := h
  have hset : Moves w { w with feeVault := { w.feeVault with credits := credits } } [] :=
    .of_same (fun _ => rfl) rfl rfl
  exact (hset.trans (.pay hp)).trans (.emit rfl)

theorem payCreationFee_moves (h : payCreationFee D w caller market = .ok w') : Moves w w' [] := by
  unfold payCreationFee at h
  split at h
  · cases h; exact .refl w
  · simp only [bind_eq_ok] at h
    obtain ⟨w₁, hp, ha⟩ := h
    exact (Moves.pullExact hp).trans (.accrue ha)

/-- A new vault has no shares, and it stands where there were none. -/
theorem createMarket_moves {p : CreateMarketParams} {platformFees : Option (Nat × Nat)}
    (hblank : w.factory.isMarket market = false → (w.vaults market).shares = Shares.blank)
    (h : createMarket D w caller p platformFees market = .ok w') : Moves w w' [] := by
  simp only [createMarket, lockBond, bind_eq_ok, revertIf_eq_ok, Bool.not_eq_true, Except.ok.injEq] at h
  obtain ⟨_, _, _, _, _, _, _, _, _, _, _, _, _, hnew, v, hv, g, hg, f, hf, w₁, hfee, w₂, ⟨w₃, hp, e, _, rfl⟩, rfl⟩ := h
  simp only [Bool.or_eq_false_iff] at hnew
  have hshares : v.shares = Shares.blank := by rw [(Vault.initializeVault_eq_ok hv).1]; rfl
  have hreg : Moves w (registered w caller market v g f) [] := by
    have hsame : ∀ m, ((registered w caller market v g f).vaults m).shares = (w.vaults m).shares := fun m => by
      by_cases hm : m = market
      · subst hm; simp [registered, hshares, hblank hnew.2]
      · simp [registered, hm]
    refine .still ⟨[], by simp [registered], rfl⟩ (fun m => by rw [hsame]) fun m hm => ⟨?_, hsame m⟩
    by_cases hmm : m = market
    · subst hmm; exact hnew.2
    · simpa [registered, hmm] using hm
  have hset : Moves w₃ { w₃ with escrow := e } [] := .of_same (fun _ => rfl) rfl rfl
  exact (((((hreg.trans (.emitAll rfl)).trans (payCreationFee_moves hfee)).trans (.pullExact hp)).trans hset).trans
    (.emit rfl)).trans (.emit rfl)

/-- Every call logs the transfers that it makes. -/
theorem exec_moves {c : CoreCall} (hblank : ∀ m, w.factory.isMarket m = false → (w.vaults m).shares = Shares.blank)
    (h : exec D w caller c = .ok w') : ∃ ms, Moves w w' ms := by
  simp only [exec, bind_eq_ok] at h
  obtain ⟨_, _, h⟩ := h
  have hsame : ∀ {u : Core}, u.vaults = w.vaults → u.factory.isMarket = w.factory.isMarket → u.log = w.log →
      ∃ ms, Moves w u ms := fun hv hf hl => ⟨[], .of_same (fun m => by rw [hv]) hf hl⟩
  cases c with
  | createMarket params platformFees market => exact ⟨[], createMarket_moves (hblank market) h⟩
  | updateBeforeFirstBuy => exact ⟨[], updateBeforeFirstBuy_moves h⟩
  | buy =>
    obtain ⟨_, h⟩ := buy_moves h
    exact ⟨_, h⟩
  | buyWithPermit2 =>
    obtain ⟨_, h⟩ := buyWithPermit2_moves h
    exact ⟨_, h⟩
  | resolve => exact ⟨[], resolve_moves h⟩
  | creatorVoid => exact ⟨[], creatorVoid_moves h⟩
  | voidAfterDeadline => exact ⟨[], voidAfterDeadline_moves h⟩
  | claimWinningsFor =>
    obtain ⟨_, h⟩ := claimWinningsFor_moves h
    exact ⟨_, h⟩
  | claimEarlyBirdFor => exact ⟨[], claimEarlyBirdFor_moves h⟩
  | refundFor => exact ⟨_, refundFor_moves h⟩
  | claimTimeoutBonusFor => exact ⟨[], claimTimeoutBonusFor_moves h⟩
  | burnLosingPosition =>
    obtain ⟨_, h⟩ := burnLosingPosition_moves h
    exact ⟨_, h⟩
  | safeTransferFrom => exact ⟨_, safeTransferFrom_moves h⟩
  | safeBatchTransferFrom => exact ⟨_, safeBatchTransferFrom_moves h⟩
  | setApprovalForAll => exact ⟨[], setApprovalForAll_moves h⟩
  | settleBond => exact ⟨[], settleBond_moves h⟩
  | claimBondFor => exact ⟨[], claimBondFor_moves h⟩
  | claimFeesFor => exact ⟨[], claimFeesFor_moves h⟩
  | accrue => exact ⟨[], .accrue h⟩
  | sync =>
    simp only [bind_eq_ok, Except.ok.injEq, Prod.exists] at h
    obtain ⟨w₁, _, _, hs, rfl⟩ := h
    exact ⟨[], .sync hs⟩
  | raiseCap =>
    simp only [bind_eq_ok, Except.ok.injEq] at h
    obtain ⟨_, _, g, _, rfl⟩ := h
    exact hsame rfl rfl rfl
  | retireForever =>
    simp only [bind_eq_ok, Except.ok.injEq] at h
    obtain ⟨_, _, g, _, rfl⟩ := h
    exact hsame rfl rfl rfl
  | updateConfig =>
    simp only [bind_eq_ok, Except.ok.injEq] at h
    obtain ⟨_, _, c, _, rfl⟩ := h
    exact hsame rfl rfl rfl
  | setDeprecated =>
    simp only [bind_eq_ok, Except.ok.injEq] at h
    obtain ⟨_, _, rfl⟩ := h
    exact hsame rfl rfl rfl
  | transferToken => exact ⟨[], .pay h⟩
  | transferTokenFrom => exact ⟨[], .payFrom h⟩
  | approveToken => cases h; exact hsame rfl rfl rfl
  | issueToken target amount =>
    cases h
    have hset : Moves w { w with token := { w.token with
        balanceOf := Function.update w.token.balanceOf target (w.token.balanceOf target + amount) } } [] :=
      .of_same (fun _ => rfl) rfl rfl
    exact ⟨[], hset.trans (.emit rfl)⟩
  | setRefusals => cases h; exact hsame rfl rfl rfl
  | setEmergency => cases h; exact hsame rfl rfl rfl

/-! ## The invariant -/

/-- The logged transfers, replayed from nothing, give the balances, and what is no market has no shares. -/
structure Ledgered (w : Core) : Prop where
  covered : Covered 0 (fun _ _ => 0) (shareMoves w.log)
  replayed : Agree 0 (replay (fun _ _ => 0) (shareMoves w.log)) w.shareHoldings
  unborn : ∀ m, w.factory.isMarket m = false → (w.vaults m).shares = Shares.blank
  nobody : ∀ k, w.shareHoldings k 0 = 0

theorem Moves.ledgered (h : Moves w w' ms) (hl : Ledgered w) : Ledgered w' := by
  obtain ⟨es, hlog, hes⟩ := h.log
  obtain ⟨hcov, hagree⟩ := hl.replayed.symm.replay h.covered
  refine ⟨?_, ?_, fun m hm => ?_, h.nobody hl.nobody⟩
  · rw [hlog, shareMoves_append, hes]
    exact covered_append.mpr ⟨hl.covered, hcov⟩
  · rw [hlog, shareMoves_append, hes, replay_append]
    exact hagree.symm.trans h.replayed
  · obtain ⟨hm', hs⟩ := h.unborn m hm
    rw [hs, hl.unborn m hm']

theorem exec_ledgered {c : CoreCall} (hl : Ledgered w) (h : exec D w caller c = .ok w') : Ledgered w' := by
  obtain ⟨ms, hm⟩ := exec_moves hl.unborn h
  exact hm.ledgered hl

theorem genesis_ledgered (h : Genesis D w) : Ledgered w := by
  refine ⟨?_, fun k a _ => ?_, fun m _ => by rw [h.vaults m]; rfl, fun k => by simp only [shareHoldings, h.vaults]; rfl⟩
  · rw [h.log]
    trivial
  · simp only [h.log, shareHoldings, h.vaults]
    rfl

theorem tick_ledgered (hl : Ledgered w) (seconds : Nat) : Ledgered { w with now := w.now + seconds } :=
  ⟨hl.covered, hl.replayed, hl.unborn, hl.nobody⟩

theorem Reachable.ledgered (h : Reachable D w) : Ledgered w := by
  refine Reach.Reachable.invariant (I := Ledgered) (fun _ h₀ => genesis_ledgered h₀) (fun s t _ hl hs => ?_) h
  cases hs with
  | call _ caller c hx => exact exec_ledgered hl hx
  | tick seconds => exact tick_ledgered hl seconds

end

end Core

end Cpredict
