import Cpredict.Protocol.Books

/-!
# The share ledger over runs of the protocol

In every state that runs of the core and of the marketplaces reach, the transfers in the log account for every share: an
account has what was transferred to it less what was transferred from it, the supply of an outcome is what was minted
less what was burned, and at no earlier point of the log has an account sent more than it had received (`share_ledger`).
-/

namespace Cpredict

open Tally Transfers Finset

namespace Core

variable {D : Deployment} {w : Core}

/-- The account has what it was sent and has not sent on. -/
theorem Ledgered.balance (h : Ledgered w) (market : Address) (o : Nat) {a : Address} (ha : a ≠ 0) :
    (w.vaults market).shares.balanceOf o a + tally (sent (market, o) a) (shareMoves w.log) =
      tally (received (market, o) a) (shareMoves w.log) := by
  have hadd : replay (fun _ _ => 0) (shareMoves w.log) (market, o) a + tally (sent (market, o) a) (shareMoves w.log) =
      0 + tally (received (market, o) a) (shareMoves w.log) := replay_add h.covered ha
  rw [h.replayed (market, o) a ha, Nat.zero_add] at hadd
  exact hadd

/-- What the holders of an outcome have together was minted and is not burned. -/
theorem Ledgered.held (h : Ledgered w) (market : Address) (o : Nat) :
    ∑ a, (w.vaults market).shares.balanceOf o a + tally (received (market, o) 0) (shareMoves w.log) =
      tally (sent (market, o) 0) (shareMoves w.log) := by
  have hnobody : (w.vaults market).shares.balanceOf o 0 = 0 := h.nobody (market, o)
  have hsupply := replay_supply h.covered (market, o)
  have hheld : ∑ a ∈ univ.erase 0, replay (fun _ _ => 0) (shareMoves w.log) (market, o) a =
      ∑ a ∈ univ.erase 0, (w.vaults market).shares.balanceOf o a :=
    sum_congr rfl fun a ha => h.replayed (market, o) a (ne_of_mem_erase ha)
  rw [hheld] at hsupply
  rw [← add_sum_erase univ _ (mem_univ 0), hnobody, Nat.zero_add]
  exact hsupply

/-- Nobody ever sends more than it has received. -/
theorem Ledgered.covered_before (h : Ledgered w) {earlier : Log} (he : earlier <+: w.log) (market : Address) (o : Nat)
    {a : Address} (ha : a ≠ 0) :
    tally (sent (market, o) a) (shareMoves earlier) ≤ tally (received (market, o) a) (shareMoves earlier) := by
  obtain ⟨later, hl⟩ := he
  have hcov := h.covered
  rw [← hl, shareMoves_append] at hcov
  have hadd := replay_add (k := (market, o)) (covered_append.mp hcov).1 ha
  omega

/-- The supply of an outcome is what its holders have. -/
theorem Arises.backed (h : Arises D w) (market : Address) : (w.vaults market).shares.Backed := by
  cases hm : w.factory.isMarket market with
  | true => exact (h.inOrder.sound.markets market hm).1.ledger.backed
  | false => exact h.inOrder.ledgered.unborn market hm ▸ Shares.blank_backed

/-- The shares of every market, whatever runs of the core and of the marketplaces do: the logged transfers account for
every balance and for the supply, and at no point before had an account sent more than it had received. -/
theorem share_ledger (h : Arises D w) (market : Address) (o : Nat) :
    (∀ a, a ≠ 0 → (w.vaults market).shares.balanceOf o a + tally (sent (market, o) a) (shareMoves w.log) =
      tally (received (market, o) a) (shareMoves w.log)) ∧
      (w.vaults market).shares.totalSupply o + tally (received (market, o) 0) (shareMoves w.log) =
        tally (sent (market, o) 0) (shareMoves w.log) ∧
      ∀ earlier, earlier <+: w.log → ∀ a, a ≠ 0 →
        tally (sent (market, o) a) (shareMoves earlier) ≤ tally (received (market, o) a) (shareMoves earlier) := by
  have hl := h.inOrder.ledgered
  refine ⟨fun a ha => hl.balance market o ha, ?_, fun earlier he a ha => hl.covered_before he market o ha⟩
  rw [← h.backed market o]
  exact hl.held market o

end Core

namespace Sample

/-- The same market, after the resolution and the claim of the winner. -/
def claimed : List (Address × CoreCall ⊕ Nat) := resolution ++ [.inl (alice, .claimWinningsFor market alice)]

end Sample

/-- The sample market after the winner's claim: all winning shares are burned. -/
theorem share_ledger_sample :
    ((Sample.played Sample.claimed).vaults Sample.market).shares.totalSupply 0 +
        tally (received (Sample.market, 0) 0) (shareMoves (Sample.played Sample.claimed).log) =
      tally (sent (Sample.market, 0) 0) (shareMoves (Sample.played Sample.claimed).log) ∧
      tally (received (Sample.market, 0) 0) (shareMoves (Sample.played Sample.claimed).log) = 3000000 := by
  obtain ⟨_, hsupply, _⟩ := Core.share_ledger (.core (Sample.played_reachable Sample.claimed)) Sample.market 0
  exact ⟨hsupply, by decide +kernel⟩

end Cpredict
