import Cpredict.Indexer.Recovery
import Cpredict.Indexer.Scan

/-!
# The answers of a run

The node answers the queries of `runBatch` one after the other, each on the chain that it has then: the checkpoint
that recovery leaves was on the chain of some answer (`reconcileCheckpoint_recognized`), and the queries of the scan
come after it.
-/

namespace Cpredict.Indexer

open Outcome BlockTree EventStore

variable {V : Decoder} {o : IndexerOptions} {N : Node} {Q : Type} {X : Projector Q} {S S' : EventStore Q}
  {C : ChainData}
  {tr tr' : Trace} {batch : CanonicalBatch}

/-! ## Stored blocks that are found again -/

/-- Some answer from `first` on and before `last` was given on a chain with the stored block of a number. -/
def Recognized (N : Node) (C : ChainData) (first last n : Nat) : Prop :=
  ∃ k, first ≤ k ∧ k < last ∧ Matches N.archive.tree C (N.heads k) n

theorem Recognized.mono {first first' last last' n : Nat} (h : Recognized N C first last n) (hf : first' ≤ first)
    (hl : last ≤ last') : Recognized N C first' last' n := by
  obtain ⟨k, h₁, h₂, hm⟩ := h
  exact ⟨k, hf.trans h₁, h₂.trans_le hl, hm⟩

/-- The stores that accepted batches and rollbacks lead to. -/
def Reachable (X : Projector Q) (S : EventStore Q) : Prop := ∃ bs, History X (fun _ => True) bs S

end Cpredict.Indexer
