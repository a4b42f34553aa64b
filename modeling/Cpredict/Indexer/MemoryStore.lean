import Cpredict.Indexer.ChainProjections
import Cpredict.Indexer.EventStore

/-!
# The memory store

`MemoryEventStore`: its maps are the projections, and an anchor that comes again is written over the stored block.
-/

namespace Cpredict.Indexer.Memory

/-- The projections of `MemoryEventStore`, with what the decoder of logs makes of an event. -/
def projector (decodeEventLog : IndexedEvent → Except ProjectionErr DecodedLog) : Projector Projections where
  empty := .empty
  project := Projections.project decodeEventLog
  registeredMarkets chainId P := (P.registered.restrict fun k => decide (k.1 = chainId)).values
  overwrites := true
  restrict := Projections.restrict
  Keyed := Projections.Keyed
  keyed_empty _ hx := absurd hx List.not_mem_nil
  keyed_restrict hk x hx := hk x (List.mem_filter.mp hx).1
  keyed_project := Projections.project_keyed
  project_restrict := Projections.project_restrict
  project_other := Projections.project_other
  restrict_restrict := Projections.restrict_restrict
  restrict_none := Projections.restrict_eq_empty

abbrev MemoryStore := EventStore Projections

end Cpredict.Indexer.Memory
