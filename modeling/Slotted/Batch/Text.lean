import Slotted.Batch.Dispatcher
import Slotted.Batch.Halving
import Slotted.Text.Display

/-!
# The texts of plans, batches and dispatchers

## Main definitions

* `Plan.text`, `Batch.text`, `Dispatcher.text`, `Settings.text` — the texts.
* `ScalarSet.traversalText`, `ScalarBag.traversalText` — the texts of traversals by halving.
-/

namespace Slotted

/-- The text of a range. -/
def Span.text (s : Span) : String := toString s.start ++ ".." ++ toString s.stop

/-- The text of a plan. -/
def Plan.text (p : Plan) : String :=
  recordText "BatchPlan" [("len", toString p.len), ("count", toString p.count)]

/-- The text of a batch. -/
def Batch.text {C : Type} (b : Batch C) : String :=
  recordText "Batch" [("index", toString b.index), ("range", b.span.text)]

/-- The text of a dispatcher. -/
def Dispatcher.text (d : Dispatcher) : String :=
  recordText "ParallelDriver" [
    ("threads", toString d.threads),
    ("dedicated_pool", boolText d.pool.dedicated),
    ("min_batch_size", toString d.minBatch),
    ("batches_per_thread", toString d.batchesPerThread)]

/-- The text of a number that may be left open. -/
def openText : Option Nat → String
  | some n => "Some(" ++ toString n ++ ")"
  | none => "None"

/-- The text of settings. -/
def Settings.text (s : Settings) : String :=
  recordText "ParallelDriverBuilder" [
    ("threads", openText s.threads?),
    ("min_batch_size", toString s.minBatch),
    ("batches_per_thread", toString s.batchesPerThread)]

/-- The text of a traversal of a set by halving. -/
def ScalarSet.traversalText : String := "ParSetIter"

/-- The text of a traversal of a bag by halving. -/
def ScalarBag.traversalText : String := "ParBagIter"

end Slotted
