import Slotted.Batch.Halving
import Slotted.Batch.Text
import Slotted.Bytes.Encoding
import Slotted.Guarded.Calls
import Slotted.Iteration
import Slotted.Json.Document
import Slotted.Lock.Protocol
import Slotted.Proofs.Allotment
import Slotted.Proofs.Batch.Collecting
import Slotted.Proofs.Batch.Dispatch
import Slotted.Proofs.Batch.Partition
import Slotted.Proofs.Bytes.Grammar
import Slotted.Proofs.Bytes.Limit
import Slotted.Proofs.Bytes.Reader
import Slotted.Proofs.Bytes.Recognition
import Slotted.Proofs.Bytes.RoundTrip
import Slotted.Proofs.Calls
import Slotted.Proofs.Churn.Capacity
import Slotted.Proofs.Churn.History
import Slotted.Proofs.Churn.Room
import Slotted.Proofs.Churn.Stages
import Slotted.Proofs.Churn.Steadiness
import Slotted.Proofs.Cursor.Editing
import Slotted.Proofs.Cursor.Script
import Slotted.Proofs.Cursor.Sweep
import Slotted.Proofs.Equality
import Slotted.Proofs.Extremes
import Slotted.Proofs.Growth
import Slotted.Proofs.Guarded.Discipline
import Slotted.Proofs.Guarded.Moments
import Slotted.Proofs.Guarded.Orderly
import Slotted.Proofs.Guarded.Scope
import Slotted.Proofs.Json.Document
import Slotted.Proofs.Json.Listing
import Slotted.Proofs.Json.RoundTrip
import Slotted.Proofs.Json.Summing
import Slotted.Proofs.Json.Token
import Slotted.Proofs.Lock.Exclusion
import Slotted.Proofs.Lock.Waking
import Slotted.Proofs.Lock.Word
import Slotted.Proofs.Lockstep.Boolean
import Slotted.Proofs.Lockstep.Calls
import Slotted.Proofs.Lockstep.Counts
import Slotted.Proofs.Lockstep.Merging
import Slotted.Proofs.Lockstep.Tally
import Slotted.Proofs.Order
import Slotted.Proofs.Probe
import Slotted.Proofs.Reachable
import Slotted.Proofs.Scalar
import Slotted.Proofs.ScalarBag.Operations
import Slotted.Proofs.ScalarBag.Refinement
import Slotted.Proofs.ScalarSet.Operations
import Slotted.Proofs.ScalarSet.Refinement
import Slotted.Proofs.Sizing
import Slotted.Proofs.Table.Contents
import Slotted.Proofs.Table.Filter
import Slotted.Proofs.Table.Invariant
import Slotted.Proofs.Table.Kept
import Slotted.Proofs.Table.Rebuild
import Slotted.Proofs.Table.Reinsertion
import Slotted.Proofs.Table.Search
import Slotted.Proofs.Table.Thinned
import Slotted.Proofs.Table.Update
import Slotted.Proofs.Table.Words
import Slotted.Proofs.Tally
import Slotted.Proofs.Traversal.Exact
import Slotted.Proofs.Traversal.Iterator
import Slotted.Proofs.Traversal.Ranges
import Slotted.Proofs.Traversal.Sequence
import Slotted.Proofs.Hashing
import Slotted.Proofs.Decimal.Nearest
import Slotted.Proofs.Decimal.Shortest
import Slotted.Proofs.Json.Float
import Slotted.Proofs.Json.FloatRoundTrip
