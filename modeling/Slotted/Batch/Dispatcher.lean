import Slotted.Batch.Plan
import Slotted.Batch.Positioned
import Slotted.Table.Sizing

/-!
# Running a worker on every batch

A dispatcher hands the batches of a plan to the threads of a pool, and answers when every batch is
done.  Batches finish in no particular order.  A worker that fails does not keep others from
running; of several failures that of the first batch in the plan is answered.  A worker that aborts
does so for the caller too, after all batches are done.

Workers share a state, which each of them changes in one indivisible step, so the batches take
effect in the order in which they finish.  That order is an argument here: any arrangement of the
batches may happen, and a caller gets an answer that does not depend on it by sharing nothing whose
outcome does.

## Main definitions

* `Dispatcher`, `Settings` — a pool with bounds for automatic plans, and how it is asked for.
* `Dispatcher.plan` — the automatic plan for a number of positions.
* `Dispatcher.forEachBatchIn` — runs a worker on every batch, in a given order of completion.
* `Dispatcher.collectOrderedIn`, `collectBatchesIn`, `collectIntoIn`, `forEachIn` — what is made of
  it.
-/

namespace Slotted

/-- A pool of threads. -/
structure Pool where
  /-- The number of threads. -/
  threads : Nat
  /-- The pool belongs to one dispatcher. -/
  dedicated : Bool
  deriving DecidableEq, Repr

/-- A dispatcher. -/
structure Dispatcher where
  /-- The threads that run batches. -/
  pool : Pool
  /-- Automatic plans have batches of at least this size, if there are so many positions. -/
  minBatch : Nat
  /-- Automatic plans have at most this many batches for each thread. -/
  batchesPerThread : Nat
  deriving DecidableEq, Repr

/-- How a dispatcher is asked for. -/
structure Settings where
  /-- The threads of a dedicated pool, or none for the shared one. -/
  threads? : Option Nat := none
  /-- The least size of a batch. -/
  minBatch : Nat := 1024
  /-- The most batches for each thread. -/
  batchesPerThread : Nat := 4
  deriving DecidableEq, Repr

/-- The dispatcher with given settings, none of which may be zero; `shared` is the pool to use if
there is no dedicated one. -/
def Settings.build (s : Settings) (shared : Pool) : Except Error Dispatcher :=
  if s.minBatch = 0 then .error (.illegalArgument .zeroMinimumBatch)
  else if s.batchesPerThread = 0 then .error (.illegalArgument .zeroBatchesPerThread)
  else
    match s.threads? with
    | some 0 => .error (.illegalArgument .zeroThreads)
    | some n => .ok ⟨⟨n, true⟩, s.minBatch, s.batchesPerThread⟩
    | none => .ok ⟨shared, s.minBatch, s.batchesPerThread⟩

/-- A batch, handed to a worker. -/
structure Batch (C : Type) where
  /-- The collection. -/
  source : C
  /-- The place of the batch in the plan. -/
  index : Nat
  /-- The positions of the batch. -/
  span : Span

/-- The elements of a batch. -/
def Batch.items {C α : Type} [Positioned C α] (b : Batch C) : List α :=
  visit b.source b.span.start b.span.stop

/-- How a worker ends. -/
inductive WorkerEnd (ε : Type) where
  /-- It succeeds. -/
  | done
  /-- It fails. -/
  | failed (e : ε)
  /-- It aborts. -/
  | aborted (a : Abort)
  deriving DecidableEq, Repr

/-- A worker for batches of `C` that shares a state in `σ`. -/
abbrev Worker (C σ ε : Type) := Batch C → σ → WorkerEnd ε × σ

/-- How a call for all batches ends. -/
inductive Ending (ε : Type) where
  /-- Every worker succeeded. -/
  | done
  /-- The plan is for another number of positions, and no worker ran. -/
  | refused (e : Error)
  /-- A worker failed, and none of an earlier batch did. -/
  | failed (e : ε)
  /-- A worker aborted. -/
  | aborted (a : Abort)
  deriving DecidableEq, Repr

/-- The record of one call that ran workers. -/
structure Dispatch where
  /-- The number of positions. -/
  len : Nat
  /-- The number of batches. -/
  batches : Nat
  /-- The number of threads. -/
  threads : Nat
  deriving DecidableEq, Repr

/-- What a call answers, and what it records on the way. -/
structure Report (ρ : Type) where
  /-- The answer. -/
  result : ρ
  /-- The record of the call, if it ran workers. -/
  dispatched : Option Dispatch
  /-- The batches whose workers failed, in the order in which they did. -/
  warned : List Nat

/-- The same report with another answer. -/
def Report.map {ρ τ : Type} (f : ρ → τ) (r : Report ρ) : Report τ := { r with result := f r.result }

/-- What is known when some batches are done. -/
structure Progress (σ ε : Type) where
  /-- The shared state. -/
  state : σ
  /-- The failure of the earliest batch in the plan so far. -/
  failure? : Option (Nat × ε) := none
  /-- The first abort. -/
  abort? : Option Abort := none
  /-- The batches that failed, the last one first. -/
  failures : List Nat := []

namespace Progress

variable {C σ ε : Type}

/-- Of two failures that of the earlier batch. -/
def keepEarlier (seen? : Option (Nat × ε)) (i : Nat) (e : ε) : Option (Nat × ε) :=
  match seen? with
  | some (j, e') => if i < j then some (i, e) else some (j, e')
  | none => some (i, e)

/-- What is known after one more batch. -/
def run (worker : Worker C σ ε) (p : Progress σ ε) (b : Batch C) : Progress σ ε :=
  match worker b p.state with
  | (.done, s) => { p with state := s }
  | (.failed e, s) =>
    { p with
      state := s
      failure? := keepEarlier p.failure? b.index e
      failures := b.index :: p.failures }
  | (.aborted a, s) => { p with state := s, abort? := p.abort?.or (some a) }

/-- How the call ends when all batches are done. -/
def ending (p : Progress σ ε) : Ending ε :=
  match p.abort?, p.failure? with
  | some a, _ => .aborted a
  | none, some (_, e) => .failed e
  | none, none => .done

end Progress

namespace Dispatcher

variable {C α β σ ε : Type}

/-- The dispatcher on the shared pool with the usual bounds. -/
def onShared (shared : Pool) : Dispatcher :=
  let s : Settings := {}
  ⟨shared, s.minBatch, s.batchesPerThread⟩

/-- The number of threads. -/
def threads (d : Dispatcher) : Nat := d.pool.threads

/-- The automatic plan for `len` positions: as many batches as the least size allows, but no more
than the threads are to get. -/
def plan (d : Dispatcher) (len : Nat) : Plan :=
  let most := saturatingMul d.threads d.batchesPerThread
  Plan.even len (max 1 (min (len / d.minBatch) (max most 1))) (by omega)

/-- Batch `i` of a plan. -/
def batch (source : C) (plan : Plan) (i : Nat) : Batch C := ⟨source, i, plan.span i⟩

/-- Runs a worker on the batches of a plan with the indices of `order`, as they finish in that
order. -/
def forEachBatchIn [Positioned C α] (d : Dispatcher) (order : List Nat) (source : C) (plan : Plan)
    (worker : Worker C σ ε) (state : σ) : Report (Ending ε × σ) :=
  if plan.len = positions source then
    let start : Progress σ ε := { state := state }
    let p := order.foldl (fun p i => p.run worker (batch source plan i)) start
    ⟨(p.ending, p.state), some ⟨plan.len, plan.count, d.threads⟩, p.failures.reverse⟩
  else ⟨(.refused (.indexOutOfRange plan.len (positions source)), state), none, []⟩

/-- An order in which the batches of a plan may finish: each of them once. -/
def IsCompletion (plan : Plan) (order : List Nat) : Prop := order.Perm (List.range plan.count)

/-- The batches of a plan for a collection, finishing one after the other.  A plan for another
number of positions has none that run. -/
def inTurn [Positioned C α] (source : C) (plan : Plan) : List Nat :=
  if plan.len = positions source then List.range plan.count else []

/-- What a call whose workers do not fail answers. -/
def settle {ρ : Type} (result : σ → ρ) : Ending Empty × σ → Except Failure ρ
  | (.done, s) => .ok (result s)
  | (.refused e, _) => .error (.error e)
  | (.aborted a, _) => .error (.abort a)

/-- Maps every element and merges the images of each batch into a target, as the batches finish. -/
def collectBatchesIn {R : Type} [Positioned C α] (d : Dispatcher) (order : List Nat) (source : C)
    (plan : Plan) (f : α → β) (merge : R → List β → Except Abort Unit × R) (target : R) :
    Report (Except Failure R) :=
  let worker : Worker C R Empty := fun b target =>
    match merge target (b.items.map f) with
    | (.ok (), target) => (.done, target)
    | (.error a, target) => (.aborted a, target)
  (d.forEachBatchIn order source plan worker target).map (settle id)

/-- How many bytes the place for the images of a batch takes. -/
def placeWidth : Nat := 32

/-- Maps every element and lists the images in the order of the positions.  The images of a batch
have a place of their own, so it does not matter when it finishes.  The places are set up before the
plan is looked at, which fails if they exceed the largest possible allocation. -/
def collectOrderedIn [Positioned C α] (d : Dispatcher) (order : List Nat) (source : C) (plan : Plan)
    (f : α → β) : Report (Except Failure (List β)) :=
  let worker : Worker C (Array (List β)) Empty := fun b parts =>
    (.done, parts.setIfInBounds b.index (b.items.map f))
  if plan.count * placeWidth ≤ maxAllocation then
    (d.forEachBatchIn order source plan worker (Array.replicate plan.count [])).map
      (settle fun parts => parts.toList.flatten)
  else ⟨.error (.abort .oversizedAllocation), none, []⟩

/-- Visits every element, by the automatic plan. -/
def forEachIn [Positioned C α] (d : Dispatcher) (order : List Nat) (source : C) (f : σ → α → σ)
    (state : σ) : Report (Except Failure σ) :=
  let worker : Worker C σ Empty := fun b s => (.done, b.items.foldl f s)
  (d.forEachBatchIn order source (d.plan (positions source)) worker state).map (settle id)

/-- Maps every element and extends a target by the images, by the automatic plan. -/
def collectIntoIn {R : Type} [Positioned C α] (d : Dispatcher) (order : List Nat) (source : C)
    (f : α → β) (extend : R → List β → Except Abort Unit × R) (target : R) :
    Report (Except Failure R) :=
  d.collectBatchesIn order source (d.plan (positions source)) f extend target

end Dispatcher

end Slotted
