import Slotted.Batch.Plan
import Slotted.Batch.Positioned

/-!
# Traversal by halving

A parallel traversal cuts a range of positions in the middle, cuts the halves again, and so on; how
often is up to the threads that happen to be idle, but small ranges are never cut.  The uncut pieces
are consumed on their own and their results are combined from left to right, so the result must not
depend on where the cuts are.

## Main definitions

* `Cuts` — where a range is cut.
* `Span.middle?` — where the halves of a range meet.
* `Consumer` — how elements are consumed and results combined.
* `Consumer.drive` — the result of a traversal.
-/

namespace Slotted

/-- Where a traversal cuts a range, and where it cuts the halves. -/
inductive Cuts where
  /-- Nowhere. -/
  | none
  /-- In the middle, and the halves as given. -/
  | halves (left right : Cuts)
  deriving DecidableEq, Repr

/-- Cuts in all halves down to a depth. -/
def Cuts.toDepth : Nat → Cuts
  | 0 => none
  | n + 1 => halves (toDepth n) (toDepth n)

/-- Ranges with at most this many positions are not cut. -/
def minCut : Nat := 256

/-- Where the halves of a range meet, unless the range is too small to be cut. -/
def Span.middle? (s : Span) : Option Nat :=
  if s.length ≤ minCut then Option.none else some (s.start + s.length / 2)

/-- The pieces that cuts make of a range. -/
def Cuts.pieces : Cuts → Span → List Span
  | none, s => [s]
  | halves left right, s =>
    match s.middle? with
    | some m => left.pieces ⟨s.start, m⟩ ++ right.pieces ⟨m, s.stop⟩
    | Option.none => [s]

/-- A way to consume elements of `α` with a result in `ρ`. -/
structure Consumer (α ρ : Type) where
  /-- The result of nothing. -/
  init : ρ
  /-- The result with one more element. -/
  consume : ρ → α → ρ
  /-- The result is not interested in more elements. -/
  full : ρ → Bool
  /-- The result of two neighbouring pieces. -/
  combine : ρ → ρ → ρ

namespace Consumer

variable {α ρ : Type}

/-- Consumes an element `n` times, or until the result is full. -/
def feedRun (c : Consumer α ρ) (a : α) : (n : Nat) → ρ → ρ
  | 0, r => r
  | n + 1, r => if c.full (c.consume r a) then c.consume r a else c.feedRun a n (c.consume r a)

/-- Consumes elements, each the given number of times, up to the first that leaves the result
full. -/
def feed (c : Consumer α ρ) : List (α × Nat) → ρ → ρ
  | [], r => r
  | (a, n) :: rest, r =>
    let r := c.feedRun a n r
    if c.full r then r else c.feed rest r

/-- The result of a traversal of a range. -/
def driveSpan {C : Type} [Positioned C α] (c : Consumer α ρ) (source : C) : Cuts → Span → ρ
  | .none, s => c.feed (runs source s.start s.stop) c.init
  | .halves left right, s =>
    match s.middle? with
    | some m =>
      c.combine (c.driveSpan source left ⟨s.start, m⟩) (c.driveSpan source right ⟨m, s.stop⟩)
    | none => c.feed (runs source s.start s.stop) c.init

/-- The result of a traversal of a collection. -/
def drive {C : Type} [Positioned C α] (c : Consumer α ρ) (source : C) (cuts : Cuts) : ρ :=
  c.driveSpan source cuts ⟨0, positions source⟩

/-- Collects the elements. -/
def collect : Consumer α (Array α) where
  init := #[]
  consume := Array.push
  full _ := false
  combine := (· ++ ·)

/-- Counts the elements. -/
def count : Consumer α Nat where
  init := 0
  consume n _ := n + 1
  full _ := false
  combine := (· + ·)

/-- Finds the first element that satisfies a predicate. -/
def first (p : α → Bool) : Consumer α (Option α) where
  init := none
  consume found a := found.or (if p a then some a else none)
  full := Option.isSome
  combine := Option.or

/-- Finds out whether some element satisfies a predicate. -/
def any (p : α → Bool) : Consumer α Bool where
  init := false
  consume found a := found || p a
  full := id
  combine := (· || ·)

end Consumer

end Slotted
