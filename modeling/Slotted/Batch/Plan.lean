import Slotted.Error
import Slotted.Table.Sizing

/-!
# Plans: a range cut into batches

A plan cuts the positions below `len` into consecutive ranges that are as even as possible: their
sizes differ by at most one, and the larger ones come first.  There are never more batches than
positions, so no batch is empty.

## Main definitions

* `Span` — the positions from one to before another.
* `Plan` — a plan; `Plan.ofCount` makes one for a number of batches.
* `Plan.span`, `Plan.span?`, `Plan.spans` — the range of a batch, and all ranges.
* `Plan.spanInWords?` — the range of a batch in the arithmetic of machine words.
-/

namespace Slotted

/-- The positions from `start` to before `stop`. -/
structure Span where
  /-- The first position. -/
  start : Nat
  /-- The position after the last. -/
  stop : Nat
  deriving DecidableEq, Repr

/-- The number of positions. -/
def Span.length (s : Span) : Nat := s.stop - s.start

/-- There are no positions. -/
def Span.isEmpty (s : Span) : Bool := s.stop ≤ s.start

/-- A plan for the positions below `len` in `count` batches. -/
structure Plan where
  /-- The number of positions. -/
  len : Nat
  /-- The number of batches. -/
  count : Nat
  /-- No batch is empty. -/
  count_le : count ≤ len
  /-- There are batches if there are positions. -/
  count_pos : 0 < len → 0 < count
  deriving DecidableEq, Repr

namespace Plan

/-- The plan for `desired` batches, or fewer if there are not so many positions. -/
def even (len desired : Nat) (h : 0 < desired) : Plan where
  len := len
  count := min desired len
  count_le := Nat.min_le_right desired len
  count_pos := by omega

/-- The plan for a number of batches, which must not be zero. -/
def ofCount (len desired : Nat) : Except Error Plan :=
  if h : 0 < desired then .ok (even len desired h)
  else .error (.illegalArgument .zeroBatchCount)

/-- There are no positions. -/
def isEmpty (p : Plan) : Bool := p.len == 0

/-- The range of batch `i`: the first `len % count` batches are larger by one than the others. -/
def span (p : Plan) (i : Nat) : Span :=
  let base := p.len / p.count
  let extra := p.len % p.count
  let start := i * base + min i extra
  ⟨start, start + base + if i < extra then 1 else 0⟩

/-- The range of batch `i` as a machine computes it, one operation after the other.  There is none if
the positions would be divided by zero, or if a product or a sum on the way is no word. -/
def spanInWords? (p : Plan) (i : Nat) : Option Span :=
  if p.count = 0 then none
  else do
    let base := p.len / p.count
    let extra := p.len % p.count
    let before ← word? (i * base)
    let start ← word? (before + min i extra)
    let length ← word? (base + if i < extra then 1 else 0)
    let stop ← word? (start + length)
    return ⟨start, stop⟩

/-- The range of batch `i`, if there is such a batch. -/
def span? (p : Plan) (i : Nat) : Except Error Span :=
  if i < p.count then .ok (p.span i) else .error (.indexOutOfRange i p.count)

/-- The ranges of the first `n` batches. -/
def spansUpTo (p : Plan) (n : Nat) : List Span := (List.range (min n p.count)).map p.span

/-- The ranges of all batches. -/
def spans (p : Plan) : List Span := p.spansUpTo p.count

end Plan

end Slotted
