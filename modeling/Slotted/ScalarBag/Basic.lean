import Slotted.Occurrences
import Slotted.ScalarSet.Basic

/-!
# Bags of scalars

A bag of scalars of one kind holds each of its values some positive number of times.  The counts are
the payloads of a table, and a separate total keeps the number of all occurrences, which is at most
`maxWord`.  An addition that would pass that bound aborts before anything is changed.

## Main definitions

* `ScalarBag` — the type.
* `ScalarBag.addOccurrences`, `removeOccurrences`, `setOccurrences` — changing a count.
* `ScalarBag.add`, `remove`, `clear`, `reserve`, `retainM`, `extend` — the other operations.
* `ScalarBag.distinct`, `toList` — the values with their counts, and every occurrence, in slot
  order.

An operation that may abort answers with an `Except` beside the bag as it then stands.
-/

namespace Slotted

/-- A bag of scalars of kind `k`. -/
structure ScalarBag (k : Kind) where
  /-- The table of the values and their counts. -/
  table : Table k Nat := .empty
  /-- The number of all occurrences. -/
  total : Nat := 0

namespace ScalarBag

variable {k : Kind}

/-- The bag without values and without slots. -/
def empty : ScalarBag k := {}

/-- The number of occurrences. -/
def size (b : ScalarBag k) : Nat := b.total

/-- The bag has no occurrences. -/
def isEmpty (b : ScalarBag k) : Bool := b.total == 0

/-- The number of distinct values. -/
def distinctSize (b : ScalarBag k) : Nat := b.table.live

/-- The number of slots. -/
def capacity (b : ScalarBag k) : Nat := b.table.capacity

/-- The value occurs. -/
def contains (b : ScalarBag k) (v : Scalar k) : Bool := (b.table.find v).isSome

/-- The count beside slot `i`, which is nothing if the slot holds no value. -/
def countAt (b : ScalarBag k) (i : Nat) : Nat := ((b.table.entry? i).map (·.2)).getD 0

/-- The number of occurrences of a value. -/
def occurrencesOf (b : ScalarBag k) (v : Scalar k) : Nat :=
  match b.table.find v with
  | some i => b.countAt i
  | none => 0

/-- The distinct values with their counts, in slot order. -/
def distinct (b : ScalarBag k) : List (Scalar k × Nat) :=
  b.table.entries.map fun e => (e.value, e.payload)

/-- Every occurrence, in slot order; the occurrences of one value stand together. -/
def toList (b : ScalarBag k) : List (Scalar k) := occurrences b.distinct

/-! ### Changing counts -/

/-- Adds `n` occurrences of a value; answers with the new count.  Adding none changes nothing. -/
def addOccurrences (b : ScalarBag k) (v : Scalar k) (n : Nat) :
    Traced (Except Abort Nat × ScalarBag k) :=
  if n = 0 then pure (.ok (b.occurrencesOf v), b)
  else
    match addCount? b.total n with
    | none => pure (.error .countOverflow, b)
    | some total => do
      let (t, place) ← b.table.entry v
      match place with
      | .found i =>
        let count := ((t.entry? i).map (·.2)).getD 0 + n
        return (.ok count, ⟨t.setPayload i count, total⟩)
      | .vacant i => return (.ok n, ⟨t.occupy i v n, total⟩)
      | .exhausted => return (.ok n, ⟨t, total⟩)

/-- Adds an occurrence of a value; answers whether it was absent. -/
def add (b : ScalarBag k) (v : Scalar k) : Traced (Except Abort Bool × ScalarBag k) := do
  let (count, b) ← b.addOccurrences v 1
  return (count.map (· == 1), b)

/-- Removes up to `n` occurrences of a value; answers whether there were any to remove. -/
def removeOccurrences (b : ScalarBag k) (v : Scalar k) (n : Nat) : Bool × ScalarBag k :=
  if n = 0 then (false, b)
  else
    match b.table.find v with
    | none => (false, b)
    | some i =>
      let count := b.countAt i
      if count ≤ n then (true, ⟨b.table.vacate i, b.total - count⟩)
      else (true, ⟨b.table.setPayload i (count - n), b.total - n⟩)

/-- Removes an occurrence of a value; answers whether there was one. -/
def remove (b : ScalarBag k) (v : Scalar k) : Bool × ScalarBag k := b.removeOccurrences v 1

/-- Makes the count of a value `n`; answers with the count before. -/
def setOccurrences (b : ScalarBag k) (v : Scalar k) (n : Nat) :
    Traced (Except Abort Nat × ScalarBag k) :=
  let count := b.occurrencesOf v
  if count < n then do
    let (added, b) ← b.addOccurrences v (n - count)
    return (added.map fun _ => count, b)
  else if n < count then pure (.ok count, (b.removeOccurrences v (count - n)).2)
  else pure (.ok count, b)

/-- Removes every occurrence, keeping the slots. -/
def clear (b : ScalarBag k) : ScalarBag k := ⟨b.table.clear, 0⟩

/-- Removes all occurrences of the values that `keep` rejects.  It is asked once for each value,
with its count, in slot order. -/
@[inline] def retainM {m : Type → Type} [Monad m] (b : ScalarBag k)
    (keep : Scalar k → Nat → m Bool) : m (ScalarBag k) := do
  let (t, total) ← b.table.filterM (fun total count => total - count) keep b.total
  return ⟨t, total⟩

/-- Removes all occurrences of the values that `keep` rejects. -/
def retain (b : ScalarBag k) (keep : Scalar k → Nat → Bool) : ScalarBag k :=
  Id.run (b.retainM fun v n => pure (keep v n))

/-- Adds an occurrence of each of a list of values, up to the first that overflows. -/
def extend (b : ScalarBag k) : List (Scalar k) → Traced (Except Abort Unit × ScalarBag k)
  | [] => pure (.ok (), b)
  | v :: vs => do
    match ← b.add v with
    | (.ok _, b) => b.extend vs
    | (.error a, b) => return (.error a, b)

/-- The bag of a list of values, added one by one to an empty bag. -/
def ofList (vs : List (Scalar k)) : Traced (Except Abort Unit × ScalarBag k) := empty.extend vs

/-! ### Room asked for in advance -/

/-- An empty bag with room for `n` distinct values. -/
def tryWithCapacity (n : Nat) : Except Failure (ScalarBag k) := (⟨·, 0⟩) <$> Table.withCapacity n

/-- An empty bag with room for `n` distinct values, which the caller takes to be possible. -/
def withCapacity (n : Nat) : Except Abort (ScalarBag k) :=
  match tryWithCapacity n with
  | .ok b => .ok b
  | .error (.error _) => .error .unrepresentableCapacity
  | .error (.abort a) => .error a

/-- Makes room for `n` more distinct values, so that adding them rebuilds nothing. -/
def reserve (b : ScalarBag k) (n : Nat) : Except Failure (Traced (ScalarBag k)) :=
  ((⟨·, b.total⟩) <$> ·) <$> b.table.reserve n

/-! ### What a bag says of its contents -/

/-- A hash of the contents that does not depend on their order: the sum, over the distinct values,
of their hashes, each combined with the count. -/
def hashCode (b : ScalarBag k) : UInt64 :=
  b.distinct.foldl (fun h (v, n) => h + (v.hash ^^^ UInt64.ofNat n)) 0

/-- The least value, by a scan in slot order. -/
def min (b : ScalarBag k) : Except Error (Scalar k) :=
  (Scalar.least? (b.distinct.map (·.1))).elim (.error .noSuchElement) .ok

/-- The greatest value, by a scan in slot order. -/
def max (b : ScalarBag k) : Except Error (Scalar k) :=
  (Scalar.greatest? (b.distinct.map (·.1))).elim (.error .noSuchElement) .ok

/-- The two bags hold the same values equally often. -/
def eqv (b b' : ScalarBag k) : Bool :=
  b.total == b'.total && b.distinctSize == b'.distinctSize &&
    b.distinct.all fun (v, n) => b'.occurrencesOf v == n

end ScalarBag

end Slotted
