import Slotted.Iteration
import Slotted.ScalarBag.Basic

/-!
# Going through a bag occurrence by occurrence

## Main definitions

* `ScalarBag.Iter` — an iterator over all occurrences that knows how many are left.
* `ScalarBag.Distinct` — an iterator over the values and their counts.
* `ScalarBag.Cursor` — a cursor that may remove the occurrence it last came to.
* `ScalarBag.sweep` — a cursor's whole way through a bag, with some occurrences removed.
-/

namespace Slotted.ScalarBag

variable {k : Kind}

/-! ### Iterators -/

/-- An iterator over the occurrences of a bag. -/
structure Iter (k : Kind) where
  /-- The table of the bag. -/
  table : Table k Nat
  /-- The first slot not yet seen. -/
  next : Nat
  /-- The value of the slot last seen, and how many of its occurrences are still to come. -/
  current : Option (Scalar k × Nat)
  /-- The number of occurrences still to come. -/
  remaining : Nat

/-- An iterator over all occurrences. -/
def iter (b : ScalarBag k) : Iter k := ⟨b.table, 0, none, b.total⟩

/-- The next occurrence: of the value last seen, if it has any left, else of the next value. -/
def Iter.step (it : Iter k) : Option (Scalar k) × Iter k :=
  match it.current with
  | some (v, left + 1) =>
    (some v, { it with current := some (v, left), remaining := it.remaining - 1 })
  | _ =>
    match it.table.nextLive it.next with
    | some e =>
      (some e.value,
        { it with
          next := e.slot + 1
          current := some (e.value, e.payload - 1)
          remaining := it.remaining - 1 })
    | none => (none, { it with next := it.table.capacity })

instance : Iterator (Iter k) (Scalar k) := ⟨Iter.step, Iter.remaining⟩

/-- An iterator over the distinct values of a bag with their counts. -/
structure Distinct (k : Kind) where
  /-- The table of the bag. -/
  table : Table k Nat
  /-- The first slot not yet seen. -/
  next : Nat
  /-- The number of values still to come. -/
  remaining : Nat

/-- An iterator over all values and counts. -/
def distinctIter (b : ScalarBag k) : Distinct k := ⟨b.table, 0, b.distinctSize⟩

/-- The next value with its count. -/
def Distinct.step (it : Distinct k) : Option (Scalar k × Nat) × Distinct k :=
  match it.table.nextLive it.next with
  | some e =>
    (some (e.value, e.payload), { it with next := e.slot + 1, remaining := it.remaining - 1 })
  | none => (none, { it with next := it.table.capacity })

instance : Iterator (Distinct k) (Scalar k × Nat) := ⟨Distinct.step, Distinct.remaining⟩

/-! ### Cursors -/

/-- A cursor over a bag, which nothing else changes while the cursor is in use. -/
structure Cursor (k : Kind) where
  /-- The bag. -/
  bag : ScalarBag k
  /-- Where the cursor stands. -/
  walker : Walker := {}
  /-- How many occurrences in the current slot the cursor came to and did not remove. -/
  emitted : Nat := 0
  /-- The occurrence last come to is still there. -/
  removable : Bool := false

/-- A cursor before the first occurrence. -/
def cursor (b : ScalarBag k) : Cursor k := { bag := b }

/-- The bag, when the cursor is done with it. -/
def Cursor.done (c : Cursor k) : ScalarBag k := c.bag

/-- Moves on to the next slot and comes to its first occurrence. -/
def Cursor.enter (c : Cursor k) : Option (Scalar k) × Cursor k :=
  match c.walker.advance c.bag.table with
  | (some e, w) => (some e.value, { c with walker := w, emitted := 1, removable := true })
  | (none, w) => (none, { c with walker := w, removable := false })

/-- Moves to the next occurrence. -/
def Cursor.step (c : Cursor k) : Option (Scalar k) × Cursor k :=
  match c.walker.current.bind c.bag.table.entry? with
  | some (v, count) =>
    if c.emitted < count then
      (some v, { c with emitted := c.emitted + 1, removable := true })
    else c.enter
  | none => c.enter

/-- Removes the occurrence that the cursor last came to. -/
def Cursor.remove (c : Cursor k) : Except Error (Cursor k) :=
  match c.walker.current with
  | some i =>
    if c.removable then
      let total := c.bag.total - 1
      let count := c.bag.countAt i - 1
      if count = 0 then
        .ok ⟨⟨c.bag.table.vacate i, total⟩, c.walker.release, c.emitted - 1, false⟩
      else
        .ok ⟨⟨c.bag.table.setPayload i count, total⟩, c.walker, c.emitted - 1, false⟩
    else .error (.illegalState .noCurrentOccurrence)
  | none => .error (.illegalState .noCurrentOccurrence)

instance : EditCursor (Cursor k) (Scalar k) := ⟨Cursor.step, Cursor.remove⟩

/-- A cursor's way through the whole bag, removing each occurrence of the values that `drop` picks.
Answers with all the occurrences it came to. -/
def sweep (b : ScalarBag k) (drop : Scalar k → Bool) : List (Scalar k) × ScalarBag k :=
  let (seen, c) := EditCursor.sweep b.cursor (b.size + 1) drop
  (seen, c.done)

end Slotted.ScalarBag
