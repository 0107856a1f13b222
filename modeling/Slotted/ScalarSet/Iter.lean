import Slotted.Iteration
import Slotted.ScalarSet.Basic

/-!
# Going through a set element by element

## Main definitions

* `ScalarSet.Iter` — an iterator that knows how many elements are left.
* `ScalarSet.Cursor` — a cursor that may remove the element it last came to.
* `ScalarSet.sweep` — a cursor's whole way through a set, with some elements removed.
-/

namespace Slotted.ScalarSet

variable {k : Kind}

/-! ### Iterators -/

/-- An iterator over the elements of a set. -/
structure Iter (k : Kind) where
  /-- The table of the set. -/
  table : Table k Unit
  /-- The first slot not yet seen. -/
  next : Nat
  /-- The number of elements still to come. -/
  remaining : Nat

/-- An iterator over all elements. -/
def iter (s : ScalarSet k) : Iter k := ⟨s.table, 0, s.size⟩

/-- The next element.  An iterator that came to the end stays there. -/
def Iter.step (it : Iter k) : Option (Scalar k) × Iter k :=
  match it.table.nextLive it.next with
  | some e => (some e.value, { it with next := e.slot + 1, remaining := it.remaining - 1 })
  | none => (none, { it with next := it.table.capacity })

instance : Iterator (Iter k) (Scalar k) := ⟨Iter.step, Iter.remaining⟩

/-- The elements still to come. -/
def Iter.rest (it : Iter k) : List (Scalar k) :=
  (it.table.scan it.next it.table.capacity).map (·.value)

/-! ### Cursors -/

/-- A cursor over a set, which nothing else changes while the cursor is in use. -/
structure Cursor (k : Kind) where
  /-- The table of the set. -/
  table : Table k Unit
  /-- Where the cursor stands. -/
  walker : Walker := {}

/-- A cursor before the first element. -/
def cursor (s : ScalarSet k) : Cursor k := ⟨s.table, {}⟩

/-- The set, when the cursor is done with it. -/
def Cursor.done (c : Cursor k) : ScalarSet k := ⟨c.table⟩

/-- Moves to the next element. -/
def Cursor.step (c : Cursor k) : Option (Scalar k) × Cursor k :=
  let (e, w) := c.walker.advance c.table
  (e.map (·.value), { c with walker := w })

/-- Removes the element that the cursor stands on. -/
def Cursor.remove (c : Cursor k) : Except Error (Cursor k) :=
  match c.walker.current with
  | some i => .ok ⟨c.table.vacate i, c.walker.release⟩
  | none => .error (.illegalState .noCurrentValue)

instance : EditCursor (Cursor k) (Scalar k) := ⟨Cursor.step, Cursor.remove⟩

/-- A cursor's way through the whole set, removing the elements that `drop` picks.  Answers with all
the elements it came to. -/
def sweep (s : ScalarSet k) (drop : Scalar k → Bool) : List (Scalar k) × ScalarSet k :=
  let (seen, c) := EditCursor.sweep s.cursor (s.capacity + 1) drop
  (seen, c.done)

end Slotted.ScalarSet
