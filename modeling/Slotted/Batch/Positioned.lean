import Slotted.ScalarBag.Basic
import Slotted.ScalarSet.Basic

/-!
# Collections with positions

A collection with positions can be visited piecewise.  A position need not hold an element, and may
hold one several times over: the positions of a table are its slots, and a bag comes to each value
as often as it occurs.

## Main definitions

* `Positioned` — the number of positions, and what the positions of a range hold.
* `visit` — the elements at the positions of a range.
* `visit?` — the same, for a call that aborts if the collection does not have these positions.
* `eachPosition` — what every single position holds.
-/

namespace Slotted

/-- A type of collections of elements of `α` at positions. -/
class Positioned (C : Type) (α : outParam Type) where
  /-- The number of positions. -/
  positions : C → Nat
  /-- The elements with `start ≤ position < stop`, in order, each with the number of times that it
  is there. -/
  runs : C → (start stop : Nat) → List (α × Nat)

export Positioned (positions runs)

/-- The elements with `start ≤ position < stop`, in order. -/
def visit {C α : Type} [Positioned C α] (c : C) (start stop : Nat) : List α :=
  occurrences (runs c start stop)

/-- The elements of a range of positions of the collection.  A call for any other range aborts. -/
def visit? {C α : Type} [Positioned C α] (c : C) (start stop : Nat) : Option (List α) :=
  if start ≤ stop ∧ stop ≤ positions c then some (visit c start stop) else none

instance {α : Type} : Positioned (Array α) α where
  positions a := a.size
  runs a start stop := (a.extract start stop).toList.map fun x => (x, 1)

instance {k : Kind} : Positioned (ScalarSet k) (Scalar k) where
  positions s := s.capacity
  runs s start stop := (s.table.scan start stop).map fun e => (e.value, 1)

instance {k : Kind} : Positioned (ScalarBag k) (Scalar k) where
  positions b := b.capacity
  runs b start stop := (b.table.scan start stop).map fun e => (e.value, e.payload)

/-- An array has one element at each position. -/
theorem visit_array {α : Type} (a : Array α) (start stop : Nat) :
    visit a start stop = (a.extract start stop).toList :=
  (occurrences_map_one id _).trans (List.map_id _)

/-- A set has at most one element at each position. -/
theorem visit_scalarSet {k : Kind} (s : ScalarSet k) (start stop : Nat) :
    visit s start stop = (s.table.scan start stop).map (·.value) :=
  occurrences_map_one Entry.value _

/-- Every position on its own: its index and what it holds. -/
def eachPosition {C α : Type} [Positioned C α] (c : C) : List (Nat × List (α × Nat)) :=
  (List.range (positions c)).map fun i => (i, runs c i (i + 1))

end Slotted
