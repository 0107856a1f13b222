import Slotted.Iteration
import Slotted.Scalar

/-!
# Sets of truth values

A set of truth values needs no table: it is one of four.

## Main definitions

* `BoolSet` — the four sets.
* `BoolSet.add`, `remove`, `contains`, `toList`, `hashCode` — the operations of a set of scalars.
* `BoolSet.Iter` — an iterator: the set of the elements still to come.
-/

namespace Slotted

/-- The hash of a truth value: that of the number zero or one. -/
def hashBool (b : Bool) : UInt64 := mix (if b then 1 else 0)

/-- A set of truth values. -/
inductive BoolSet where
  /-- No element. -/
  | empty
  /-- Only `false`. -/
  | falseOnly
  /-- Only `true`. -/
  | trueOnly
  /-- Both truth values. -/
  | both
  deriving DecidableEq, Repr

namespace BoolSet

/-- The number of elements. -/
def size : BoolSet → Nat
  | empty => 0
  | falseOnly | trueOnly => 1
  | both => 2

/-- The set has no elements. -/
def isEmpty (s : BoolSet) : Bool := s == empty

/-- The truth value is an element. -/
def contains : BoolSet → Bool → Bool
  | both, _ => true
  | falseOnly, b => !b
  | trueOnly, b => b
  | empty, _ => false

/-- The set with one more element. -/
def insert : BoolSet → Bool → BoolSet
  | empty, false => falseOnly
  | empty, true => trueOnly
  | falseOnly, true => both
  | trueOnly, false => both
  | s, _ => s

/-- The set with one element less. -/
def erase : BoolSet → Bool → BoolSet
  | falseOnly, false => empty
  | trueOnly, true => empty
  | both, false => trueOnly
  | both, true => falseOnly
  | s, _ => s

/-- Adds a truth value; answers whether it was absent. -/
def add (s : BoolSet) (b : Bool) : Bool × BoolSet := (s.insert b != s, s.insert b)

/-- Removes a truth value; answers whether it was present. -/
def remove (s : BoolSet) (b : Bool) : Bool × BoolSet := (s.erase b != s, s.erase b)

/-- Adds each of a list of truth values. -/
def extend (s : BoolSet) (bs : List Bool) : BoolSet := bs.foldl insert s

/-- The set of a list of truth values. -/
def ofList (bs : List Bool) : BoolSet := empty.extend bs

/-! ### Going through a set -/

/-- An iterator over a set: the set of the elements still to come. -/
structure Iter where
  /-- The elements still to come. -/
  rest : BoolSet
  deriving DecidableEq, Repr

/-- An iterator over all elements. -/
def iter (s : BoolSet) : Iter := ⟨s⟩

/-- How many elements are still to come. -/
def Iter.remaining (it : Iter) : Nat := it.rest.size

/-- The next element; `false` comes before `true`. -/
def Iter.step (it : Iter) : Option Bool × Iter :=
  if it.rest.contains false then (some false, ⟨it.rest.erase false⟩)
  else if it.rest.contains true then (some true, ⟨it.rest.erase true⟩)
  else (none, it)

instance : Iterator Iter Bool := ⟨Iter.step, Iter.remaining⟩

/-- The elements, `false` first. -/
def toList (s : BoolSet) : List Bool := [false, true].filter s.contains

/-- A hash of the elements: the sum of their hashes. -/
def hashCode (s : BoolSet) : UInt64 := s.toList.foldl (fun h b => h + hashBool b) 0

end BoolSet

end Slotted
