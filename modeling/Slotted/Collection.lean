import Slotted.Boolean.BoolBag
import Slotted.ScalarSet.Basic
import Slotted.Tally

/-!
# What all containers have in common

## Main definitions

* `Collection` — the operations that every container has.
* `Counted` — those of a container that counts occurrences.
* `Bag` — those of a container whose counts can be set.
* `ScalarContainer` — those of a container with slots.
* `Hashed` — those of a container with a hash of its contents, which `Hashed.feed` gives to a hasher.
* `Collection.extend` — adding a list of elements.

An operation that may need room for a value answers in `Traced`; in containers without slots there
is nothing to rebuild.
-/

namespace Slotted

/-- The operations that every container has.  In a bag each occurrence is an element of its own. -/
class Collection (C : Type) (α : outParam Type) where
  /-- The container without elements. -/
  empty : C
  /-- The number of elements. -/
  size : C → Nat
  /-- The element is there. -/
  contains : C → α → Bool
  /-- The elements. -/
  toList : C → List α
  /-- Adds an element; answers whether it was absent. -/
  add : C → α → Traced (Except Abort Bool × C)
  /-- Removes an element once; answers whether it was there. -/
  remove : C → α → Bool × C
  /-- Removes every element. -/
  clear : C → C

/-- The operations of a container that counts how often it holds an element. -/
class Counted (C : Type) (α : outParam Type) extends Collection C α where
  /-- The number of occurrences of an element. -/
  occurrencesOf : C → α → Nat
  /-- The distinct elements with their counts. -/
  distinct : C → List (α × Nat)
  /-- Adds occurrences of an element; answers with the new count. -/
  addOccurrences : C → α → Nat → Traced (Except Abort Nat × C)

/-- The operations of a container that can be given the count of an element. -/
class Bag (C : Type) (α : outParam Type) extends Counted C α where
  /-- Removes up to a number of occurrences; answers whether there were any to remove. -/
  removeOccurrences : C → α → Nat → Bool × C
  /-- Makes the count of an element a number; answers with the count before. -/
  setOccurrences : C → α → Nat → Traced (Except Abort Nat × C)

/-- The operations of a container of scalars, which are kept in slots. -/
class ScalarContainer (C : Type) (k : outParam Kind) extends Collection C (Scalar k) where
  /-- An empty container with room for a number of values. -/
  tryWithCapacity : Nat → Except Failure C
  /-- An empty container with room for a number of values, which is taken to be possible. -/
  withCapacity : Nat → Except Abort C
  /-- Makes room for a number of further values. -/
  reserve : C → Nat → Except Failure (Traced C)
  /-- Removes the values that a predicate on value and count rejects. -/
  retainM {m : Type → Type} [Monad m] : C → (Scalar k → Nat → m Bool) → m C
  /-- The least value. -/
  min : C → Except Error (Scalar k)
  /-- The greatest value. -/
  max : C → Except Error (Scalar k)

/-- The operations of a container with a hash of its contents. -/
class Hashed (C : Type) where
  /-- A hash of the contents that does not depend on their order. -/
  hashCode : C → UInt64

/-- Hashes a container: the hasher, which takes words in `write` and is in a given state, takes the
hash code and nothing else. -/
def Hashed.feed {C σ : Type} [Hashed C] (write : σ → UInt64 → σ) (state : σ) (c : C) : σ :=
  write state (hashCode c)

namespace Collection

variable {C α : Type} [Collection C α]

/-- The container has no elements. -/
def isEmpty (c : C) : Bool := size c == 0

/-- Adds each of a list of elements, up to the first that aborts. -/
def extend (c : C) : List α → Traced (Except Abort Unit × C)
  | [] => pure (.ok (), c)
  | a :: as => do
    match ← add c a with
    | (.ok _, c) => extend c as
    | (.error e, c) => return (.error e, c)

end Collection

/-! ### Instances -/

instance {k : Kind} : Collection (ScalarSet k) (Scalar k) where
  empty := .empty
  size := ScalarSet.size
  contains := ScalarSet.contains
  toList := ScalarSet.toList
  add s v := (fun (fresh, s) => (.ok fresh, s)) <$> s.add v
  remove := ScalarSet.remove
  clear := ScalarSet.clear

instance {k : Kind} : Bag (ScalarBag k) (Scalar k) where
  empty := .empty
  size := ScalarBag.size
  contains := ScalarBag.contains
  toList := ScalarBag.toList
  add := ScalarBag.add
  remove := ScalarBag.remove
  clear := ScalarBag.clear
  occurrencesOf := ScalarBag.occurrencesOf
  distinct := ScalarBag.distinct
  addOccurrences := ScalarBag.addOccurrences
  removeOccurrences := ScalarBag.removeOccurrences
  setOccurrences := ScalarBag.setOccurrences

instance {k : Kind} : ScalarContainer (ScalarSet k) k where
  tryWithCapacity := ScalarSet.tryWithCapacity
  withCapacity := ScalarSet.withCapacity
  reserve := ScalarSet.reserve
  retainM s keep := s.retainM fun v => keep v 1
  min := ScalarSet.min
  max := ScalarSet.max

instance {k : Kind} : ScalarContainer (ScalarBag k) k where
  tryWithCapacity := ScalarBag.tryWithCapacity
  withCapacity := ScalarBag.withCapacity
  reserve := ScalarBag.reserve
  retainM b keep := b.retainM keep
  min := ScalarBag.min
  max := ScalarBag.max

instance : Collection BoolSet Bool where
  empty := .empty
  size := BoolSet.size
  contains := BoolSet.contains
  toList := BoolSet.toList
  add s v :=
    let (fresh, s) := s.add v
    pure (.ok fresh, s)
  remove := BoolSet.remove
  clear _ := .empty

instance : Bag BoolBag Bool where
  empty := .empty
  size := BoolBag.size
  contains := BoolBag.contains
  toList := BoolBag.toList
  add b v := pure (b.add v)
  remove := BoolBag.remove
  clear _ := .empty
  occurrencesOf := BoolBag.occurrencesOf
  distinct := BoolBag.distinct
  addOccurrences b v n := pure (b.addOccurrences v n)
  removeOccurrences := BoolBag.removeOccurrences
  setOccurrences b v n := pure (b.setOccurrences v n)

instance {k : Kind} : Hashed (ScalarSet k) := ⟨ScalarSet.hashCode⟩

instance {k : Kind} : Hashed (ScalarBag k) := ⟨ScalarBag.hashCode⟩

instance : Hashed BoolSet := ⟨BoolSet.hashCode⟩

instance : Hashed BoolBag := ⟨BoolBag.hashCode⟩

instance {α : Type} [DecidableEq α] : Counted (Tally α) α where
  empty := .empty
  size := Tally.size
  contains := Tally.contains
  toList := Tally.toList
  add t a := pure (t.add a)
  remove := Tally.remove
  clear := Tally.clear
  occurrencesOf := Tally.occurrencesOf
  distinct := Tally.distinct
  addOccurrences t a n := pure (t.addOccurrences a n)

end Slotted
