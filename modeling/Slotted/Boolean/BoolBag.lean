import Slotted.Boolean.BoolSet
import Slotted.ScalarBag.Basic

/-!
# Bags of truth values

A bag of truth values needs no table: it is two counts, which together are at most `maxWord`.

## Main definitions

* `BoolBag` — the two counts.
* `BoolBag.addOccurrences`, `removeOccurrences`, `setOccurrences` — changing a count.
* `BoolBag.Iter` — an iterator: the counts of what is still to come.
-/

namespace Slotted

/-- A bag of truth values. -/
structure BoolBag where
  /-- How often `false` occurs. -/
  falses : Nat := 0
  /-- How often `true` occurs. -/
  trues : Nat := 0
  deriving DecidableEq, Repr

namespace BoolBag

/-- The bag without occurrences. -/
def empty : BoolBag := {}

/-- The number of occurrences. -/
def size (b : BoolBag) : Nat := b.falses + b.trues

/-- The bag has no occurrences. -/
def isEmpty (b : BoolBag) : Bool := b.size == 0

/-- The number of occurrences of a truth value. -/
def occurrencesOf (b : BoolBag) : Bool → Nat
  | false => b.falses
  | true => b.trues

/-- The truth value occurs. -/
def contains (b : BoolBag) (v : Bool) : Bool := b.occurrencesOf v != 0

/-- The bag with another count of a truth value. -/
def withCount (b : BoolBag) (v : Bool) (n : Nat) : BoolBag :=
  match v with
  | false => { b with falses := n }
  | true => { b with trues := n }

/-- The distinct truth values with their counts, `false` first. -/
def distinct (b : BoolBag) : List (Bool × Nat) :=
  [(false, b.falses), (true, b.trues)].filter fun (_, n) => n != 0

/-- The number of distinct truth values. -/
def distinctSize (b : BoolBag) : Nat := b.distinct.length

/-- Every occurrence, those of `false` first. -/
def toList (b : BoolBag) : List Bool := occurrences b.distinct

/-! ### Changing counts -/

/-- Adds `n` occurrences of a truth value; answers with the new count. -/
def addOccurrences (b : BoolBag) (v : Bool) (n : Nat) : Except Abort Nat × BoolBag :=
  match addCount? b.size n with
  | none => (.error .countOverflow, b)
  | some _ => (.ok (b.occurrencesOf v + n), b.withCount v (b.occurrencesOf v + n))

/-- Adds an occurrence of a truth value; answers whether it was absent. -/
def add (b : BoolBag) (v : Bool) : Except Abort Bool × BoolBag :=
  let (count, b) := b.addOccurrences v 1
  (count.map (· == 1), b)

/-- Removes up to `n` occurrences of a truth value; answers whether there were any to remove. -/
def removeOccurrences (b : BoolBag) (v : Bool) (n : Nat) : Bool × BoolBag :=
  if b.occurrencesOf v = 0 ∨ n = 0 then (false, b)
  else (true, b.withCount v (b.occurrencesOf v - n))

/-- Removes an occurrence of a truth value; answers whether there was one. -/
def remove (b : BoolBag) (v : Bool) : Bool × BoolBag := b.removeOccurrences v 1

/-- Makes the count of a truth value `n`; answers with the count before. -/
def setOccurrences (b : BoolBag) (v : Bool) (n : Nat) : Except Abort Nat × BoolBag :=
  match addCount? (b.occurrencesOf !v) n with
  | none => (.error .countOverflow, b)
  | some _ => (.ok (b.occurrencesOf v), b.withCount v n)

/-- Adds an occurrence of each of a list of truth values, up to the first that overflows. -/
def extend (b : BoolBag) : List Bool → Except Abort Unit × BoolBag
  | [] => (.ok (), b)
  | v :: vs =>
    match b.add v with
    | (.ok _, b) => b.extend vs
    | (.error a, b) => (.error a, b)

/-- The bag of a list of truth values. -/
def ofList (vs : List Bool) : Except Abort Unit × BoolBag := empty.extend vs

/-! ### Going through a bag -/

/-- An iterator over the occurrences of a bag: the bag of those still to come. -/
structure Iter where
  /-- The occurrences still to come. -/
  rest : BoolBag
  deriving DecidableEq, Repr

/-- An iterator over all occurrences. -/
def iter (b : BoolBag) : Iter := ⟨b⟩

/-- How many occurrences are still to come. -/
def Iter.remaining (it : Iter) : Nat := it.rest.size

/-- The next occurrence; those of `false` come before those of `true`. -/
def Iter.step (it : Iter) : Option Bool × Iter :=
  match it.rest with
  | ⟨f + 1, t⟩ => (some false, ⟨⟨f, t⟩⟩)
  | ⟨0, t + 1⟩ => (some true, ⟨⟨0, t⟩⟩)
  | ⟨0, 0⟩ => (none, it)

instance : Iterator Iter Bool := ⟨Iter.step, Iter.remaining⟩

/-- A hash of the contents: the sum, over the distinct truth values, of their hashes, each combined
with the count. -/
def hashCode (b : BoolBag) : UInt64 :=
  b.distinct.foldl (fun h (v, n) => h + (hashBool v ^^^ UInt64.ofNat n)) 0

end BoolBag

end Slotted
