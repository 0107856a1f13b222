import Slotted.Iteration
import Slotted.ScalarBag.Basic

/-!
# Tallies: bags of arbitrary elements

A tally holds elements of any type whose equality is decidable, each some positive number of times.
It is a finite map from elements to counts, as a list of entries, with a separate total that is at
most `maxWord`.  Nothing depends on the order of the entries but the order in which a tally is gone
through.

## Main definitions

* `Tally` — the type.
* `Tally.addOccurrences`, `add`, `remove`, `clear`, `extend` — the operations of a bag.
* `Tally.merge` — adds all of another tally, entry by entry.
* `ScalarBag.eqvTally`, `ScalarSet.eqvList` — comparing with the containers of scalars.
-/

namespace Slotted

/-- A bag of elements of `α`. -/
structure Tally (α : Type) where
  /-- The elements with their counts; no element has two entries. -/
  entries : List (α × Nat) := []
  /-- The number of all occurrences. -/
  total : Nat := 0
  deriving DecidableEq, Repr

namespace Tally

variable {α : Type}

/-- The tally without elements. -/
def empty : Tally α := {}

/-- The number of occurrences. -/
def size (t : Tally α) : Nat := t.total

/-- The tally has no occurrences. -/
def isEmpty (t : Tally α) : Bool := t.total == 0

/-- The number of distinct elements. -/
def distinctSize (t : Tally α) : Nat := t.entries.length

/-- The distinct elements with their counts. -/
def distinct (t : Tally α) : List (α × Nat) := t.entries

/-- Every occurrence. -/
def toList (t : Tally α) : List α := occurrences t.entries

/-- Removes every element. -/
def clear (_ : Tally α) : Tally α := empty

/-! ### Going through a tally -/

/-- An iterator over the occurrences of a tally. -/
structure Iter (α : Type) where
  /-- The entries not yet begun. -/
  entries : List (α × Nat)
  /-- The element last seen, and how many of its occurrences are still to come. -/
  current : Option (α × Nat)
  /-- The number of occurrences still to come. -/
  remaining : Nat

/-- An iterator over all occurrences. -/
def iter (t : Tally α) : Iter α := ⟨t.entries, none, t.total⟩

/-- The next occurrence: of the element last seen, if it has any left, else of the next entry. -/
def Iter.step (it : Iter α) : Option α × Iter α :=
  match it.current with
  | some (a, left + 1) =>
    (some a, { it with current := some (a, left), remaining := it.remaining - 1 })
  | _ =>
    match it.entries with
    | (a, n) :: rest => (some a, ⟨rest, some (a, n - 1), it.remaining - 1⟩)
    | [] => (none, it)

instance : Iterator (Iter α) α := ⟨Iter.step, Iter.remaining⟩

/-! ### Changing counts -/

variable [DecidableEq α]

/-- The count beside an element in a list of entries. -/
def countIn (a : α) : List (α × Nat) → Nat
  | [] => 0
  | (b, n) :: rest => if b = a then n else countIn a rest

/-- Adds to the count in the entry of an element. -/
def raiseIn (a : α) (n : Nat) : List (α × Nat) → List (α × Nat)
  | [] => []
  | (b, m) :: rest => if b = a then (b, m + n) :: rest else (b, m) :: raiseIn a n rest

/-- Adds to the count of an element, in a new entry if it has none. -/
def addIn (a : α) (n : Nat) (entries : List (α × Nat)) : List (α × Nat) :=
  if countIn a entries = 0 then (a, n) :: entries else raiseIn a n entries

theorem countIn_raiseIn (a b : α) (n : Nat) (entries : List (α × Nat))
    (h : countIn a entries ≠ 0) :
    countIn b (raiseIn a n entries) = countIn b entries + if a = b then n else 0 := by
  induction entries with
  | nil => simp [countIn] at h
  | cons e rest ih =>
    by_cases hea : e.1 = a
    · by_cases hab : a = b <;> simp_all [countIn, raiseIn]
    · by_cases heb : e.1 = b
      · have hab : a ≠ b := fun hab => hea (heb.trans hab.symm)
        simp_all [countIn, raiseIn]
      · simp_all [countIn, raiseIn]

/-- The count of the element grows by as much as is added, and no other count changes. -/
theorem countIn_addIn (a b : α) (n : Nat) (entries : List (α × Nat)) :
    countIn b (addIn a n entries) = countIn b entries + if a = b then n else 0 := by
  by_cases h : countIn a entries = 0
  · by_cases hab : a = b
    · subst hab
      simp [addIn, countIn, h]
    · simp [addIn, countIn, h, hab]
  · rw [addIn, if_neg h, countIn_raiseIn a b n entries h]

/-- Takes one from the count of an element, and its entry away with the last. -/
def removeIn (a : α) : List (α × Nat) → List (α × Nat)
  | [] => []
  | (b, m) :: rest =>
    if b = a then if 1 < m then (b, m - 1) :: rest else rest else (b, m) :: removeIn a rest

/-- The number of occurrences of an element. -/
def occurrencesOf (t : Tally α) (a : α) : Nat := countIn a t.entries

/-- The element occurs. -/
def contains (t : Tally α) (a : α) : Bool := t.entries.any (·.1 = a)

/-- Adds `n` occurrences of an element; answers with the new count.  Adding none changes nothing. -/
def addOccurrences (t : Tally α) (a : α) (n : Nat) : Except Abort Nat × Tally α :=
  if n = 0 then (.ok (t.occurrencesOf a), t)
  else
    match addCount? t.total n with
    | none => (.error .countOverflow, t)
    | some total => (.ok (t.occurrencesOf a + n), ⟨addIn a n t.entries, total⟩)

/-- Adds an occurrence of an element; answers whether it was absent. -/
def add (t : Tally α) (a : α) : Except Abort Bool × Tally α :=
  let (count, t) := t.addOccurrences a 1
  (count.map (· == 1), t)

/-- Removes an occurrence of an element; answers whether there was one. -/
def remove (t : Tally α) (a : α) : Bool × Tally α :=
  if t.contains a then (true, ⟨removeIn a t.entries, t.total - 1⟩) else (false, t)

/-- Adds an occurrence of each of a list of elements, up to the first that overflows. -/
def extend (t : Tally α) : List α → Except Abort Unit × Tally α
  | [] => (.ok (), t)
  | a :: as =>
    match t.add a with
    | (.ok _, t) => t.extend as
    | (.error e, t) => (.error e, t)

/-- The tally of a list of elements. -/
def ofList (as : List α) : Except Abort Unit × Tally α := empty.extend as

/-- Adds a list of entries in the order given, up to the first that overflows. -/
def mergeEntries (t : Tally α) : List (α × Nat) → Except Abort Unit × Tally α
  | [] => (.ok (), t)
  | (a, n) :: rest =>
    match t.addOccurrences a n with
    | (.ok _, t) => t.mergeEntries rest
    | (.error e, t) => (.error e, t)

/-- Adds all occurrences of another tally. -/
def merge (t t' : Tally α) : Except Abort Unit × Tally α := t.mergeEntries t'.entries

/-- The two tallies hold the same elements equally often. -/
def eqv (t t' : Tally α) : Bool :=
  t.total == t'.total && t.distinctSize == t'.distinctSize &&
    t.entries.all fun (a, n) => t'.contains a && t'.occurrencesOf a == n

/-! ### Tallies of scalars -/

variable {k : Kind}

/-- A hash of the contents that does not depend on their order, and agrees with that of a bag of
scalars with the same contents. -/
def hashCode (t : Tally (Scalar k)) : UInt64 :=
  t.entries.foldl (fun h (v, n) => h + (v.hash ^^^ UInt64.ofNat n)) 0

end Tally

/-- The bag and the tally hold the same values equally often. -/
def ScalarBag.eqvTally {k : Kind} (b : ScalarBag k) (t : Tally (Scalar k)) : Bool :=
  b.total == t.total && b.distinctSize == t.distinctSize &&
    b.distinct.all fun (v, n) => t.occurrencesOf v == n

end Slotted
