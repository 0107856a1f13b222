import Slotted.Table.Scan

/-!
# Sets of scalars

A set of scalars of one kind: a table without payloads.  Elements are compared by key, so all NaNs
are one element and the two zeros are two.  The value stored is the one whose addition made the
element present; adding an equal value later changes nothing.

## Main definitions

* `ScalarSet` — the type.
* `ScalarSet.add`, `remove`, `contains`, `clear`, `reserve`, `retainM`, `extend` — the operations.
* `ScalarSet.toList` — the elements in slot order, and `hashCode`, `min`, `max` and `eqv` over them.

Only operations that may need room answer in `Traced` and can move values to other slots.
-/

namespace Slotted

/-- Keeps the first of the values that no later one beats, in the order of the kind. -/
def Scalar.extremum? {k : Kind} (beats : Scalar k → Scalar k → Bool) :
    List (Scalar k) → Option (Scalar k)
  | [] => none
  | v :: vs => some (vs.foldl (fun best w => if beats w best then w else best) v)

/-- The least of a list of values: the first, but for later ones below the least so far. -/
def Scalar.least? {k : Kind} (vs : List (Scalar k)) : Option (Scalar k) :=
  extremum? (fun v w => v.lt w) vs

/-- The greatest of a list of values: the first, but for later ones above the greatest so far. -/
def Scalar.greatest? {k : Kind} (vs : List (Scalar k)) : Option (Scalar k) :=
  extremum? (fun v w => w.lt v) vs

/-- A set of scalars of kind `k`. -/
structure ScalarSet (k : Kind) where
  /-- The table of the elements. -/
  table : Table k Unit := .empty

namespace ScalarSet

variable {k : Kind}

/-- The set without elements and without slots. -/
def empty : ScalarSet k := {}

/-- The number of elements. -/
def size (s : ScalarSet k) : Nat := s.table.live

/-- The set has no elements. -/
def isEmpty (s : ScalarSet k) : Bool := s.size == 0

/-- The number of slots. -/
def capacity (s : ScalarSet k) : Nat := s.table.capacity

/-- The value is an element. -/
def contains (s : ScalarSet k) (v : Scalar k) : Bool := (s.table.find v).isSome

/-- The elements, in slot order. -/
def toList (s : ScalarSet k) : List (Scalar k) := s.table.entries.map (·.value)

/-! ### Changing a set -/

/-- Adds a value; answers whether it was absent. -/
def add (s : ScalarSet k) (v : Scalar k) : Traced (Bool × ScalarSet k) := do
  let (t, place) ← s.table.entry v
  match place with
  | .vacant i => return (true, ⟨t.occupy i v ()⟩)
  | _ => return (false, ⟨t⟩)

/-- Removes a value; answers whether it was present. -/
def remove (s : ScalarSet k) (v : Scalar k) : Bool × ScalarSet k :=
  match s.table.find v with
  | some i => (true, ⟨s.table.vacate i⟩)
  | none => (false, s)

/-- Removes every element, keeping the slots. -/
def clear (s : ScalarSet k) : ScalarSet k := ⟨s.table.clear⟩

/-- Removes the elements that `keep` rejects, asking it once for each, in slot order. -/
@[inline] def retainM {m : Type → Type} [Monad m] (s : ScalarSet k) (keep : Scalar k → m Bool) :
    m (ScalarSet k) := do
  let (t, ()) ← s.table.filterM (fun () () => ()) (fun v () => keep v) ()
  return ⟨t⟩

/-- Removes the elements that `keep` rejects. -/
def retain (s : ScalarSet k) (keep : Scalar k → Bool) : ScalarSet k :=
  Id.run (s.retainM fun v => pure (keep v))

/-- Adds each of a list of values. -/
def extend (s : ScalarSet k) (vs : List (Scalar k)) : Traced (ScalarSet k) :=
  vs.foldlM (fun s v => (·.2) <$> s.add v) s

/-- The set of a list of values, added one by one to an empty set. -/
def ofList (vs : List (Scalar k)) : Traced (ScalarSet k) := empty.extend vs

/-! ### Room asked for in advance -/

/-- An empty set with room for `n` elements. -/
def tryWithCapacity (n : Nat) : Except Failure (ScalarSet k) := (⟨·⟩) <$> Table.withCapacity n

/-- An empty set with room for `n` elements, which the caller takes to be possible. -/
def withCapacity (n : Nat) : Except Abort (ScalarSet k) :=
  match tryWithCapacity n with
  | .ok s => .ok s
  | .error (.error _) => .error .unrepresentableCapacity
  | .error (.abort a) => .error a

/-- Makes room for `n` more elements, so that adding them rebuilds nothing. -/
def reserve (s : ScalarSet k) (n : Nat) : Except Failure (Traced (ScalarSet k)) :=
  ((⟨·⟩) <$> ·) <$> s.table.reserve n

/-! ### What a set says of its contents -/

/-- A hash of the elements that does not depend on their order: the sum of their hashes. -/
def hashCode (s : ScalarSet k) : UInt64 := s.toList.foldl (fun h v => h + v.hash) 0

/-- The least element, by a scan in slot order. -/
def min (s : ScalarSet k) : Except Error (Scalar k) :=
  (Scalar.least? s.toList).elim (.error .noSuchElement) .ok

/-- The greatest element, by a scan in slot order. -/
def max (s : ScalarSet k) : Except Error (Scalar k) :=
  (Scalar.greatest? s.toList).elim (.error .noSuchElement) .ok

/-- The two sets have the same elements. -/
def eqv (s s' : ScalarSet k) : Bool := s.size == s'.size && s.toList.all s'.contains

/-- The elements are those of a list, however often it names them. -/
def eqvList (s : ScalarSet k) (vs : List (Scalar k)) : Bool :=
  s.size == vs.eraseDups.length && s.toList.all vs.contains

end ScalarSet

end Slotted
