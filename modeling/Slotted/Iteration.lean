import Slotted.Error

/-!
# Iterators and cursors

An iterator hands out items one after the other and knows how many are left.  A cursor hands out the
elements of a container that it may also remove, each right after it came to it.

## Main definitions

* `Iterator`, `Iterator.take` — iterators, and the first results of one.
* `Iterator.items` — all the items that an iterator has left.
* `EditCursor`, `EditCursor.run` — cursors, and what comes of a script of moves.
* `EditCursor.sweep` — a cursor's way to the end, with some elements removed.
-/

namespace Slotted

/-- An iterator over items of `α`. -/
class Iterator (I : Type) (α : outParam Type) where
  /-- The next item, if there is one. -/
  step : I → Option α × I
  /-- The number of items that are left. -/
  remaining : I → Nat

/-- The results of `n` calls for the next item, and the iterator after them. -/
def Iterator.take {I α : Type} [Iterator I α] (it : I) : (n : Nat) → List (Option α) × I
  | 0 => ([], it)
  | n + 1 =>
    let (a, it) := Iterator.step it
    let (as, it) := Iterator.take it n
    (a :: as, it)

/-- The items that are left.  As many calls as there are items left hand out all of them. -/
def Iterator.items {I α : Type} [Iterator I α] (it : I) : List α :=
  (Iterator.take it (Iterator.remaining it)).1.filterMap id

/-- A cursor over elements of `α`. -/
class EditCursor (K : Type) (α : outParam Type) where
  /-- Moves to the next element, if there is one. -/
  step : K → Option α × K
  /-- Removes the element that the cursor came to. -/
  remove : K → Except Error K

/-- What a cursor may be told to do. -/
inductive CursorMove where
  /-- Move to the next element. -/
  | next
  /-- Remove the element it came to. -/
  | remove
  deriving DecidableEq, Repr

/-- What comes of a move of a cursor. -/
inductive CursorAnswer (α : Type) where
  /-- The element it came to, if there was one. -/
  | item (a : Option α)
  /-- The element was removed. -/
  | removed
  /-- There was nothing to remove. -/
  | refused (e : Error)
  deriving DecidableEq, Repr

namespace EditCursor

variable {K α : Type} [EditCursor K α]

/-- Makes one move.  A removal that is refused leaves the cursor as it was. -/
def move (c : K) : CursorMove → CursorAnswer α × K
  | .next =>
    let (a, c) := step c
    (.item a, c)
  | .remove =>
    match remove c with
    | .ok c => (.removed, c)
    | .error e => (.refused e, c)

/-- Makes moves one after the other. -/
def run (c : K) : List CursorMove → List (CursorAnswer α) × K
  | [] => ([], c)
  | m :: ms =>
    let (a, c) := move c m
    let (as, c) := run c ms
    (a :: as, c)

/-- Walks on to the end, at most `fuel` elements far, and removes those that `drop` picks; `seen`
are the elements passed so far, the last one first. -/
def sweepFrom (drop : α → Bool) : (fuel : Nat) → K → (seen : List α) → List α × K
  | 0, c, seen => (seen.reverse, c)
  | fuel + 1, c, seen =>
    match step c with
    | (none, c) => (seen.reverse, c)
    | (some a, c) =>
      let c := if drop a then (move c .remove).2 else c
      sweepFrom drop fuel c (a :: seen)

/-- A way of at most `fuel` elements through a container, removing those that `drop` picks.  Answers
with all the elements it came to. -/
def sweep (c : K) (fuel : Nat) (drop : α → Bool) : List α × K := sweepFrom drop fuel c []

end EditCursor

end Slotted
