import Slotted.Table.Sizing

/-!
# Counts and the occurrences they stand for

A container that may hold an element several times over keeps the element once, with a count.  A
count, and the sum of all counts of a container, is a machine word.

## Main definitions

* `addCount?` — the sum of two counts, if it is a count.
* `occurrences` — every element of a list of elements with counts, as often as its count says.
-/

namespace Slotted

/-- The sum of two counts, unless it is more than a machine word. -/
def addCount? (a b : Nat) : Option Nat := if a + b ≤ maxWord then some (a + b) else none

variable {α β : Type}

/-- The elements of a list, each as often as the count beside it says. -/
def occurrences (entries : List (α × Nat)) : List α :=
  entries.flatMap fun (a, n) => List.replicate n a

@[simp] theorem occurrences_nil : occurrences ([] : List (α × Nat)) = [] := rfl

@[simp] theorem occurrences_cons (a : α) (n : Nat) (rest : List (α × Nat)) :
    occurrences ((a, n) :: rest) = List.replicate n a ++ occurrences rest := rfl

theorem occurrences_append (entries entries' : List (α × Nat)) :
    occurrences (entries ++ entries') = occurrences entries ++ occurrences entries' := by
  simp [occurrences]

/-- Elements that are counted once each occur once each. -/
theorem occurrences_map_one (f : β → α) (bs : List β) :
    occurrences (bs.map fun b => (f b, 1)) = bs.map f := by
  induction bs with
  | nil => rfl
  | cons b bs ih => simp [ih]

end Slotted
