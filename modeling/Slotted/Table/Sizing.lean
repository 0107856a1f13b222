import Slotted.Kind

/-!
# How many slots a table needs

A table of nonzero length has a power of two of slots, at least eight, and never more used slots
than its load allows.

## Main definitions

* `maxWord`, `word?` — the greatest machine word, which bounds counts and capacities, and a number
  if it is a word.
* `powerOfTwoAbove` — the least power of two above a number.
* `slotsFor?` — the slots for a given number of values, unless they are too many to count.
* `slotsForInWords?` — the same in the arithmetic of machine words.
* `Load.exceededBy` — whether a number of used slots is over the limit of a table.
* `Load.exceededByWord` — the same test in saturating 64-bit arithmetic, which is how a machine
  would evaluate it; on tables that fit in memory the two agree.
* `fitsMemory` — whether the arrays of a table are within the largest possible allocation.
-/

namespace Slotted

/-- The greatest machine word. -/
def maxWord : Nat := 0xffffffffffffffff

/-- A number, unless it is more than a machine word. -/
def word? (n : Nat) : Option Nat := if n ≤ maxWord then some n else none

theorem word?_eq_some {n : Nat} (h : n ≤ maxWord) : word? n = some n := if_pos h

/-- The fewest slots of a table that has any. -/
def minSlots : Nat := 8

/-- The least power of two above a number. -/
def powerOfTwoAbove (n : Nat) : Nat := if n = 0 then 1 else Nat.pow 2 (n.log2 + 1)

/-- The number of slots that hold `capacity` values within the load limit: none at all for no
values, else a power of two with `capacity * den < slots * num`.  There is no answer when the
numbers on the way are not machine words. -/
def slotsFor? (capacity : Nat) (load : Load) : Option Nat :=
  if capacity = 0 then some 0
  else if maxWord < capacity * load.den then none
  else
    let slots := powerOfTwoAbove (capacity * load.den / load.num)
    if maxWord < slots then none else some (max minSlots slots)

/-- The least power of two that is not below a number. -/
def powerOfTwoFrom (n : Nat) : Nat := powerOfTwoAbove (n - 1)

@[simp] theorem powerOfTwoFrom_succ (n : Nat) : powerOfTwoFrom (n + 1) = powerOfTwoAbove n := rfl

/-- `slotsFor?` as a machine computes it, one operation after the other.  It answers that there are
no such slots if the product or the power of two is no word.  Nothing checks the sum, so there is no
answer at all if that is no word. -/
def slotsForInWords? (capacity : Nat) (load : Load) : Option (Option Nat) :=
  if capacity = 0 then some (some 0)
  else
    match word? (capacity * load.den) with
    | none => some none
    | some product => do
      let slots ← word? (product / load.num + 1)
      return (word? (powerOfTwoFrom slots)).map (max minSlots)

namespace Load

/-- With `used` slots in use, a table of `capacity` slots is over the limit. -/
def exceededBy (load : Load) (used capacity : Nat) : Bool := capacity * load.num < used * load.den

theorem exceededBy_iff {load : Load} {used capacity : Nat} :
    load.exceededBy used capacity = true ↔ capacity * load.num < used * load.den := by
  simp [exceededBy]

end Load

/-- The sum of two words, or the greatest word if it is none. -/
def saturatingAdd (a b : Nat) : Nat := min (a + b) maxWord

/-- The product of two words, or the greatest word if it is none. -/
def saturatingMul (a b : Nat) : Nat := min (a * b) maxWord

/-- The test of `Load.exceededBy` for `used` slots in use and `additional` more, in saturating
arithmetic on words. -/
def Load.exceededByWord (load : Load) (used additional capacity : Nat) : Bool :=
  saturatingMul capacity load.num < saturatingMul (saturatingAdd used additional) load.den

/-- The most bytes that one allocation may have. -/
def maxAllocation : Nat := 0x7fffffffffffffff

/-- The arrays of a table with `slots` slots, of values of kind `k` and payloads of `payloadWidth`
bytes, are within the largest possible allocation. -/
def fitsMemory (k : Kind) (payloadWidth slots : Nat) : Bool :=
  slots * k.width ≤ maxAllocation && slots * payloadWidth ≤ maxAllocation

end Slotted
