import Slotted.Error
import Slotted.Rebuild
import Slotted.Scalar
import Slotted.Table.Probe
import Slotted.Table.Sizing

/-!
# Open-addressed tables

A table is an array of slots.  A slot is empty, holds a value with its payload, or is a *tombstone*
where a value used to be.  A search for a value walks the value's probe sequence and may stop at the
first empty slot: insertion takes the first free slot on the sequence, and removal leaves a
tombstone, so no empty slot ever comes before a value on the sequence of its hash.

Insertion prefers a tombstone to the empty slot behind it, since that does not raise the load.
If it has to take an empty slot and the load would pass the limit, the table is rebuilt first:
at the same capacity when live values alone fill at most half of the limit, else at the double.

## Main definitions

* `Slot`, `Table` — the slots, and a table with its two counters.
* `Table.find`, `Table.locate` — searching for a value, and for a place to put it.
* `Table.entry`, `Table.occupy`, `Table.vacate` — insertion in two steps, and removal.
* `Table.rebuild`, `Table.grow`, `Table.reserve` — moving to another number of slots.
* `Table.overLimitInWords?`, `Table.grownCapacityInWords?` — when that is done, and to how many
  slots, in the arithmetic of machine words.

Searches are bounded by the number of slots.  `Place.exhausted` says that a search for a free slot
passed all of them; the load limit keeps that from happening.

Room asked for in advance is not given if its arrays exceed the largest possible allocation.
Growing does not look at that, since no run gets there.  A table is doubled at most, and only when
it is full, so its arrays are within that bound as long as fewer than `2 ^ 58` slots are in use
(`growth_within_memory`).  A table that is full with so many has an array of `2 ^ 62` bytes already,
beside which another of twice the size would have to be allocated: memory is exhausted long before,
and what happens when it is exhausted is not modelled.
-/

namespace Slotted

/-- A slot of a table. -/
inductive Slot (k : Kind) (P : Type) where
  /-- The slot held no value since the table was last rebuilt or cleared. -/
  | empty
  /-- The slot held a value that was removed; searches go on past it. -/
  | tombstone
  /-- The slot holds a value. -/
  | live (value : Scalar k) (payload : P)

/-- What a table keeps beside each value, by its size in bytes. -/
class Payload (P : Type) where
  /-- The size of one payload in bytes. -/
  width : Nat

/-- Sets keep nothing. -/
instance : Payload Unit := ⟨0⟩

/-- Bags keep a count, a machine word. -/
instance : Payload Nat := ⟨8⟩

/-- An open-addressed table of values of kind `k` with payloads in `P`. -/
structure Table (k : Kind) (P : Type) where
  /-- The slots. -/
  slots : Array (Slot k P) := #[]
  /-- The number of slots that hold a value. -/
  live : Nat := 0
  /-- The number of tombstones. -/
  tombstones : Nat := 0

/-- Where a value is, or may be put. -/
inductive Place where
  /-- The value is in this slot. -/
  | found (i : Nat)
  /-- The value is absent, and this slot is free for it. -/
  | vacant (i : Nat)
  /-- The value is absent and no slot is free. -/
  | exhausted
  deriving DecidableEq, Repr

namespace Table

variable {k : Kind} {P : Type}

/-- The table without slots. -/
def empty : Table k P := {}

/-- A table of `slots` empty slots. -/
def ofSlots (slots : Nat) : Table k P := { slots := Array.replicate slots .empty }

/-- The number of slots. -/
def capacity (t : Table k P) : Nat := t.slots.size

/-- The value and payload in a slot. -/
def entry? (t : Table k P) (i : Nat) : Option (Scalar k × P) :=
  match t.slots[i]? with
  | some (.live v p) => some (v, p)
  | _ => none

/-- The slot is a tombstone. -/
def isTombstone (t : Table k P) (i : Nat) : Bool :=
  match t.slots[i]? with
  | some .tombstone => true
  | _ => false

/-! ### Searching -/

/-- Follows a probe sequence for at most `fuel` slots, up to a value with the given key or the first
empty slot. -/
def search (t : Table k P) (key : UInt64) : (fuel : Nat) → Probe → Option Nat
  | 0, _ => none
  | fuel + 1, p =>
    match t.slots[p.pos]? with
    | some (.live v _) => if v.key == key then some p.pos else search t key fuel p.next
    | some .tombstone => search t key fuel p.next
    | _ => none

/-- The slot that holds a value, if any does. -/
def find (t : Table k P) (v : Scalar k) : Option Nat :=
  if t.live = 0 then none else t.search v.key t.capacity (Probe.start v.hash t.capacity)

/-- Follows a probe sequence for at most `fuel` slots, up to a value with the given key or the first
empty slot; `reusable` is the first tombstone seen so far. -/
def searchPlace (t : Table k P) (key : UInt64) : (fuel : Nat) → Probe → Option Nat → Place
  | 0, _, some i => .vacant i
  | 0, _, none => .exhausted
  | fuel + 1, p, reusable =>
    match t.slots[p.pos]? with
    | some (.live v _) =>
      if v.key == key then .found p.pos else searchPlace t key fuel p.next reusable
    | some .tombstone => searchPlace t key fuel p.next (some (reusable.getD p.pos))
    | _ => .vacant (reusable.getD p.pos)

/-- The slot that holds a value, or the one to put it in.  The table must have slots. -/
def locate (t : Table k P) (v : Scalar k) : Place :=
  t.searchPlace v.key t.capacity (Probe.start v.hash t.capacity) none

/-- The first empty slot within `fuel` steps of a probe sequence. -/
def firstEmpty (t : Table k P) : (fuel : Nat) → Probe → Option Nat
  | 0, _ => none
  | fuel + 1, p =>
    match t.slots[p.pos]? with
    | some .empty => some p.pos
    | _ => firstEmpty t fuel p.next

/-! ### Filling and freeing a slot -/

/-- The slots with another one in place `i`. -/
@[noinline] def replaceSlot (slots : Array (Slot k P)) (i : Nat) (s : Slot k P) :
    Array (Slot k P) :=
  slots.setIfInBounds i s

/-- The same table with one slot replaced and its two counters updated. -/
@[inline] def update (t : Table k P) (i : Nat) (s : Slot k P) (live tombstones : Nat) : Table k P :=
  match t with
  | ⟨slots, _, _⟩ => ⟨replaceSlot slots i s, live, tombstones⟩

/-- Puts a value into a free slot. -/
def occupy (t : Table k P) (i : Nat) (v : Scalar k) (p : P) : Table k P :=
  t.update i (.live v p) (t.live + 1) (if t.isTombstone i then t.tombstones - 1 else t.tombstones)

/-- Frees the slot of a value, leaving a tombstone. -/
def vacate (t : Table k P) (i : Nat) : Table k P :=
  t.update i .tombstone (t.live - 1) (t.tombstones + 1)

/-- Replaces the payload beside a value. -/
def setPayload (t : Table k P) (i : Nat) (p : P) : Table k P :=
  match t.slots[i]? with
  | some (.live v _) => t.update i (.live v p) t.live t.tombstones
  | _ => t

/-- Empties every slot, keeping their number. -/
def clear (t : Table k P) : Table k P := ofSlots t.capacity

/-! ### Moving to another number of slots -/

/-- Puts a value that the table does not hold into the first empty slot of its probe sequence. -/
def reinsert (t : Table k P) (v : Scalar k) (p : P) : Table k P :=
  match t.firstEmpty t.capacity (Probe.start v.hash t.capacity) with
  | some i => t.occupy i v p
  | none => t

/-- The values of `t`, taken in slot order, in a table of `slots` slots. -/
def resized (t : Table k P) (slots : Nat) : Table k P :=
  t.slots.foldl (fun acc slot =>
    match slot with
    | .live v p => acc.reinsert v p
    | _ => acc) (ofSlots slots)

/-- Moves the values to a table of `slots` slots, dropping the tombstones.  Whether there is memory
for so many slots is for the caller to see to. -/
def rebuild (t : Table k P) (slots : Nat) : Traced (Table k P) :=
  ⟨t.resized slots, [⟨t.capacity, slots, t.live, t.tombstones⟩]⟩

/-- Taking `additional` empty slots would put the table over its load limit. -/
def overLimit (t : Table k P) (additional : Nat) : Bool :=
  k.load.exceededBy (t.live + t.tombstones + additional) t.capacity

/-- `overLimit` as a machine computes it.  All but the first sum saturates; there is no answer if
that is no word. -/
def overLimitInWords? (t : Table k P) (additional : Nat) : Option Bool := do
  let used ← word? (t.live + t.tombstones)
  return k.load.exceededByWord used additional t.capacity

/-- The number of slots to go on with when one more value does not fit: if the live values alone,
with the new one, fill at most half of the limit, it is the tombstones that have to go. -/
def grownCapacity (t : Table k P) : Nat :=
  if t.capacity * k.load.num < (t.live + 1) * k.load.den * 2 then t.capacity * 2 else t.capacity

/-- `grownCapacity` as a machine computes it, one operation after the other.  There is none if a sum
or a product on the way is no word. -/
def grownCapacityInWords? (t : Table k P) : Option Nat := do
  let values ← word? (t.live + 1)
  let product ← word? (values * k.load.den)
  let twice ← word? (product * 2)
  let limit ← word? (t.capacity * k.load.num)
  if limit < twice then word? (t.capacity * 2) else return t.capacity

/-- Makes room for one more value.  It does not ask for more memory than can be allocated before
`2 ^ 58` slots are in use. -/
def grow (t : Table k P) : Traced (Table k P) := t.rebuild t.grownCapacity

/-- Gives a table without slots its first ones. -/
def allocated (t : Table k P) : Traced (Table k P) :=
  if t.capacity = 0 then t.rebuild minSlots else pure t

/-- Finds a value, or a slot that it may be put into with `occupy`, making room if there is need. -/
def entry (t : Table k P) (v : Scalar k) : Traced (Table k P × Place) := do
  let t ← t.allocated
  match t.locate v with
  | .vacant i =>
    if t.isTombstone i || !t.overLimit 1 then
      return (t, .vacant i)
    else
      let t ← t.grow
      return (t, t.locate v)
  | place => return (t, place)

/-! ### Room asked for in advance -/

/-- An empty table with room for `n` values. -/
def withCapacity [Payload P] (n : Nat) : Except Failure (Table k P) :=
  match slotsFor? n k.load with
  | none => .error (.error (.illegalArgument .capacityOverflow))
  | some slots =>
    if fitsMemory k (Payload.width P) slots then .ok (ofSlots slots)
    else .error (.abort .oversizedAllocation)

/-- Makes room for `additional` more values, so that adding them rebuilds nothing.  A table never
shrinks. -/
def reserve [Payload P] (t : Table k P) (additional : Nat) :
    Except Failure (Traced (Table k P)) :=
  if !t.overLimit additional then .ok (pure t)
  else if maxWord < t.live + additional then .error (.error (.illegalArgument .capacityOverflow))
  else
    match slotsFor? (t.live + additional) k.load with
    | none => .error (.error (.illegalArgument .capacityOverflow))
    | some slots =>
      let slots := max slots t.capacity
      if fitsMemory k (Payload.width P) slots then .ok (t.rebuild slots)
      else .error (.abort .oversizedAllocation)

end Table

end Slotted
