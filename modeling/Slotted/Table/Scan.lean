import Slotted.Table.Basic

/-!
# Going through a table in slot order

Every traversal of a container visits the live slots of its table from the first to the last: whole,
over a range of slots, one at a time, or with the freedom to free the slot it stands on.

## Main definitions

* `Entry`, `Table.scan`, `Table.entries` — the live slots of a range, and of the whole table.
* `Table.nextLive` — the first live slot from a position on.
* `Walker` — a walk that remembers the slot it stands on until that is freed.
* `Table.filterM` — frees, in slot order, every slot whose value a predicate rejects; the predicate
  may have effects, so that it shows when and how often it is asked.
-/

namespace Slotted

/-- A live slot: its index, its value and its payload. -/
structure Entry (k : Kind) (P : Type) where
  /-- The index of the slot. -/
  slot : Nat
  /-- The value. -/
  value : Scalar k
  /-- The payload. -/
  payload : P

namespace Table

variable {k : Kind} {P : Type}

/-- The live slots among the `n` slots from `start` on, in front of `rest`. -/
def scanOnto (t : Table k P) (start : Nat) : (n : Nat) → List (Entry k P) → List (Entry k P)
  | 0, rest => rest
  | n + 1, rest =>
    match t.slots[start + n]? with
    | some (.live v p) => scanOnto t start n (⟨start + n, v, p⟩ :: rest)
    | _ => scanOnto t start n rest

/-- The live slots with `start ≤ index < stop`, in slot order. -/
def scan (t : Table k P) (start stop : Nat) : List (Entry k P) := t.scanOnto start (stop - start) []

/-- Every live slot, in slot order. -/
def entries (t : Table k P) : List (Entry k P) := t.scan 0 t.capacity

/-- The first live slot among the `fuel` slots from `i` on. -/
def nextLiveFrom (t : Table k P) : (fuel : Nat) → (i : Nat) → Option (Entry k P)
  | 0, _ => none
  | fuel + 1, i =>
    match t.slots[i]? with
    | some (.live v p) => some ⟨i, v, p⟩
    | _ => nextLiveFrom t fuel (i + 1)

/-- The first live slot from `i` on. -/
def nextLive (t : Table k P) (i : Nat) : Option (Entry k P) := t.nextLiveFrom (t.capacity - i) i

/-- Visits the `fuel` slots from `i` on and frees those whose value and payload `keep` rejects.
`freed` folds the payloads of the freed slots into an account. -/
@[specialize] def filterFromM {m : Type → Type} [Monad m] {σ : Type} (freed : σ → P → σ)
    (keep : Scalar k → P → m Bool) : (fuel : Nat) → (i : Nat) → Table k P → σ → m (Table k P × σ)
  | 0, _, t, account => pure (t, account)
  | fuel + 1, i, t, account =>
    match t.entry? i with
    | some (v, p) => do
      if ← keep v p then filterFromM freed keep fuel (i + 1) t account
      else filterFromM freed keep fuel (i + 1) (t.vacate i) (freed account p)
    | none => filterFromM freed keep fuel (i + 1) t account

/-- Frees, in slot order, every slot whose value and payload `keep` rejects. -/
@[inline] def filterM {m : Type → Type} [Monad m] {σ : Type} (t : Table k P) (freed : σ → P → σ)
    (keep : Scalar k → P → m Bool) (account : σ) : m (Table k P × σ) :=
  filterFromM freed keep t.capacity 0 t account

end Table

/-- A walk over the live slots of a table.  Freeing the slot that the walk stands on moves no other
value, so the walk can go on after it. -/
structure Walker where
  /-- The first slot not yet seen. -/
  next : Nat := 0
  /-- The slot the walk stands on, unless it was freed. -/
  current : Option Nat := none
  deriving DecidableEq, Repr

namespace Walker

variable {k : Kind} {P : Type}

/-- Moves to the next live slot; past the last one the walk stands nowhere. -/
def advance (w : Walker) (t : Table k P) : Option (Entry k P) × Walker :=
  match t.nextLive w.next with
  | some e => (some e, ⟨e.slot + 1, some e.slot⟩)
  | none => (none, ⟨t.capacity, none⟩)

/-- Forgets the slot the walk stands on, after it was freed. -/
def release (w : Walker) : Walker := { w with current := none }

end Walker

end Slotted
