import Slotted.Table.Sizing

/-!
# Triangular probing

A value's home slot is given by the low bits of its hash.  From there a search visits the slots at
distances 0, 1, 3, 6, …, the triangular numbers, modulo the length of the table.  When the length is
a power of two these are all the slots, each once, so a search that has made as many steps as there
are slots has seen the whole table.

## Main definitions

* `Probe` — a position on a probe sequence; `Probe.start` is the home slot, `Probe.next` moves on.
* `Probe.nextInWords?` — the same move in the arithmetic of machine words.
* `Probe.position` — the closed form: the slot at a given step.
-/

namespace Slotted

/-- A position on a probe sequence. -/
structure Probe where
  /-- The slot. -/
  pos : Nat
  /-- How many moves led here. -/
  step : Nat
  /-- One less than the length of the table. -/
  mask : Nat
  deriving DecidableEq, Repr

namespace Probe

/-- The home slot of a hash in a table of `len` slots. -/
def start (hash : UInt64) (len : Nat) : Probe := ⟨hash.toNat &&& (len - 1), 0, len - 1⟩

/-- The next slot: each move is one longer than the move before. -/
def next (p : Probe) : Probe := ⟨(p.pos + (p.step + 1)) &&& p.mask, p.step + 1, p.mask⟩

/-- The next slot as a machine computes it, one operation after the other.  There is none if a sum
on the way is no word. -/
def nextInWords? (p : Probe) : Option Probe := do
  let step ← word? (p.step + 1)
  let sum ← word? (p.pos + step)
  return ⟨sum &&& p.mask, step, p.mask⟩

/-- The position after `n` moves. -/
def iterate (p : Probe) : Nat → Probe
  | 0 => p
  | n + 1 => (p.iterate n).next

/-- The slot at step `n` of the sequence of `hash` in a table of `len` slots. -/
def position (hash : UInt64) (len n : Nat) : Nat := (hash.toNat + n * (n + 1) / 2) % len

@[simp] theorem mask_start (hash : UInt64) (len : Nat) : (start hash len).mask = len - 1 := rfl

@[simp] theorem step_start (hash : UInt64) (len : Nat) : (start hash len).step = 0 := rfl

@[simp] theorem mask_next (p : Probe) : p.next.mask = p.mask := rfl

@[simp] theorem step_next (p : Probe) : p.next.step = p.step + 1 := rfl

@[simp] theorem iterate_zero (p : Probe) : p.iterate 0 = p := rfl

theorem iterate_succ (p : Probe) (n : Nat) : p.iterate (n + 1) = (p.iterate n).next := rfl

theorem pos_start_le (hash : UInt64) (len : Nat) : (start hash len).pos ≤ len - 1 :=
  Nat.and_le_right

theorem pos_next_le (p : Probe) : p.next.pos ≤ p.mask := Nat.and_le_right

end Probe

end Slotted
