/-!
# Scalar kinds and their table loads

The containers of this library hold one *kind* of fixed-width scalar each.  A kind fixes how many
bytes a value takes, which tag names it in the binary encoding, and how full a table of such values
may get.

## Main definitions

* `Kind` — the eleven kinds: signed and unsigned integers, two float formats, and characters.
* `Kind.tag`, `Kind.width`, `Kind.load` — the constants of a kind.
* `Load` — a bound on the share of used slots, as a fraction.

One-byte kinds have at most 256 values, so their tables may run fuller than the others.
-/

namespace Slotted

/-- A kind of scalar: what one container holds values of. -/
inductive Kind where
  /-- Signed integers of one byte. -/
  | i8
  /-- Unsigned integers of one byte. -/
  | u8
  /-- Signed integers of two bytes. -/
  | i16
  /-- Unsigned integers of two bytes. -/
  | u16
  /-- Signed integers of four bytes. -/
  | i32
  /-- Unsigned integers of four bytes. -/
  | u32
  /-- Signed integers of eight bytes. -/
  | i64
  /-- Unsigned integers of eight bytes. -/
  | u64
  /-- Binary floats of four bytes. -/
  | f32
  /-- Binary floats of eight bytes. -/
  | f64
  /-- Unicode scalar values, stored in four bytes. -/
  | char
  deriving DecidableEq, Repr

/-- A bound `num / den` on the share of a table's slots that may be in use. -/
structure Load where
  /-- The numerator. -/
  num : Nat
  /-- The denominator. -/
  den : Nat
  deriving DecidableEq, Repr

namespace Kind

/-- The short name of a kind. -/
def name : Kind → String
  | i8 => "i8"
  | u8 => "u8"
  | i16 => "i16"
  | u16 => "u16"
  | i32 => "i32"
  | u32 => "u32"
  | i64 => "i64"
  | u64 => "u64"
  | f32 => "f32"
  | f64 => "f64"
  | char => "char"

/-- Every kind, in the order of the tags. -/
def all : List Kind := [i8, u8, i16, u16, i32, u32, i64, u64, f32, f64, char]

/-- The kind with a given short name. -/
def ofName? (s : String) : Option Kind := all.find? (·.name == s)

/-- The byte that names the kind at the head of a binary encoding. -/
def tag : Kind → Nat
  | i8 => 1
  | u8 => 2
  | i16 => 3
  | u16 => 4
  | i32 => 5
  | u32 => 6
  | i64 => 7
  | u64 => 8
  | f32 => 9
  | f64 => 10
  | char => 11

/-- The number of bytes a value takes, in memory and in the binary encoding. -/
def width : Kind → Nat
  | i8 | u8 => 1
  | i16 | u16 => 2
  | i32 | u32 | f32 | char => 4
  | i64 | u64 | f64 => 8

/-- How full a table of this kind may get. -/
def load : Kind → Load
  | i8 | u8 => ⟨3, 4⟩
  | _ => ⟨1, 2⟩

/-- The kinds whose values are integers with a sign. -/
def isSigned : Kind → Bool
  | i8 | i16 | i32 | i64 => true
  | _ => false

/-- The kinds whose values are floats. -/
def isFloat : Kind → Bool
  | f32 | f64 => true
  | _ => false

theorem mem_all (k : Kind) : k ∈ all := by cases k <;> decide

theorem width_pos (k : Kind) : 0 < k.width := by cases k <;> decide

theorem width_le (k : Kind) : k.width ≤ 8 := by cases k <;> decide

/-- The load bound leaves room: it is a proper, nonzero fraction. -/
theorem load_num_pos (k : Kind) : 0 < k.load.num := by cases k <;> decide

theorem load_num_lt_den (k : Kind) : k.load.num < k.load.den := by cases k <;> decide

theorem load_den_pos (k : Kind) : 0 < k.load.den := Nat.lt_trans k.load_num_pos k.load_num_lt_den

/-- Only tables of one-byte kinds may be more than half full. -/
theorem narrow_or_wide (k : Kind) :
    (k.width = 1 ∧ k.load = ⟨3, 4⟩) ∨ (2 ≤ k.width ∧ k.load = ⟨1, 2⟩) := by
  cases k <;> decide

end Kind

end Slotted
