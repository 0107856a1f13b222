import Slotted.Decimal.Binary

/-!
# The shortest decimal that reads back

The real numbers that round to a given number of a binary format form an interval.  Its ends are
halfway to the neighbours, and belong to it exactly when the significand is even.  The shortest
decimal of a number is the decimal with the fewest digits in that interval, and of two with equally
many digits the nearer one.  Which of two equally near ones it is depends on who reads it: `Tie`.

The search goes through the grids of one, two, … digits.  If any point of a grid lies in the
interval, one of the number's two neighbours on that grid does, so only these are tried.

## Main definitions

* `Decimal` — a decimal `digits * 10 ^ exponent`.
* `Tie` — which of two equally near decimals is taken.
* `Rounding` — a number and its interval, as integers over one denominator.
* `BinaryFormat.shortest` — the shortest decimal of a number.
-/

namespace Slotted

/-- The number `digits * 10 ^ exponent`. -/
structure Decimal where
  /-- The digits, as a number. -/
  digits : Nat
  /-- The power of ten. -/
  exponent : Int
  deriving DecidableEq, Repr

/-- Which of two equally near decimals is taken. -/
inductive Tie where
  /-- The one farther from zero. -/
  | away
  /-- The one whose last digit is even. -/
  | even
  deriving DecidableEq, Repr

/-- The one that is taken of `d` and `d + 1`. -/
def Tie.pick (tie : Tie) (d : Nat) : Nat :=
  match tie with
  | .away => d + 1
  | .even => if d % 2 = 0 then d else d + 1

/-- A number on a decimal grid: `value / unit` is the number, and the reals between `low / unit` and
`high / unit` round to it. -/
structure Rounding where
  /-- The number, in units. -/
  value : Nat
  /-- The lower end, in units. -/
  low : Nat
  /-- The upper end, in units. -/
  high : Nat
  /-- How many units a step of the grid has. -/
  unit : Nat
  /-- The ends round to the number, too. -/
  closed : Bool

/-- The grid point `d` rounds to the number. -/
def Rounding.readsBack (r : Rounding) (d : Nat) : Bool :=
  if r.closed then r.low ≤ d * r.unit && d * r.unit ≤ r.high
  else r.low < d * r.unit && d * r.unit < r.high

/-- The nearer to the number of the grid points `d` and `d + 1` around it. -/
def Rounding.nearer (r : Rounding) (tie : Tie) (d : Nat) : Nat :=
  let middle := (2 * d + 1) * r.unit
  if 2 * r.value < middle then d else if middle < 2 * r.value then d + 1 else tie.pick d

/-- The point of the grid that rounds to the number: of the two neighbours the one that does, or the
nearer if both do. -/
def Rounding.gridPoint? (r : Rounding) (tie : Tie) : Option Nat :=
  let below := r.value / r.unit
  match r.readsBack below, r.readsBack (below + 1) with
  | true, true => some (r.nearer tie below)
  | true, false => some below
  | false, true => some (below + 1)
  | false, false => none

namespace BinaryFormat

/-- The number with the given pattern on the grid of the multiples of `10 ^ j`. -/
def onGrid (f : BinaryFormat) (bits : Nat) (j : Int) : Rounding :=
  let (m, q) := f.decode bits
  let scale := Nat.pow 2 q.toNat * Nat.pow 10 (-j).toNat
  { value := 4 * m * scale
    low := (4 * m - if f.narrowBelow bits then 1 else 2) * scale
    high := (4 * m + 2) * scale
    unit := 4 * Nat.pow 2 (-q).toNat * Nat.pow 10 j.toNat
    closed := m % 2 == 0 }

/-- The least `k` with the number below `10 ^ k`, for a number that is not zero. -/
def scale (f : BinaryFormat) (bits : Nat) : Int :=
  let (m, q) := f.decode bits
  let whole := m * Nat.pow 2 q.toNat / Nat.pow 2 (-q).toNat
  if 0 < whole then (Nat.toDigits 10 whole).length
  else 1 - ((Nat.toDigits 10 ((Nat.pow 2 (-q).toNat - 1) / m)).length : Int)

/-- Tries the grids of `n`, `n + 1`, … digits, `fuel` of them. -/
def shortestFrom (f : BinaryFormat) (tie : Tie) (bits : Nat) (k : Int) :
    (fuel n : Nat) → Option Decimal
  | 0, _ => none
  | fuel + 1, n =>
    match (f.onGrid bits (k - n)).gridPoint? tie with
    | some d => some ⟨d, k - n⟩
    | none => shortestFrom f tie bits k fuel (n + 1)

/-- The number with the given pattern, exactly. -/
def exactDecimal (f : BinaryFormat) (bits : Nat) : Decimal :=
  let (m, q) := f.decode bits
  ⟨m * Nat.pow 2 q.toNat * Nat.pow 5 (-q).toNat, -(-q).toNat⟩

/-- Moves the trailing zeros of the digits into the exponent; `fuel` bounds their number. -/
def stripZeros : (fuel : Nat) → Decimal → Decimal
  | 0, d => d
  | fuel + 1, d =>
    if d.digits % 10 = 0 ∧ d.digits ≠ 0 then stripZeros fuel ⟨d.digits / 10, d.exponent + 1⟩ else d

/-- The shortest decimal of the nonnegative finite number with the given pattern. -/
def shortest (f : BinaryFormat) (tie : Tie) (bits : Nat) : Decimal :=
  if bits = 0 then ⟨0, 0⟩
  else
    let d := (f.shortestFrom tie bits (f.scale bits) 17 1).getD (f.exactDecimal bits)
    stripZeros (Nat.toDigits 10 d.digits).length d

end BinaryFormat

end Slotted
