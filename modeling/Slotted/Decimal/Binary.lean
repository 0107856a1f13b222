/-!
# Binary floating-point formats

A format keeps a number as `m * 2 ^ q` with a significand of limited width.  The bit pattern of a
nonnegative number counts the numbers of the format upwards from zero, so neighbouring numbers have
neighbouring patterns, and the pattern after the greatest number is that of infinity.

## Main definitions

* `BinaryFormat` — a format, with `binary32` and `binary64`.
* `BinaryFormat.decode`, `BinaryFormat.encode` — between patterns and `m * 2 ^ q`.
* `BinaryFormat.nearest` — the pattern of the number nearest to a fraction.
* `BinaryFormat.convert` — the pattern of the nearest number in another format.
* `BinaryFormat.ofDecimal` — the pattern of the number nearest to a decimal.
-/

namespace Slotted

/-- A binary floating-point format. -/
structure BinaryFormat where
  /-- The bits of a significand, the leading one included. -/
  precision : Nat
  /-- The exponent of the least positive number is `-denominator`. -/
  denominator : Nat
  /-- The pattern of positive infinity. -/
  infinity : Nat
  /-- How many digits of a decimal are read one by one.  No decimal halfway between two neighbours
  needs so many. -/
  digitLimit : Nat
  deriving DecidableEq, Repr

/-- The format of four bytes. -/
def binary32 : BinaryFormat := ⟨24, 149, 0x7f800000, 113⟩

/-- The format of eight bytes. -/
def binary64 : BinaryFormat := ⟨53, 1074, 0x7ff0000000000000, 768⟩

/-- The quotient `num / den`, rounded to the nearest integer, and to an even one on a tie. -/
def roundHalfEven (num den : Nat) : Nat :=
  let q := num / den
  let r := num % den
  if 2 * r < den then q
  else if den < 2 * r then q + 1
  else if q % 2 = 0 then q else q + 1

namespace BinaryFormat

/-- The significand and exponent of a nonnegative finite number, given its pattern. -/
def decode (f : BinaryFormat) (bits : Nat) : Nat × Int :=
  let unit := Nat.pow 2 (f.precision - 1)
  let exponent := bits / unit
  let fraction := bits % unit
  if exponent = 0 then (fraction, -(f.denominator : Int))
  else (unit + fraction, (exponent : Int) - 1 - f.denominator)

/-- The pattern of `m * 2 ^ (e - denominator)`: a significand that has reached twice its unit
carries into the exponent by itself. -/
def encode (f : BinaryFormat) (m e : Nat) : Nat := e * Nat.pow 2 (f.precision - 1) + m

/-- The distance to the number below is half that to the number above, which is so at the powers of
two that start a new exponent. -/
def narrowBelow (f : BinaryFormat) (bits : Nat) : Bool :=
  let unit := Nat.pow 2 (f.precision - 1)
  bits % unit == 0 && 1 < bits / unit

/-- The pattern of the number nearest to `num / den`, with ties to an even significand.  A fraction
too large for the format gets the pattern of infinity or one above it. -/
def nearest (f : BinaryFormat) (num den : Nat) : Nat :=
  if num = 0 then 0
  else
    -- The exponent of the leading bit of the fraction, as a difference of naturals.
    let estimate : Int := (Nat.log2 num : Int) - Nat.log2 den
    let below := num * Nat.pow 2 (-estimate).toNat < den * Nat.pow 2 estimate.toNat
    let leading := if below then estimate - 1 else estimate
    let e := (leading - (f.precision - 1) + f.denominator).toNat
    let q : Int := e - f.denominator
    f.encode (roundHalfEven (num * Nat.pow 2 (-q).toNat) (den * Nat.pow 2 q.toNat)) e

/-- The pattern in the format `g` of the number nearest to that with the given pattern in `f`. -/
def convert (f g : BinaryFormat) (bits : Nat) : Nat :=
  let (m, q) := f.decode bits
  g.nearest (m * Nat.pow 2 q.toNat) (Nat.pow 2 (-q).toNat)

/-- Decimal exponents of the leading digit from here on are beyond every format, both ways. -/
def decimalReach : Int := 400

/-- The pattern of the number nearest to `digits * 10 ^ exponent`, or none if that is too large. -/
def ofDecimal (f : BinaryFormat) (digits : Nat) (exponent : Int) : Option Nat :=
  let leading := (Nat.toDigits 10 digits).length + exponent
  if digits = 0 ∨ leading < -decimalReach then some 0
  else if decimalReach < leading then none
  else
    let bits := f.nearest (digits * Nat.pow 10 exponent.toNat) (Nat.pow 10 (-exponent).toNat)
    if bits < f.infinity then some bits else none

end BinaryFormat

end Slotted
