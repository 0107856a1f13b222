import Slotted.Decimal.Binary
import Slotted.Scalar

/-!
# Numerals of a document

A numeral is an optional sign, digits without a superfluous zero in front, and optionally a point
with digits behind it and an exponent.  One without point and exponent stands for an integer if a
machine word can hold it, signed or unsigned; any other stands for a float.  So does `-0`, since
only floats have a zero with a sign.

Of the two rules for reading floats that are in use this is the exact one: a numeral is rounded
correctly, to the nearest float, and to the even one of two that are equally near.  The other rule
multiplies the digits by a power of ten in floating-point arithmetic, which takes less time and may
miss the nearest float by a unit in the last place.  It is not modelled, and nothing that is proved
of floats in documents is about it.

There are two provisos.  A negative integer that only its sign keeps from being a machine word is
rounded to eight bytes first.  And of more digits than decide the rounding those left out count as
something, even if they are all zeros; zeros that end the digits behind the point are no digits in
this respect.

## Main definitions

* `Numeral` — a numeral: sign, digits, power of ten.
* `Numeral.read?` — takes a numeral off the front of a text.
* `Numeral.toInt?`, `Numeral.toFloat?` — the integer, or the nearest float.
* `Numeral.abridged` — the decimal that a numeral of many digits is read as.
-/

namespace Slotted.Json

/-- A numeral of a document. -/
structure Numeral where
  /-- There is a sign. -/
  negative : Bool
  /-- All digits before the exponent, as one number. -/
  digits : Nat
  /-- The power of ten that the last of these digits counts. -/
  exponent : Int
  /-- There is neither a point nor an exponent. -/
  integral : Bool
  /-- How many zeros the digits behind the point end in. -/
  zeros : Nat
  deriving DecidableEq, Repr

/-- The number of some decimal digits. -/
def ofDigits (ds : List Char) : Nat := ds.foldl (fun n c => 10 * n + (c.toNat - '0'.toNat)) 0

/-- The digits at the front of a text, and what follows them. -/
def takeDigits (cs : List Char) : List Char × List Char :=
  (cs.takeWhile Char.isDigit, cs.dropWhile Char.isDigit)

/-- The digits at the front of a text, at least one, and what follows them. -/
def takeSomeDigits? (cs : List Char) : Option (List Char × List Char) :=
  match takeDigits cs with
  | ([], _) => none
  | ds => some ds

/-- The digits before the point: more than one only if the first is not zero. -/
def takeWhole? (cs : List Char) : Option (List Char × List Char) :=
  match takeDigits cs with
  | ([], _) => none
  | ('0' :: _ :: _, _) => none
  | ds => some ds

/-- The digits behind the point, none if there is no point. -/
def takeFraction? (cs : List Char) : Option (List Char × List Char) :=
  match cs with
  | '.' :: rest => takeSomeDigits? rest
  | _ => some ([], cs)

/-- The exponent, if there is one. -/
def takeExponent? (cs : List Char) : Option (Option Int × List Char) :=
  let signed (negative : Bool) (cs : List Char) :=
    (takeSomeDigits? cs).map fun (ds, rest) =>
      (some (if negative then -(ofDigits ds : Int) else ofDigits ds), rest)
  let power (cs : List Char) :=
    match cs with
    | '-' :: rest => signed true rest
    | '+' :: rest => signed false rest
    | _ => signed false cs
  match cs with
  | 'e' :: rest => power rest
  | 'E' :: rest => power rest
  | _ => some (none, cs)

namespace Numeral

/-- Takes a numeral without its sign off the front of a text. -/
def readUnsigned? (negative : Bool) (cs : List Char) : Option (Numeral × List Char) := do
  let (whole, cs) ← takeWhole? cs
  let (fraction, cs) ← takeFraction? cs
  let (power, cs) ← takeExponent? cs
  return ({ negative
            digits := ofDigits (whole ++ fraction)
            exponent := power.getD 0 - fraction.length
            integral := fraction.isEmpty && power.isNone
            zeros := (fraction.reverse.takeWhile (· == '0')).length }, cs)

/-- Takes a numeral off the front of a text. -/
def read? (cs : List Char) : Option (Numeral × List Char) :=
  match cs with
  | '-' :: rest => readUnsigned? true rest
  | _ => readUnsigned? false cs

/-- The integer that a numeral stands for, if it stands for one. -/
def toInt? (n : Numeral) : Option Int :=
  if !n.integral then none
  else if n.negative then
    if 0 < n.digits ∧ n.digits ≤ 0x8000000000000000 then some (-(n.digits : Int)) else none
  else if n.digits ≤ 0xffffffffffffffff then some n.digits
  else none

/-- The decimal that a numeral is read as if `limit` digits are read one by one.  If there are more,
a single one stands for all the others. -/
def abridged (n : Numeral) (limit : Nat) : Nat × Int :=
  if (Nat.toDigits 10 n.digits).length ≤ limit then (n.digits, n.exponent)
  else
    let digits := n.digits / Nat.pow 10 n.zeros
    let exponent := n.exponent + n.zeros
    let others := (Nat.toDigits 10 digits).length - limit
    if others = 0 then (digits, exponent)
    else (digits / Nat.pow 10 others * 10 + 1, exponent + others - 1)

/-- The numeral is a negative integer, and its digits are a machine word, but it is none. -/
def isNegatedWord (n : Numeral) : Bool :=
  n.integral && n.negative && 0x8000000000000000 < n.digits &&
    n.digits ≤ 0xffffffffffffffff

/-- The pattern of the nonnegative number of a format nearest to the digits of a numeral, unless
that is too large. -/
def magnitude? (n : Numeral) (f : BinaryFormat) : Option Nat :=
  if n.isNegatedWord then some (binary64.convert f (binary64.nearest n.digits 1))
  else
    let (digits, exponent) := n.abridged f.digitLimit
    f.ofDecimal digits exponent

/-- The value of a float kind that a numeral is correctly rounded to, unless that is too large. -/
def toFloat? (n : Numeral) (k : Kind) (f : BinaryFormat) : Option (Scalar k) := do
  let magnitude ← n.magnitude? f
  let sign := if n.negative then (Scalar.signWeight k).toNat else 0
  Scalar.ofBits? k (UInt64.ofNat (sign + magnitude))

end Numeral

end Slotted.Json
