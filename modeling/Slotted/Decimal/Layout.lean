import Slotted.Decimal.Shortest

/-!
# Writing a decimal down

## Main definitions

* `NumberNotation` — how a number becomes a decimal, and which decimals are written out and which
  with an exponent.
* `NumberNotation.render` — the text of a decimal.

A decimal that is written out always has a point and a digit behind it.  One with an exponent has a
point only if it has more than one digit.
-/

namespace Slotted

/-- A way to write numbers.  A decimal whose leading digit stands for `10 ^ e` is written out if
`outFrom ≤ e < outBelow`. -/
structure NumberNotation where
  /-- Which of two equally near decimals stands for a number. -/
  tie : Tie
  /-- The least exponent of the leading digit that is written out. -/
  outFrom : Int
  /-- The least exponent of the leading digit, above the former, that is not written out. -/
  outBelow : Int
  /-- The sign in front of an exponent that is not negative. -/
  plus : String
  deriving DecidableEq, Repr

/-- A run of `n` zeros. -/
def zeros (n : Nat) : String := String.ofList (List.replicate n '0')

/-- A decimal written out, with a point. -/
def Decimal.writtenOut (d : Decimal) : String :=
  let ds := Nat.toDigits 10 d.digits
  let point := (ds.length : Int) + d.exponent
  if 0 ≤ d.exponent then String.ofList ds ++ zeros d.exponent.toNat ++ ".0"
  else if 0 < point then
    String.ofList (ds.take point.toNat) ++ "." ++ String.ofList (ds.drop point.toNat)
  else "0." ++ zeros (-point).toNat ++ String.ofList ds

/-- A decimal with an exponent, which has the sign `plus` if it is not negative. -/
def Decimal.withExponent (plus : String) (d : Decimal) : String :=
  let ds := Nat.toDigits 10 d.digits
  let exponent := (ds.length : Int) - 1 + d.exponent
  let e := if 0 ≤ exponent then plus ++ toString exponent else toString exponent
  match ds with
  | [] => "0e" ++ e
  | [c] => String.singleton c ++ "e" ++ e
  | c :: rest => String.singleton c ++ "." ++ String.ofList rest ++ "e" ++ e

/-- The text of a decimal. -/
def NumberNotation.render (n : NumberNotation) (d : Decimal) : String :=
  let e := ((Nat.toDigits 10 d.digits).length : Int) - 1 + d.exponent
  if n.outFrom ≤ e ∧ e < n.outBelow then d.writtenOut else d.withExponent n.plus

/-- Numbers in the text of a container are written out from `10 ^ (-4)` to below `10 ^ 16`, and
positive exponents have no sign. -/
def displayNotation : NumberNotation := ⟨.away, -4, 16, ""⟩

/-- Numbers of four bytes in a document are written out from `10 ^ (-6)` to below `10 ^ 13`, and
every exponent has a sign. -/
def documentNotation32 : NumberNotation := ⟨.even, -6, 13, "+"⟩

/-- Numbers of eight bytes in a document are written out from `10 ^ (-5)` to below `10 ^ 16`, and
every exponent has a sign. -/
def documentNotation64 : NumberNotation := ⟨.even, -5, 16, "+"⟩

end Slotted
