/-!
# String literals of a document

A string literal stands between double quotes.  Quotes, backslashes and control characters are
escaped in it; every other character may stand for itself.  An escape by number names a unit of
sixteen bits, so a character beyond those takes two, the one in the upper half of the surrogates
after the one in the lower half; a surrogate on its own is no character.

## Main definitions

* `Literal.write` — the literal of a string; it escapes nothing that may stand for itself.
* `Literal.read?` — takes a literal, its opening quote aside, off the front of a text.
-/

namespace Slotted.Json.Literal

/-- The quote around a literal. -/
def quote : Char := '\x22'

/-- What starts an escape. -/
def backslash : Char := '\\'

/-- The digit of a number below sixteen. -/
def hexDigit (n : Nat) : Char := Nat.digitChar n

/-- A character of a literal. -/
def writeChar (c : Char) : List Char :=
  if c = quote then [backslash, quote]
  else if c = backslash then [backslash, backslash]
  else if c = '\x08' then [backslash, 'b']
  else if c = '\x0c' then [backslash, 'f']
  else if c = '\n' then [backslash, 'n']
  else if c = '\r' then [backslash, 'r']
  else if c = '\t' then [backslash, 't']
  else if c < ' ' then
    [backslash, 'u', '0', '0', hexDigit (c.toNat / 16), hexDigit (c.toNat % 16)]
  else [c]

/-- The literal of a string. -/
def write (cs : List Char) : List Char := quote :: (cs.flatMap writeChar ++ [quote])

/-- The number of a hexadecimal digit. -/
def hexValue? (c : Char) : Option Nat :=
  if '0' ≤ c ∧ c ≤ '9' then some (c.toNat - '0'.toNat)
  else if 'a' ≤ c ∧ c ≤ 'f' then some (c.toNat - 'a'.toNat + 10)
  else if 'A' ≤ c ∧ c ≤ 'F' then some (c.toNat - 'A'.toNat + 10)
  else none

/-- The unit named by four hexadecimal digits, and what follows them. -/
def readUnit? : List Char → Option (Nat × List Char)
  | a :: b :: c :: d :: rest => do
    let a ← hexValue? a
    let b ← hexValue? b
    let c ← hexValue? c
    let d ← hexValue? d
    return (((a * 16 + b) * 16 + c) * 16 + d, rest)
  | _ => none

/-- The unit named by an escape, and what follows it. -/
def readEscapedUnit? : List Char → Option (Nat × List Char)
  | '\\' :: 'u' :: rest => readUnit? rest
  | _ => none

/-- The character that an escape by number names, given what follows its first two characters. -/
def readNumbered? (cs : List Char) : Option (Char × List Char) := do
  let (unit, rest) ← readUnit? cs
  if unit < 0xd800 ∨ 0xe000 ≤ unit then return (Char.ofNat unit, rest)
  else if unit < 0xdc00 then
    let (low, rest) ← readEscapedUnit? rest
    if 0xdc00 ≤ low ∧ low < 0xe000 then
      return (Char.ofNat (0x10000 + (unit - 0xd800) * 0x400 + (low - 0xdc00)), rest)
    else none
  else none

/-- The character that an escape names, given what follows its backslash. -/
def readEscape? : List Char → Option (Char × List Char)
  | 'b' :: rest => some ('\x08', rest)
  | 'f' :: rest => some ('\x0c', rest)
  | 'n' :: rest => some ('\n', rest)
  | 'r' :: rest => some ('\r', rest)
  | 't' :: rest => some ('\t', rest)
  | 'u' :: rest => readNumbered? rest
  | c :: rest => if c = quote ∨ c = backslash ∨ c = '/' then some (c, rest) else none
  | [] => none

/-- The string of a literal and what follows the closing quote; `fuel` bounds the characters. -/
def readFrom? : (fuel : Nat) → List Char → Option (List Char × List Char)
  | fuel + 1, c :: rest =>
    if c = quote then some ([], rest)
    else if c = backslash then do
      let (d, rest) ← readEscape? rest
      let (ds, rest) ← readFrom? fuel rest
      return (d :: ds, rest)
    else if c < ' ' then none
    else do
      let (ds, rest) ← readFrom? fuel rest
      return (c :: ds, rest)
  | _, _ => none

/-- The string of a literal, given what follows its opening quote, and what follows the literal. -/
def read? (cs : List Char) : Option (List Char × List Char) := readFrom? cs.length cs

end Slotted.Json.Literal
