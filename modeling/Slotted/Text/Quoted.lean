import Slotted.Text.Hidden

/-!
# Quoted characters and strings

Text between quotes shows the quote itself and the backslash behind a backslash, the commonest
control characters by a letter, and the other characters that cannot be seen by their number.

## Main definitions

* `Quoted.escape` — one character, between quotes of a given shape.
* `Quoted.char`, `Quoted.string` — a character between single quotes, a string between double ones.
-/

namespace Slotted.Quoted

/-- The digits of a number in base sixteen. -/
def hex (n : Nat) : String := String.ofList (Nat.toDigits 16 n)

/-- A character between quotes of the shape `quote`. -/
def escape (quote c : Char) : String :=
  if c = '\x00' then "\\0"
  else if c = '\t' then "\\t"
  else if c = '\r' then "\\r"
  else if c = '\n' then "\\n"
  else if c = '\\' then "\\\\"
  else if c = quote then "\\" ++ String.singleton c
  else if isHidden c then "\\u\x7b" ++ hex c.toNat ++ "\x7d"
  else String.singleton c

/-- The quote around a character. -/
def singleQuote : Char := '\x27'

/-- The quote around a string. -/
def doubleQuote : Char := '\x22'

/-- A text between two quotes. -/
def between (quote : Char) (s : String) : String :=
  String.singleton quote ++ s ++ String.singleton quote

/-- A character between single quotes. -/
def char (c : Char) : String := between singleQuote (escape singleQuote c)

/-- A string between double quotes. -/
def string (s : String) : String :=
  between doubleQuote (String.join (s.toList.map (escape doubleQuote)))

end Slotted.Quoted
