import Slotted.Json.Literal
import Slotted.Json.Numeral
import Slotted.Text.Display

/-!
# Tokens of a document, and what may be wrong with it

A reader looks at the next token and compares it with what it expects there.  A document is at fault
at the first place, from left to right, where it is no document at all or does not hold what is
expected.

## Main definitions

* `Token`, `Token.read?` — a scalar, or the opening of a list or a map.
* `Found`, `Expected` — the two sides of a mismatch.
* `Fault`, `Fault.message` — what is wrong with a document.
-/

namespace Slotted.Json

/-- What a value of a document begins with: all of it, unless it is a list or a map. -/
inductive Token where
  /-- The word `null`. -/
  | null
  /-- A truth value. -/
  | boolean (b : Bool)
  /-- A numeral. -/
  | number (n : Numeral)
  /-- A string literal. -/
  | string (cs : List Char)
  /-- The opening bracket of a list. -/
  | openList
  /-- The opening brace of a map. -/
  | openMap
  deriving DecidableEq, Repr

/-- The characters that may stand between tokens. -/
def isBlank (c : Char) : Bool := c == ' ' || c == '\n' || c == '\t' || c == '\r'

/-- The text from the next token on. -/
def skipBlanks (cs : List Char) : List Char := cs.dropWhile isBlank

/-- Takes a token off the front of a text. -/
def Token.read? (cs : List Char) : Option (Token × List Char) :=
  match skipBlanks cs with
  | 'n' :: 'u' :: 'l' :: 'l' :: rest => some (.null, rest)
  | 't' :: 'r' :: 'u' :: 'e' :: rest => some (.boolean true, rest)
  | 'f' :: 'a' :: 'l' :: 's' :: 'e' :: rest => some (.boolean false, rest)
  | '[' :: rest => some (.openList, rest)
  | '\x7b' :: rest => some (.openMap, rest)
  | '\x22' :: rest => (Literal.read? rest).map fun (s, rest) => (.string s, rest)
  | cs => (Numeral.read? cs).map fun (n, rest) => (.number n, rest)

/-- What a document has in a place where something else is expected. -/
inductive Found where
  /-- The word `null`. -/
  | null
  /-- A truth value. -/
  | boolean (b : Bool)
  /-- A numeral that stands for an integer. -/
  | integer (n : Int)
  /-- A numeral that stands for a float. -/
  | float (v : Scalar .f64)
  /-- A string. -/
  | string (cs : List Char)
  /-- A list. -/
  | list
  /-- A map. -/
  | map
  deriving DecidableEq

/-- What a document has in the place of a token.  A numeral too large for a float stands for
nothing. -/
def Token.found? : Token → Option Found
  | null => some .null
  | boolean b => some (.boolean b)
  | number n =>
    match n.toInt? with
    | some i => some (.integer i)
    | none => (n.toFloat? .f64 binary64).map .float
  | string cs => some (.string cs)
  | openList => some .list
  | openMap => some .map

/-- What is expected in a place of a document. -/
inductive Expected where
  /-- A number of a kind. -/
  | number (k : Kind)
  /-- A string of one character. -/
  | character
  /-- A truth value. -/
  | boolean
  /-- A string. -/
  | string
  /-- A number of occurrences. -/
  | count
  /-- A value and its number of occurrences. -/
  | pair
  /-- A whole set. -/
  | set
  /-- A whole bag. -/
  | bag
  deriving DecidableEq, Repr

/-- What is wrong with a document. -/
inductive Fault where
  /-- It is no document, or it goes on where it should end. -/
  | notJson
  /-- There is something else than expected. -/
  | wrongType (found : Found) (expected : Expected)
  /-- There is the right sort of thing, but not one of those expected. -/
  | wrongValue (found : Found) (expected : Expected)
  /-- There is a list of another length where a pair is expected. -/
  | wrongLength (n : Nat)
  /-- The counts so far are together more than a machine word. -/
  | countOverflow
  deriving DecidableEq

/-- The fault of a token that is not what is expected. -/
def Token.mismatch (t : Token) (expected : Expected) : Fault :=
  match t.found? with
  | some found => .wrongType found expected
  | none => .notJson

/-- The fault of a token of the right sort that is not one of those expected. -/
def Token.misfit (t : Token) (expected : Expected) : Fault :=
  match t.found? with
  | some found => .wrongValue found expected
  | none => .notJson

/-! ### Texts -/

/-- A text between backquotes. -/
def backquoted (s : String) : String := "`" ++ s ++ "`"

/-- The description of what is found. -/
def Found.text : Found → String
  | null => "null"
  | boolean b => "boolean " ++ backquoted (boolText b)
  | integer n => "integer " ++ backquoted (toString n)
  | float v => "floating point " ++ backquoted (v.finiteText binary64 documentNotation64)
  | string cs => "string " ++ Quoted.string (String.ofList cs)
  | list => "sequence"
  | map => "map"

/-- The description of what is expected. -/
def Expected.text : Expected → String
  | number k => k.name
  | character => "a character"
  | boolean => "a boolean"
  | string => "a string"
  | count => "usize"
  | pair => "a tuple of size 2"
  | set => "a set"
  | bag => "a sequence of [value, count] pairs"

/-- The text of a fault.  A text that is no document gets none. -/
def Fault.message? : Fault → Option String
  | notJson => none
  | wrongType found expected =>
    some ("invalid type: " ++ found.text ++ ", expected " ++ expected.text)
  | wrongValue found expected =>
    some ("invalid value: " ++ found.text ++ ", expected " ++ expected.text)
  | wrongLength n => some (s!"invalid length {n}, expected " ++ Expected.pair.text)
  | countOverflow => some (Error.malformedInput .countOverflow).message

end Slotted.Json
