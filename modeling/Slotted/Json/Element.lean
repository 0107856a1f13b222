import Slotted.Json.Token

/-!
# Elements of a document

Numbers are numerals; a float that is no number, or infinite, has none and is written `null`.
A character is a string of one character.

## Main definitions

* `Element` — a type whose values are written to documents and read back.
* `readCount` — reads a number of occurrences.
-/

namespace Slotted.Json

/-- A type whose values stand in documents. -/
class Element (α : Type) where
  /-- The text of a value. -/
  write : α → List Char
  /-- Takes a value off the front of a text. -/
  read : List Char → Except Fault (α × List Char)

/-- Takes a token off the front of a text and makes a value of it. -/
def readToken {α : Type} (value : Token → Except Fault α) (cs : List Char) :
    Except Fault (α × List Char) :=
  match Token.read? cs with
  | some (t, rest) => (value t).map (·, rest)
  | none => .error .notJson

/-! ### Numbers and characters -/

/-- The numeral of a natural number. -/
def writeNat (n : Nat) : List Char := Nat.toDigits 10 n

/-- The numeral of an integer. -/
def writeInt : Int → List Char
  | .ofNat n => writeNat n
  | .negSucc n => '-' :: writeNat (n + 1)

/-- The numeral of a float that is a number, and `null` for one that is none. -/
def writeFloat {k : Kind} (f : BinaryFormat) (n : NumberNotation) (v : Scalar k) : List Char :=
  if v.isFinite then (v.finiteText f n).toList else "null".toList

/-- The number of occurrences that a token stands for. -/
def Token.toCount (t : Token) : Except Fault Nat :=
  match t with
  | .number n =>
    match n.toInt? with
    | some (.ofNat count) => .ok count
    | some (.negSucc _) => .error (t.misfit .count)
    | none => .error (t.mismatch .count)
  | _ => .error (t.mismatch .count)

/-- Takes a number of occurrences off the front of a text. -/
def readCount : List Char → Except Fault (Nat × List Char) := readToken Token.toCount

/-- The value of an integer kind that a token stands for. -/
def Token.toInteger (k : Kind) (t : Token) : Except Fault (Scalar k) :=
  match t with
  | .number n =>
    match n.toInt? with
    | some i =>
      match Scalar.ofInt? k i with
      | some v => .ok v
      | none => .error (t.misfit (.number k))
    | none => .error (t.mismatch (.number k))
  | _ => .error (t.mismatch (.number k))

/-- The value of a float kind that a token stands for. -/
def Token.toFloat (k : Kind) (f : BinaryFormat) (t : Token) : Except Fault (Scalar k) :=
  match t with
  | .number n =>
    match n.toFloat? k f with
    | some v => .ok v
    | none => .error .notJson
  | _ => .error (t.mismatch (.number k))

/-- The character that a token stands for. -/
def Token.toCharacter (t : Token) : Except Fault (Scalar .char) :=
  match t with
  | .string [c] => .ok (Scalar.ofChar c)
  | .string _ => .error (t.misfit .character)
  | _ => .error (t.mismatch .character)

/-- The truth value that a token stands for. -/
def Token.toBoolean (t : Token) : Except Fault Bool :=
  match t with
  | .boolean b => .ok b
  | _ => .error (t.mismatch .boolean)

/-- The string that a token stands for. -/
def Token.toText (t : Token) : Except Fault String :=
  match t with
  | .string cs => .ok (String.ofList cs)
  | _ => .error (t.mismatch .string)

/-! ### Elements -/

/-- The text of a scalar in a document. -/
def writeScalar : {k : Kind} → Scalar k → List Char
  | .char, v => Literal.write [v.toChar]
  | .f32, v => writeFloat binary32 documentNotation32 v
  | .f64, v => writeFloat binary64 documentNotation64 v
  | _, v => writeInt v.toInt

/-- The scalar that a token stands for. -/
def Token.toScalar : (k : Kind) → Token → Except Fault (Scalar k)
  | .char => Token.toCharacter
  | .f32 => Token.toFloat .f32 binary32
  | .f64 => Token.toFloat .f64 binary64
  | k => Token.toInteger k

instance {k : Kind} : Element (Scalar k) := ⟨writeScalar, readToken (Token.toScalar k)⟩

instance : Element Bool := ⟨fun b => (boolText b).toList, readToken Token.toBoolean⟩

instance : Element String := ⟨fun s => Literal.write s.toList, readToken Token.toText⟩

end Slotted.Json
