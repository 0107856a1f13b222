import Slotted.Boolean.BoolBag
import Slotted.Decimal.Layout
import Slotted.ScalarBag.Iter
import Slotted.ScalarSet.Iter
import Slotted.Tally
import Slotted.Text.Quoted

/-!
# The text of values and containers

A container is shown between braces, on one line or with an entry to a line.  Integers are shown in
decimal, characters between quotes, and floats by the shortest decimal that reads back.

## Main definitions

* `Kind.format?` — the float format of a kind.
* `Scalar.text` — the text of a value.
* `Brackets`, `Brackets.line`, `Brackets.block` — a list of texts on one line, or one to a line.
* `Shown`, `Itemized` — the values and the containers that have a text.
* `containerText`, `containerBlock` — the text of a container.
-/

namespace Slotted

/-- The float format of the kind. -/
def Kind.format? : Kind → Option BinaryFormat
  | .f32 => some binary32
  | .f64 => some binary64
  | _ => none

namespace Scalar

variable {k : Kind}

/-- The text of a float that is a number, in a given notation. -/
def finiteText (f : BinaryFormat) (n : NumberNotation) (v : Scalar k) : String :=
  (if v.isNegative then "-" else "") ++ n.render (f.shortest n.tie v.magnitude.toNat)

/-- The character that a value of the character kind is. -/
def toChar (v : Scalar .char) : Char := ⟨v.bits.toUInt32, by
  have h : v.bits.toNat.isValidChar := v.holds
  have hlt : v.bits.toNat < 2 ^ 32 := by rcases h with h | h <;> omega
  show v.bits.toUInt32.toNat.isValidChar
  rwa [UInt64.toNat_toUInt32, Nat.mod_eq_of_lt hlt]⟩

/-- The value of a character. -/
def ofChar (c : Char) : Scalar .char := ⟨c.val.toUInt64, by
  show c.val.toUInt64.toNat.isValidChar
  rw [UInt32.toNat_toUInt64]
  exact c.valid⟩

@[simp] theorem toChar_ofChar (c : Char) : (ofChar c).toChar = c := by
  apply Char.ext
  show c.val.toUInt64.toUInt32 = c.val
  simp

/-- The text of a value. -/
def text : {k : Kind} → Scalar k → String
  | .char, v => Quoted.char v.toChar
  | k, v =>
    match k.format? with
    | none => toString v.toInt
    | some f =>
      if v.isNaN then "NaN"
      else if v.isFinite then v.finiteText f displayNotation
      else if v.isNegative then "-inf"
      else "inf"

end Scalar

/-! ### Lists of texts -/

/-- A pair of brackets. -/
structure Brackets where
  /-- The opening bracket. -/
  opening : String
  /-- The closing bracket. -/
  closing : String

/-- The brackets around the contents of a container. -/
def Brackets.braces : Brackets := ⟨"\x7b", "\x7d"⟩

/-- The brackets around the rest of an iterator. -/
def Brackets.square : Brackets := ⟨"[", "]"⟩

/-- Items on one line, with commas between them. -/
def Brackets.line (b : Brackets) (items : List String) : String :=
  b.opening ++ ", ".intercalate items ++ b.closing

/-- Items one to a line, each indented and with a comma behind it. -/
def Brackets.block (b : Brackets) (items : List String) : String :=
  match items with
  | [] => b.opening ++ b.closing
  | items => b.opening ++ "\n" ++ String.join (items.map fun s => "    " ++ s ++ ",\n") ++ b.closing

/-- The name of a thing of which only one field, or none, is shown. -/
def partlyShown (name : String) (fields : List (String × String)) : String :=
  let shown := fields.map fun (field, value) => field ++ ": " ++ value ++ ", "
  name ++ " \x7b " ++ String.join shown ++ ".. \x7d"

/-- The name of a thing with all its fields. -/
def recordText (name : String) (fields : List (String × String)) : String :=
  let shown := fields.map fun (field, value) => field ++ ": " ++ value
  name ++ " \x7b " ++ ", ".intercalate shown ++ " \x7d"

/-- The text of a truth value. -/
def boolText (b : Bool) : String := if b then "true" else "false"

/-! ### Values -/

/-- A type whose values have a text. -/
class Shown (α : Type) where
  /-- The text of a value. -/
  shown : α → String

export Shown (shown)

instance {k : Kind} : Shown (Scalar k) := ⟨Scalar.text⟩

instance : Shown Bool := ⟨boolText⟩

instance : Shown String := ⟨Quoted.string⟩

/-- An entry of a bag: a value and its count. -/
def shownEntry {α : Type} [Shown α] (p : α × Nat) : String := shown p.1 ++ ": " ++ toString p.2

/-! ### Containers -/

/-- A type of containers that are shown by their items. -/
class Itemized (C : Type) where
  /-- The texts of the items. -/
  itemTexts : C → List String

instance {k : Kind} : Itemized (ScalarSet k) := ⟨fun s => s.toList.map shown⟩

instance {k : Kind} : Itemized (ScalarBag k) := ⟨fun b => b.distinct.map shownEntry⟩

instance : Itemized BoolSet := ⟨fun s => s.toList.map shown⟩

instance : Itemized BoolBag := ⟨fun b => b.distinct.map shownEntry⟩

instance {α : Type} [Shown α] : Itemized (Tally α) := ⟨fun t => t.distinct.map shownEntry⟩

/-- The text of a container on one line. -/
def containerText {C : Type} [Itemized C] (c : C) : String :=
  Brackets.braces.line (Itemized.itemTexts c)

/-- The text of a container with an item to a line. -/
def containerBlock {C : Type} [Itemized C] (c : C) : String :=
  Brackets.braces.block (Itemized.itemTexts c)

/-! ### Iterators and cursors -/

/-- The text of an iterator that shows only how many items are left. -/
def remainingText (name : String) (n : Nat) : String :=
  partlyShown name [("remaining", toString n)]

/-- The text of an iterator over a set: the elements still to come. -/
def ScalarSet.Iter.text {k : Kind} (it : ScalarSet.Iter k) : String :=
  Brackets.square.line (it.rest.map shown)

/-- The text of an iterator over the occurrences of a bag. -/
def ScalarBag.Iter.text {k : Kind} (it : ScalarBag.Iter k) : String :=
  remainingText "Iter" it.remaining

/-- The text of an iterator over the distinct values of a bag. -/
def ScalarBag.Distinct.text {k : Kind} (it : ScalarBag.Distinct k) : String :=
  remainingText "Distinct" it.remaining

/-- The text of an iterator over a tally. -/
def Tally.Iter.text {α : Type} (it : Tally.Iter α) : String := remainingText "Iter" it.remaining

/-- The text of a cursor, which shows nothing of the container. -/
def cursorText : String := partlyShown "Cursor" []

end Slotted
