import Slotted.Json.Element

/-!
# Lists in a document

A set is written as the list of its elements, and a bag as the list of its values, each paired with
its count in a list of two.  Reading a document hands over its items one by one up to the first
fault, so that a container that rejects an item does so before anything behind the item is read.

## Main definitions

* `writeList`, `writePair` — the texts of lists and pairs.
* `Listing` — the items of a document up to its end or its first fault.
* `Listing.elements`, `Listing.entries` — the listing of a document of elements, or of pairs.
-/

namespace Slotted.Json

/-! ### Writing -/

/-- Texts with commas between them. -/
def commaSeparated : List (List Char) → List Char
  | [] => []
  | [item] => item
  | item :: rest => item ++ ',' :: commaSeparated rest

/-- The text of a list of items, each given by its text. -/
def writeList (items : List (List Char)) : List Char := '[' :: (commaSeparated items ++ [']'])

/-- The text of a value with its count. -/
def writePair {α : Type} [Element α] (p : α × Nat) : List Char :=
  writeList [Element.write p.1, writeNat p.2]

/-! ### Reading -/

/-- The items of a document, up to its end or its first fault. -/
structure Listing (α : Type) where
  /-- The items. -/
  items : List α
  /-- The fault behind the last item, if there is one. -/
  fault? : Option Fault := none

namespace Listing

variable {α : Type}

/-- A listing with one more item in front. -/
def cons (a : α) (l : Listing α) : Listing α := { l with items := a :: l.items }

/-- A listing without items. -/
def failed (f : Fault) : Listing α := ⟨[], some f⟩

/-- What may follow a document: blanks. -/
def ending (cs : List Char) : Listing α :=
  if (skipBlanks cs).isEmpty then ⟨[], none⟩ else failed .notJson

/-- Reads items up to the end of the list, at most `fuel` of them.  The text begins where an item
has to be. -/
def readItems (item : List Char → Except Fault (α × List Char)) :
    (fuel : Nat) → List Char → Listing α
  | 0, _ => failed .notJson
  | fuel + 1, cs =>
    match item cs with
    | .error f => failed f
    | .ok (a, rest) =>
      cons a <|
        match skipBlanks rest with
        | ',' :: rest => readItems item fuel rest
        | ']' :: rest => ending rest
        | _ => failed .notJson

/-- Reads a document that is to be a list. -/
def read (expected : Expected) (item : List Char → Except Fault (α × List Char))
    (cs : List Char) : Listing α :=
  match Token.read? cs with
  | some (.openList, rest) =>
    match skipBlanks rest with
    | ']' :: rest => ending rest
    | _ => readItems item (rest.length + 1) rest
  | some (t, _) => failed (t.mismatch expected)
  | none => failed .notJson

/-- Reads what is behind the first value of a pair: a comma, the count and the closing bracket. -/
def readRestOfPair (cs : List Char) : Except Fault (Nat × List Char) :=
  match skipBlanks cs with
  | ']' :: _ => .error (.wrongLength 1)
  | ',' :: rest => do
    let (n, rest) ← readCount rest
    match skipBlanks rest with
    | ']' :: rest => .ok (n, rest)
    | _ => .error .notJson
  | _ => .error .notJson

/-- Reads a value with its count. -/
def readPair [Element α] (cs : List Char) : Except Fault ((α × Nat) × List Char) :=
  match Token.read? cs with
  | some (.openList, rest) =>
    match skipBlanks rest with
    | ']' :: _ => .error (.wrongLength 0)
    | _ => do
      let (a, rest) ← Element.read rest
      let (n, rest) ← readRestOfPair rest
      .ok ((a, n), rest)
  | some (t, _) => .error (t.mismatch .pair)
  | none => .error .notJson

/-- The elements that a document lists. -/
def elements [Element α] (document : String) : Listing α :=
  read .set Element.read document.toList

/-- The values that a document lists with their counts. -/
def entries [Element α] (document : String) : Listing (α × Nat) :=
  read .bag readPair document.toList

end Listing

end Slotted.Json
