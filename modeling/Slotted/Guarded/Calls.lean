import Slotted.Guarded.Program
import Slotted.Json.Document

/-!
# Calls on guarded collections

The operations of a collection as commands: on the guarded collection itself, and on a view of it.

## Main definitions

* `Query`, `Change`, `Reply` — the calls that read a collection, those that change it, and answers.
* `Command.query`, `Command.change`, `Command.extend` — a call under a lock of its own.
* `Command.queryView`, `Command.changeView` — a call on a view.
* `Command.visit` — going through a range of positions under a shared hold.
* `Command.text`, `Command.document` — the text and the document of a guarded collection.
* `Guarded.ofDocument` — the guarded collection of a document.
* `viewText` — the text of a view.
-/

namespace Slotted

/-- What a call answers. -/
inductive Reply (α : Type) where
  /-- Nothing. -/
  | unit
  /-- A truth value. -/
  | flag (b : Bool)
  /-- A number. -/
  | number (n : Nat)
  /-- The elements. -/
  | items (as : List α)
  /-- A text. -/
  | text (s : String)
  /-- A document. -/
  | document (s : String)

/-- A call that reads a collection. -/
inductive Query (α : Type) where
  /-- The number of elements. -/
  | size
  /-- Whether there are none. -/
  | isEmpty
  /-- Whether an element is there. -/
  | contains (a : α)
  /-- The elements. -/
  | toList

/-- A call that changes a collection. -/
inductive Change (α : Type) where
  /-- Adding an element. -/
  | add (a : α)
  /-- Removing an element once. -/
  | remove (a : α)
  /-- Removing every element. -/
  | clear

/-- What a reading call answers. -/
def Query.answer {C α : Type} [Collection C α] (c : C) : Query α → Reply α
  | size => .number (Collection.size c)
  | isEmpty => .flag (Collection.isEmpty c)
  | contains a => .flag (Collection.contains c a)
  | toList => .items (Collection.toList c)

/-- Which kind of change a call makes. -/
def Change.mutation {α : Type} : Change α → Mutation
  | add _ => .add
  | remove _ => .remove
  | clear => .clear

/-- What a changing call does and answers. -/
def Change.apply {C α : Type} [Collection C α] (c : C) : Change α → Except Abort (Reply α) × C
  | add a =>
    let (r, c) := (Collection.add c a).val
    (r.map .flag, c)
  | remove a =>
    let (r, c) := Collection.remove c a
    (.ok (.flag r), c)
  | clear => (.ok .unit, Collection.clear c)

namespace Command

variable {C α : Type}

/-- Reads the collection with number `i`, under a shared hold for this call. -/
def query [Collection C α] (i : Nat) (q : Query α) : Command C (Reply α) := .read i (q.answer ·)

/-- Changes the collection with number `i`, under an exclusive hold for this call. -/
def change [Collection C α] (i : Nat) (c : Change α) : Command C (Reply α) := .write i (c.apply ·)

/-- Adds each of a list of elements, under one exclusive hold for all. -/
def extend [Collection C α] (i : Nat) (as : List α) : Command C (Reply α) :=
  .write i fun c =>
    let (r, c) := (Collection.extend c as).val
    (r.map fun () => .unit, c)

/-- Reads through a view. -/
def queryView [Collection C α] (v : ViewRef) (q : Query α) : Command C (Reply α) :=
  .view v (.read (q.answer ·))

/-- Changes a collection through a view. -/
def changeView [Collection C α] (v : ViewRef) (c : Change α) : Command C (Reply α) :=
  .view v (.change c.mutation (c.apply ·))

/-- Visits the elements of a range of any positions, through a view under one shared hold. -/
def visit [Positioned C α] (i start stop : Nat) : Command C (Option (List α)) :=
  .scope i .shared [.view .innermost (.read (visitPart? · start stop))] []

/-- The text of a guarded collection, which shows what it guards. -/
def text [Itemized C] (i : Nat) : Command C (Reply α) :=
  .read i fun c => .text ("Guarded(" ++ containerText c ++ ")")

/-- The document of a guarded collection, which is that of what it guards. -/
def document (i : Nat) (write : C → String) : Command C (Reply α) :=
  .read i fun c => .document (write c)

end Command

/-- The guarded collection of a document: the collection of the document behind a lock of its own,
which nobody holds. -/
def Guarded.ofDocument {C : Type} [Documented C] (document : String) :
    Traced (Except Json.Fault (Guarded C)) :=
  (·.map ({ delegate := · })) <$> Slotted.ofDocument document

/-- The text of a view. -/
def viewText (mode : Mode) (valid : Bool) : String :=
  partlyShown (mode.name ++ "View") [("valid", boolText valid)]

end Slotted
