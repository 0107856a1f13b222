import Slotted.Collection
import Slotted.Json.Listing

/-!
# The documents of containers

A document of a set may list an element again, and one of a bag may list a value again or with no
occurrences: a set takes no notice, and a bag adds the counts up.  The counts of a document come
from outside, so counts that are together more than a machine word are a fault of the document and
never get as far as the addition that would abort.

What comes before a fault has been added to a container by then, so its rebuilds are reported.

## Main definitions

* `setDocument`, `bagDocument` — the document of a container.
* `Counted.ofEntries` — the bag of a list of values with counts, unless these overflow.
* `setOfDocument`, `bagOfDocument` — the container of a document.
* `Documented` — the containers that have a document: all of them.
-/

namespace Slotted

open Json

/-- What comes of a listing whose items made a container: that, unless there is a fault. -/
def Json.Listing.settle {α σ : Type} (l : Listing α) (made : Except Fault σ) : Except Fault σ :=
  match made, l.fault? with
  | .ok s, none => .ok s
  | .ok _, some f => .error f
  | .error f, _ => .error f

section Sets

variable {C α : Type} [Collection C α] [Element α]

/-- The document of a set: the list of its elements. -/
def setDocument (c : C) : String :=
  String.ofList (writeList ((Collection.toList c).map Element.write))

/-- The set of a document. -/
def setOfDocument (document : String) : Traced (Except Fault C) :=
  let l := Listing.elements document
  (fun (_, c) => l.settle (.ok c)) <$> Collection.extend Collection.empty l.items

end Sets

section Bags

variable {C α : Type} [Counted C α]

/-- Adds values with counts, up to the first count that the container has no room for. -/
def Counted.absorb (c : C) : List (α × Nat) → Traced (Except Fault C)
  | [] => pure (.ok c)
  | (a, n) :: rest =>
    match addCount? (Collection.size c) n with
    | none => pure (.error .countOverflow)
    | some _ => do
      let (_, c) ← Counted.addOccurrences c a n
      Counted.absorb c rest

/-- The container of a list of values with counts. -/
def Counted.ofEntries (entries : List (α × Nat)) : Traced (Except Fault C) :=
  Counted.absorb Collection.empty entries

variable [Element α]

/-- The document of a bag: the list of its distinct values with their counts. -/
def bagDocument (c : C) : String := String.ofList (writeList ((Counted.distinct c).map writePair))

/-- The bag of a document. -/
def bagOfDocument (document : String) : Traced (Except Fault C) :=
  let l := Listing.entries document
  l.settle <$> Counted.ofEntries l.items

end Bags

/-! ### Containers -/

/-- A type of containers that are written to documents and read back. -/
class Documented (C : Type) where
  /-- The document of a container. -/
  document : C → String
  /-- The container of a document. -/
  ofDocument : String → Traced (Except Fault C)

export Documented (document ofDocument)

instance {k : Kind} : Documented (ScalarSet k) := ⟨setDocument, setOfDocument⟩

instance {k : Kind} : Documented (ScalarBag k) := ⟨bagDocument, bagOfDocument⟩

instance : Documented BoolSet := ⟨setDocument, setOfDocument⟩

instance : Documented BoolBag := ⟨bagDocument, bagOfDocument⟩

instance {α : Type} [DecidableEq α] [Element α] : Documented (Tally α) :=
  ⟨bagDocument, bagOfDocument⟩

end Slotted
