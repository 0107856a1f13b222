import Slotted.Json.Document
import Slotted.Proofs.Reachable

/-!
# Containers read from documents

A document fills a container by the operations that anybody may call, one for each item, so what
comes of it is reachable.

## Main results

* `ScalarSet.reachable_of_ofDocument`, `ScalarBag.reachable_of_ofDocument` — the containers of
  documents are reachable.
-/

namespace Slotted

open Json

variable {k : Kind}

theorem Json.Listing.eq_of_settle_eq_ok {α σ : Type} {l : Listing α} {made : Except Fault σ} {s : σ}
    (h : l.settle made = .ok s) : made = .ok s := by
  unfold settle at h
  split at h
  · exact h
  · cases h
  · cases h

theorem ScalarSet.Reachable.extendAll {s : ScalarSet k} (hs : s.Reachable) (vs : List (Scalar k)) :
    (Collection.extend s vs).val.2.Reachable := by
  induction vs generalizing s with
  | nil => exact hs
  | cons v vs ih => exact ih (hs.add v)

/-- The set of a document is reachable. -/
theorem ScalarSet.reachable_of_ofDocument {text : String} {s : ScalarSet k}
    (h : (ofDocument text : Traced (Except Fault (ScalarSet k))).val = .ok s) : s.Reachable := by
  have hmade := Listing.eq_of_settle_eq_ok h
  cases hmade
  exact ScalarSet.Reachable.empty.extendAll _

theorem ScalarBag.Reachable.absorb {b b' : ScalarBag k} (hb : b.Reachable)
    (entries : List (Scalar k × ℕ)) (h : (Counted.absorb b entries).val = .ok b') :
    b'.Reachable := by
  induction entries generalizing b with
  | nil =>
    cases h
    exact hb
  | cons e entries ih =>
    obtain ⟨v, n⟩ := e
    rw [Counted.absorb] at h
    split at h
    · cases h
    · exact ih (hb.addOccurrences v n) h

/-- The bag of a document is reachable. -/
theorem ScalarBag.reachable_of_ofDocument {text : String} {b : ScalarBag k}
    (h : (ofDocument text : Traced (Except Fault (ScalarBag k))).val = .ok b) : b.Reachable :=
  ScalarBag.Reachable.empty.absorb _ (Listing.eq_of_settle_eq_ok h)

end Slotted
