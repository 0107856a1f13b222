import Slotted.Proofs.Json.Document
import Slotted.Proofs.Json.Float
import Slotted.Proofs.Json.RoundTrip

/-!
# Which containers of floats come back from their documents

A container of floats that are all finite comes back from its document, both zeros and the numbers
below the normal ones included.  A NaN or an infinity is written all the same, but by a word that no
number is read from: it is the fault of the document, whatever else the container holds, and nothing
comes of that.

## Main definitions

* `FloatDocument` — what becomes of the document of a container of floats.

## Main results

* `setOfDocument_refused`, `BagGrowth.bagOfDocument_refused` — an element that is refused is the
  fault of the document.
* `float_documents` — the containers of floats that come back.
-/

namespace Slotted

open Collection Counted Json

/-! ### Documents with an element that is refused -/

section Refused

variable {C α κ : Type} [DecidableEq κ] {sound : C → Prop} {key : α → κ} [Element α] {c : C}
  {f : Fault}

/-- The first element that is refused is the fault of the document of a set. -/
theorem setOfDocument_refused [Collection C α] {as bs : List α} {b : α}
    (hlist : toList c = as ++ b :: bs) (h : ∀ a ∈ as, ReadAs Element.read (Element.write a) a)
    (hb : RefusedAs (Element.read (α := α)) (Element.write b) f) :
    (setOfDocument (setDocument c) : Traced (Except Fault C)).val = .error f := by
  rw [setOfDocument, setDocument, hlist, Listing.elements_writeList_refused hb h]
  rfl

/-- The first value that is refused is the fault of the document of a bag: the counts before it are
not too many. -/
theorem BagGrowth.bagOfDocument_refused [Counted C α] (growth : BagGrowth C sound key)
    (henumerated : Enumerated key c) {es es' : List (α × ℕ)} {e : α × ℕ}
    (hlist : distinct c = es ++ e :: es')
    (h : ∀ e ∈ es, ReadAs Element.read (Element.write e.1) e.1)
    (he : RefusedAs (Element.read (α := α)) (Element.write e.1) f) :
    (bagOfDocument (bagDocument c) : Traced (Except Fault C)).val = .error f := by
  have hsum : size (empty : C) + (es.map Prod.snd).sum ≤ maxWord := by
    have hle := henumerated.sum_le
    rw [hlist, List.map_append, List.sum_append] at hle
    rw [growth.size_empty]
    omega
  have hword : ∀ e ∈ es, e.2 ≤ maxWord := by
    intro e he
    exact henumerated.le_maxWord (hlist ▸ List.mem_append_left _ he)
  obtain ⟨d, hd, -⟩ := growth.exists_absorb growth.sound_empty es hsum
  rw [bagOfDocument, bagDocument, hlist, Listing.entries_writeList_refused he h hword,
    Traced.val_map, Counted.ofEntries, hd]
  rfl

end Refused

/-! ### Containers of floats -/

variable {k : Kind}

/-- What becomes of the document of a container that holds the floats given. -/
structure FloatDocument {C : Type} [Documented C] (same : C → C → Prop) (floats : List (Scalar k))
    (c : C) : Prop where
  /-- If they are finite, the container comes back, also if it is guarded. -/
  restored : (∀ v ∈ floats, v.isFinite = true) → Restored same c
  /-- If one is not, the document is at fault. -/
  refused : (∃ v ∈ floats, v.isFinite = false) →
    (ofDocument (document c) : Traced (Except Fault C)).val = .error (.wrongType .null (.number k))

/-- What is before the first value that is not finite. -/
theorem exists_first_not_finite {α : Type} (float : α → Scalar k) {es : List α}
    (h : ∃ e ∈ es, (float e).isFinite = false) :
    ∃ before e after, es = before ++ e :: after ∧ (float e).isFinite = false ∧
      ∀ e ∈ before, (float e).isFinite = true := by
  have hsome : (es.find? fun e => !(float e).isFinite).isSome = true := by
    simpa using h
  obtain ⟨e, he⟩ := Option.isSome_iff_exists.1 hsome
  obtain ⟨hfinite, before, after, heq, hbefore⟩ := List.find?_eq_some_iff_append.1 he
  refine ⟨before, e, after, heq, ?_, ?_⟩
  · simpa using hfinite
  · simpa using hbefore

theorem ScalarSet.Reachable.floatDocument {s : ScalarSet k} (hs : s.Reachable)
    (hk : k.isFloat = true) : FloatDocument (fun d s => d.eqv s = true) s.toList s where
  restored := by
    intro h
    obtain ⟨d, hd, hsame⟩ := (setGrowth_scalarSet k).exists_setOfDocument_of_readAs
      (setLaws_scalarSet k) hs.sound fun v hv => readAs_writeScalar (h v hv)
    exact restored_of_exists ⟨d, hd, (ScalarSet.eqv_iff_contains hsame.1 hsame.2.1).2 hsame.2.2⟩
  refused := by
    intro h
    obtain ⟨before, v, after, hlist, hv, hbefore⟩ := exists_first_not_finite id h
    exact setOfDocument_refused hlist (fun w hw => readAs_writeScalar (hbefore w hw))
      (refusedAs_writeScalar hk hv)

theorem ScalarBag.Reachable.floatDocument {b : ScalarBag k} (hb : b.Reachable)
    (hk : k.isFloat = true) :
    FloatDocument (fun d b => d.eqv b = true) (b.distinct.map Prod.fst) b where
  restored := by
    intro h
    obtain ⟨d, hd, hsame⟩ := (bagGrowth_scalarBag k).exists_bagOfDocument_of_readAs hb.sound
      ((bagLaws_scalarBag k).enumerated hb.sound) fun e he =>
        readAs_writeScalar (h e.1 (List.mem_map_of_mem he))
    exact restored_of_exists
      ⟨d, hd, (ScalarBag.eqv_iff_occurrencesOf hsame.1 hsame.2.1).2 hsame.2.2⟩
  refused := by
    intro h
    have hentry : ∃ e ∈ b.distinct, e.1.isFinite = false := by
      simpa using h
    obtain ⟨before, e, after, hlist, he, hbefore⟩ := exists_first_not_finite Prod.fst hentry
    exact (bagGrowth_scalarBag k).bagOfDocument_refused
      ((bagLaws_scalarBag k).enumerated hb.sound) hlist
      (fun e he => readAs_writeScalar (hbefore e he)) (refusedAs_writeScalar hk he)

/-- **Only finite floats come back.**  To write a set or a bag of floats that operations lead to,
and to read what was written, makes an equal container if all the floats are finite.  If one of
them is not, the container is written, but what was written is refused. -/
theorem float_documents (hk : k.isFloat = true) :
    (∀ s : ScalarSet k, s.Reachable →
      FloatDocument (fun d s => d.eqv s = true) s.toList s) ∧
    ∀ b : ScalarBag k, b.Reachable →
      FloatDocument (fun d b => d.eqv b = true) (b.distinct.map Prod.fst) b :=
  ⟨fun _ hs => hs.floatDocument hk, fun _ hb => hb.floatDocument hk⟩

/-- For example both zeros, one tenth, the least positive number and the greatest in a set, and one
and minus infinity in a bag. -/
theorem float_documents_extremes :
    let s := (Collection.extend (ScalarSet.empty : ScalarSet .f64)
      [⟨0x3fb999999999999a, by decide⟩, ⟨0x8000000000000000, by decide⟩, ⟨1, by decide⟩,
        ⟨0x7fefffffffffffff, by decide⟩, ⟨0, by decide⟩]).val.2
    let b := ((ScalarBag.empty.addOccurrences (⟨0x3f800000, by decide⟩ : Scalar .f32) 3).val.2
      |>.addOccurrences ⟨0xff800000, by decide⟩ 2).val.2
    let written := "[0.0,0.1,-0.0,5e-324,1.7976931348623157e+308]"
    Kind.f64.isFloat = true ∧ s.Reachable ∧ (∀ v ∈ s.toList, v.isFinite = true) ∧
      document s = written ∧
      (∃ d : ScalarSet .f64, (ofDocument written).val = .ok d ∧ d.eqv s = true) ∧
      Kind.f32.isFloat = true ∧ b.Reachable ∧
      (∃ v ∈ b.distinct.map Prod.fst, v.isFinite = false) ∧ document b = "[[null,2],[1.0,3]]" ∧
      (ofDocument "[[null,2],[1.0,3]]" : Traced (Except Fault (ScalarBag .f32))).val
        = .error (.wrongType .null (.number .f32)) := by
  intro s b written
  have hs : s.Reachable := ScalarSet.Reachable.empty.extendAll _
  have hb : b.Reachable := .addOccurrences _ _ (.addOccurrences _ _ .empty)
  have hfinite : ∀ v ∈ s.toList, v.isFinite = true := by
    simp only [s]
    decide +kernel
  have hinfinite : ∃ v ∈ b.distinct.map Prod.fst, v.isFinite = false := by
    simp only [b]
    decide +kernel
  have hset : document s = written := by
    simp only [s, written]
    decide +kernel
  have hbag : document b = "[[null,2],[1.0,3]]" := by
    simp only [b]
    decide +kernel
  obtain ⟨d, hd, heqv⟩ := (((float_documents rfl).1 s hs).restored hfinite).alone
  have hrefused := ((float_documents rfl).2 b hb).refused hinfinite
  exact ⟨rfl, hs, hfinite, hset, ⟨d, hset ▸ hd, heqv⟩, rfl, hb, hinfinite, hbag, hbag ▸ hrefused⟩

/-- A NaN does not come back: its document, which is that of an infinity as well, is refused. -/
theorem float_documents_nan :
    let s := (ScalarSet.empty.add (⟨0x7ff8000000000000, by decide⟩ : Scalar .f64)).val.2
    let s' := (ScalarSet.empty.add (⟨0x7ff0000000000000, by decide⟩ : Scalar .f64)).val.2
    s.Reachable ∧ document s = "[null]" ∧ document s' = "[null]" ∧ s.eqv s' = false ∧
      (ofDocument (document s) : Traced (Except Fault (ScalarSet .f64))).val
        = .error (.wrongType .null (.number .f64)) ∧
      (Fault.wrongType .null (.number .f64)).message? = some "invalid type: null, expected f64" ∧
      ¬ ∃ d : ScalarSet .f64, (ofDocument (document s)).val = .ok d ∧ d.eqv s = true := by
  intro s s'
  have hs : s.Reachable := .add _ .empty
  have hdocument : document s = "[null]" := by
    simp only [s]
    decide +kernel
  have hother : document s' = "[null]" := by
    simp only [s']
    decide +kernel
  have hdiffer : s.eqv s' = false := by
    simp only [s, s']
    decide +kernel
  have hnan : ∃ v ∈ s.toList, v.isFinite = false := by
    simp only [s]
    decide +kernel
  have hrefused := (hs.floatDocument rfl).refused hnan
  refine ⟨hs, hdocument, hother, hdiffer, hrefused, by decide, ?_⟩
  rintro ⟨d, hd, -⟩
  rw [hrefused] at hd
  cases hd

end Slotted
