import Slotted.Collection
import Slotted.Proofs.ScalarBag.Refinement

/-!
# Two containers in lockstep

Containers of different makes, given the same calls, may be told apart by nothing but their insides.
To see that they answer alike it is enough to find a relation that each call respects: the two give
the same answer to it, and what it leaves of them is related again.  The two need not hold elements
of one type, so a call on the first is made on the second with the elements translated.

Calls come in three layers, as the operations do.  An extension may stop half way, so it is the one
call that may be refused and yet have changed something; all others are *single*.

## Main definitions

* `CollectionCall`, `CountedCall`, `TuningCall` — the calls on a collection, on one that counts, and
  on one whose counts can be tuned.
* `Agree` — the same answer, and what is left is related.
* `InStep` — two ways to make calls that agree on each.
* `Matching` — what it takes for two collections to do so.

## Main results

* `InStep.runCalls_map`, `InStep.agree_of_run` — agreeing on each call is agreeing on all sequences of calls.
* `Matching.inStep` — the extensions need no look of their own.
-/

namespace Slotted

open Collection Counted Bag

variable {α β C D K : Type}

/-! ### Calls -/

/-- A call on a collection. -/
inductive CollectionCall (α : Type) where
  /-- Adds an element. -/
  | add (a : α)
  /-- Removes an element. -/
  | remove (a : α)
  /-- Asks for an element. -/
  | contains (a : α)
  /-- Removes every element. -/
  | clear
  /-- Adds a list of elements. -/
  | extend (as : List α)
  /-- Asks for the number of elements. -/
  | size

/-- A call on a container that counts. -/
inductive CountedCall (α : Type) where
  /-- A call that all collections know. -/
  | collection (call : CollectionCall α)
  /-- Adds `n` occurrences of an element. -/
  | addOccurrences (a : α) (n : ℕ)
  /-- Asks for the count of an element. -/
  | occurrencesOf (a : α)

/-- A call on a container whose counts can be tuned. -/
inductive TuningCall (α : Type) where
  /-- A call that all containers that count know. -/
  | counted (call : CountedCall α)
  /-- Removes up to `n` occurrences of an element. -/
  | removeOccurrences (a : α) (n : ℕ)
  /-- Makes the count of an element `n`. -/
  | setOccurrences (a : α) (n : ℕ)

namespace CollectionCall

/-- Makes a call on a collection. -/
def run [Collection C α] : CollectionCall α → C → Response × C
  | add a, c => (.ofResult .flag (Collection.add c a).val.1, (Collection.add c a).val.2)
  | remove a, c => (.flag (Collection.remove c a).1, (Collection.remove c a).2)
  | contains a, c => (.flag (Collection.contains c a), c)
  | clear, c => (.done, Collection.clear c)
  | extend as, c =>
    (.ofResult (fun _ => .done) (Collection.extend c as).val.1, (Collection.extend c as).val.2)
  | size, c => (.number (Collection.size c), c)

/-- The call with its elements translated. -/
def map (f : α → β) : CollectionCall α → CollectionCall β
  | add a => .add (f a)
  | remove a => .remove (f a)
  | contains a => .contains (f a)
  | clear => .clear
  | extend as => .extend (as.map f)
  | size => .size

/-- Any call but an extension. -/
def Single : CollectionCall α → Prop
  | extend _ => False
  | _ => True

theorem Single.map (f : α → β) {call : CollectionCall α} (h : call.Single) :
    (call.map f).Single := by
  cases call with
  | extend as => exact h
  | _ => trivial

@[simp] theorem map_id (call : CollectionCall α) : call.map id = call := by
  cases call with
  | extend as => rw [map, List.map_id]
  | _ => rfl

end CollectionCall

namespace CountedCall

/-- Makes a call on a container that counts. -/
def run [Counted C α] : CountedCall α → C → Response × C
  | collection call, c => call.run c
  | addOccurrences a n, c =>
    (.ofResult .number (Counted.addOccurrences c a n).val.1, (Counted.addOccurrences c a n).val.2)
  | occurrencesOf a, c => (.number (Counted.occurrencesOf c a), c)

/-- The call with its elements translated. -/
def map (f : α → β) : CountedCall α → CountedCall β
  | collection call => .collection (call.map f)
  | addOccurrences a n => .addOccurrences (f a) n
  | occurrencesOf a => .occurrencesOf (f a)

/-- Any call but an extension. -/
def Single : CountedCall α → Prop
  | collection call => call.Single
  | _ => True

theorem Single.map (f : α → β) {call : CountedCall α} (h : call.Single) : (call.map f).Single := by
  cases call with
  | collection call => exact CollectionCall.Single.map f h
  | _ => trivial

@[simp] theorem map_id (call : CountedCall α) : call.map id = call := by
  cases call with
  | collection call => rw [map, CollectionCall.map_id]
  | _ => rfl

end CountedCall

namespace TuningCall

/-- Makes a call on a container whose counts can be tuned. -/
def run [Bag C α] : TuningCall α → C → Response × C
  | counted call, c => call.run c
  | removeOccurrences a n, c =>
    (.flag (Bag.removeOccurrences c a n).1, (Bag.removeOccurrences c a n).2)
  | setOccurrences a n, c =>
    (.ofResult .number (Bag.setOccurrences c a n).val.1, (Bag.setOccurrences c a n).val.2)

/-- The call with its elements translated. -/
def map (f : α → β) : TuningCall α → TuningCall β
  | counted call => .counted (call.map f)
  | removeOccurrences a n => .removeOccurrences (f a) n
  | setOccurrences a n => .setOccurrences (f a) n

/-- Any call but an extension. -/
def Single : TuningCall α → Prop
  | counted call => call.Single
  | _ => True

theorem Single.map (f : α → β) {call : TuningCall α} (h : call.Single) : (call.map f).Single := by
  cases call with
  | counted call => exact CountedCall.Single.map f h
  | _ => trivial

end TuningCall

/-! ### Agreement -/

/-- The two answers are one, and what is left is related. -/
def Agree {R : Type} (alike : C → D → Prop) (x : R × C) (y : R × D) : Prop :=
  x.1 = y.1 ∧ alike x.2 y.2

/-- Two ways to make calls agree on each of them, wherever their containers are related. -/
structure InStep (run : K → C → Response × C) (run' : K → D → Response × D)
    (alike : C → D → Prop) : Prop where
  /-- The two answers to a call agree. -/
  agree : ∀ {c d}, alike c d → ∀ call, Agree alike (run call c) (run' call d)

/-- What holds of an answer holds of the response that it makes. -/
theorem Agree.map {R S : Type} {alike : C → D → Prop} {x : R × C} {y : R × D}
    (h : Agree alike x y) (f : R → S) : Agree alike (f x.1, x.2) (f y.1, y.2) :=
  ⟨congrArg f h.1, h.2⟩

section

variable {run : K → C → Response × C} {run' : K → D → Response × D} {alike : C → D → Prop}
  {c : C} {d : D}

/-- Two containers that agree on each call agree on each sequence of calls. -/
theorem InStep.runCalls (h : InStep run run' alike) (hcd : alike c d) (calls : List K) :
    Agree alike (runCalls run calls c) (runCalls run' calls d) := by
  induction calls generalizing c d with
  | nil => exact ⟨rfl, hcd⟩
  | cons call calls ih =>
    obtain ⟨hanswer, hnext⟩ := h.agree hcd call
    obtain ⟨hanswers, hlast⟩ := ih hnext
    refine ⟨?_, hlast⟩
    show (run call c).1 :: (Slotted.runCalls run calls (run call c).2).1
      = (run' call d).1 :: (Slotted.runCalls run' calls (run' call d).2).1
    rw [hanswer, hanswers]

/-- So does a container that may change between the calls, as long as it stays related. -/
theorem InStep.agree_of_run {step : D → K → Response → D → Prop} (h : InStep run run' alike)
    (hstep : ∀ {d call r d'}, step d call r d' →
      r = (run' call d).1 ∧ ∀ {c}, alike c (run' call d).2 → alike c d')
    {calls : List K} {rs : List Response} {d' : D} (hrun : Run step d calls rs d')
    (hcd : alike c d) : Agree alike (Slotted.runCalls run calls c) (rs, d') := by
  induction hrun generalizing c with
  | nil d => exact ⟨rfl, hcd⟩
  | @cons d d₁ d' call r calls rs hfirst hrest ih =>
    obtain ⟨hanswer, hnext⟩ := h.agree hcd call
    obtain ⟨rfl, hkept⟩ := hstep hfirst
    obtain ⟨hanswers, hlast⟩ := ih (hkept hnext)
    refine ⟨?_, hlast⟩
    show (run call c).1 :: (Slotted.runCalls run calls (run call c).2).1 = (run' call d).1 :: rs
    rw [hanswer, hanswers]

end

/-- To make calls that were translated is to translate each as it is made. -/
theorem runCalls_map {K' : Type} (run : K' → D → Response × D) (f : K → K') (calls : List K)
    (d : D) : runCalls run (calls.map f) d = runCalls (fun call => run (f call)) calls d := by
  induction calls generalizing d with
  | nil => rfl
  | cons call calls ih =>
    simp only [List.map_cons, runCalls, ih]

/-- Two containers that agree on each call and its translation agree on sequences of them. -/
theorem InStep.runCalls_map {K' : Type} {run : K → C → Response × C} {run' : K' → D → Response × D}
    {f : K → K'} {alike : C → D → Prop} {c : C} {d : D}
    (h : InStep run (fun call => run' (f call)) alike) (hcd : alike c d) (calls : List K) :
    Agree alike (Slotted.runCalls run calls c) (Slotted.runCalls run' (calls.map f) d) := by
  rw [Slotted.runCalls_map]
  exact h.runCalls hcd calls

/-! ### Collections -/

/-- Two types of collections answer alike what is asked of related ones, but for extensions. -/
structure Matching [Collection C α] [Collection D β] (f : α → β) (alike : C → D → Prop) :
    Prop where
  /-- They are of one size. -/
  size : ∀ {c d}, alike c d → Collection.size c = Collection.size d
  /-- They contain the same elements. -/
  contains : ∀ {c d}, alike c d → ∀ a, Collection.contains c a = Collection.contains d (f a)
  /-- They agree on additions. -/
  add : ∀ {c d}, alike c d → ∀ a,
    Agree alike (Collection.add c a).val (Collection.add d (f a)).val
  /-- They agree on removals. -/
  remove : ∀ {c d}, alike c d → ∀ a,
    Agree alike (Collection.remove c a) (Collection.remove d (f a))
  /-- Without their elements they are related, too. -/
  clear : ∀ {c d}, alike c d → alike (Collection.clear c) (Collection.clear d)

namespace Matching

variable [Collection C α] [Collection D β] {f : α → β} {alike : C → D → Prop} {c : C} {d : D}

/-- Related collections agree on extensions: both stop at the same element. -/
theorem extend (m : Matching f alike) (h : alike c d) (as : List α) :
    Agree alike (Collection.extend c as).val (Collection.extend d (as.map f)).val := by
  induction as generalizing c d with
  | nil => exact ⟨rfl, h⟩
  | cons a as ih =>
    obtain ⟨hanswer, hnext⟩ := m.add h a
    rw [List.map_cons, Collection.extend, Collection.extend, Traced.val_bind, Traced.val_bind]
    revert hanswer hnext
    rcases (Collection.add c a).val with ⟨r, c'⟩
    rcases (Collection.add d (f a)).val with ⟨r', d'⟩
    rintro rfl hnext
    cases r with
    | ok fresh => exact ih hnext
    | error e => exact ⟨rfl, hnext⟩

/-- Matching collections are in step on all calls. -/
theorem inStep (m : Matching f alike) :
    InStep (K := CollectionCall α) CollectionCall.run (fun call => (call.map f).run) alike := by
  constructor
  intro c d h call
  cases call with
  | add a => exact (m.add h a).map (Response.ofResult .flag)
  | remove a => exact (m.remove h a).map Response.flag
  | contains a => exact ⟨congrArg Response.flag (m.contains h a), h⟩
  | clear => exact ⟨rfl, m.clear h⟩
  | extend as => exact (m.extend h as).map (Response.ofResult fun _ => .done)
  | size => exact ⟨congrArg Response.number (m.size h), h⟩

end Matching

end Slotted
