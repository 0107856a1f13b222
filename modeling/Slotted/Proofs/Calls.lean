import Mathlib.Data.Nat.Notation
import Slotted.Error

/-!
# Sequences of calls

A container is put to use by a sequence of calls, each of which gets a response.  What the responses
have to be is said by a mathematical object of which the container is to be an implementation, by
steps from one state of the object to the next.  If each call can be followed by a step with the
same response, then so can every sequence of calls.

## Main definitions

* `Response` — what comes back from a call.
* `runCalls` — the responses to a sequence of calls, and what they leave.
* `Run` — the responses that a specification allows to a sequence of calls.

## Main results

* `exists_run` — following single calls is enough to follow sequences of them.
-/

namespace Slotted

/-- What comes back from a call. -/
inductive Response where
  /-- The call has no result. -/
  | done
  /-- The call answers yes or no. -/
  | flag (b : Bool)
  /-- The call answers with a number. -/
  | number (n : ℕ)
  /-- The call was cut short, or answered with an error. -/
  | refused (why : Failure)

variable {S T C : Type*}

/-- The responses to a sequence of calls, and the container after it. -/
def runCalls (call : C → T → Response × T) : List C → T → List Response × T
  | [], t => ([], t)
  | c :: cs, t =>
    let (r, t) := call c t
    let (rs, t) := runCalls call cs t
    (r :: rs, t)

/-- A sequence of calls with responses that fit the steps of a specification, from one of its states
to another. -/
inductive Run (step : S → C → Response → S → Prop) : S → List C → List Response → S → Prop where
  /-- No call. -/
  | nil (a : S) : Run step a [] [] a
  /-- A call, and a sequence of calls after it. -/
  | cons {a b a' : S} {c : C} {r : Response} {cs : List C} {rs : List Response} :
      step a c r b → Run step b cs rs a' → Run step a (c :: cs) (r :: rs) a'

/-- If each call is followed by a step, then each sequence of calls is followed by a run. -/
theorem exists_run (call : C → T → Response × T) (step : S → C → Response → S → Prop)
    {represents : T → S → Prop}
    (hstep : ∀ t a c, represents t a →
      ∃ b, step a c (call c t).1 b ∧ represents (call c t).2 b)
    (cs : List C) {t : T} {a : S} (h : represents t a) :
    ∃ b, Run step a cs (runCalls call cs t).1 b ∧ represents (runCalls call cs t).2 b := by
  induction cs generalizing t a with
  | nil => exact ⟨a, .nil a, h⟩
  | cons c cs ih =>
    obtain ⟨b, hfirst, hb⟩ := hstep t a c h
    obtain ⟨a', hrest, ha'⟩ := ih hb
    exact ⟨a', .cons hfirst hrest, ha'⟩

end Slotted
