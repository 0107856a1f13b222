import Slotted.Lock.Word

/-!
# What a thread knows of its own locks

A thread that waits for a lock it holds itself waits forever.  So each thread keeps a record of
every acquisition it began and did not end, and before it begins another it looks whether that can
end: shared holds of one thread go together, and any other pair on one lock does not.

## Main definitions

* `Records` — the records of a thread, the latest first.
* `Records.conflicts`, `Records.enter`, `Records.leave` — checking, beginning and ending.
-/

namespace Slotted

/-- The acquisitions that a thread began and did not end: the number of the lock, and the mode. -/
abbrev Records := List (Nat × Mode)

namespace Records

/-- A recorded mode and a new one do not go together on one lock. -/
def clash (held wanted : Mode) : Bool := held == .exclusive || wanted == .exclusive

/-- An acquisition would wait for the thread itself. -/
def conflicts (r : Records) (lock : Nat) (mode : Mode) : Bool :=
  r.any fun (l, m) => l == lock && clash m mode

/-- Records the begin of an acquisition, or refuses one that would wait for the thread itself. -/
def enter (r : Records) (lock : Nat) (mode : Mode) : Except Abort Records :=
  if r.conflicts lock mode then .error (.relock mode) else .ok ((lock, mode) :: r)

/-- Ends the latest acquisition of a lock in a mode. -/
def leave (r : Records) (lock : Nat) (mode : Mode) : Records := r.erase (lock, mode)

end Records

end Slotted
