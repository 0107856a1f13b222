import Slotted.Batch.Positioned
import Slotted.Lock.Records

/-!
# Guarded values

A guarded value is reached only through its lock.  A *view* is the right to reach it for as long as
the scope that granted the view is running; kept longer, a view is revoked and reaches nothing.

Several guarded values and what one thread does with them are a *guard post*: the values with their
locks, the thread's records, and every view that it was ever granted.

## Main definitions

* `Guarded` — a value and the word of its lock.
* `visitPart?` — what a range of any positions holds, asked of the collection behind the lock.
* `View`, `GuardPost` — the views, and all that a thread works with.
* `GuardPost.acquire`, `GuardPost.release`, `GuardPost.grant`, `GuardPost.revoke` — the four steps
  that begin and end a scope.
-/

namespace Slotted

/-- A value behind a lock. -/
structure Guarded (C : Type) where
  /-- The value. -/
  delegate : C
  /-- The word of the lock. -/
  lock : LockWord := .free

/-- A guarded collection has the positions of its delegate.  A range may be of any positions: those
that the collection does not have hold nothing. -/
instance {C α : Type} [Positioned C α] : Positioned (Guarded C) α where
  positions g := positions g.delegate
  runs g start stop :=
    let stop := min stop (positions g.delegate)
    if start < stop then runs g.delegate start stop else []

/-- The elements of a range of any positions, of which the collection is only asked for those that
it has. -/
def visitPart? {C α : Type} [Positioned C α] (c : C) (start stop : Nat) : Option (List α) :=
  let stop := min stop (positions c)
  if start < stop then visit? c start stop else some []

/-- A view of a guarded value. -/
structure View where
  /-- The number of the guarded value. -/
  place : Nat
  /-- How the lock is held for it. -/
  mode : Mode
  /-- The scope that granted the view is still running. -/
  alive : Bool
  deriving DecidableEq, Repr

/-- Guarded values, by number, and what one thread works with. -/
structure GuardPost (C : Type) where
  /-- The guarded values. -/
  values : Nat → Guarded C
  /-- The locks that the thread acquired. -/
  records : Records := []
  /-- Every view that was ever granted, the first one first. -/
  views : Array View := #[]

namespace GuardPost

variable {C : Type}

/-- The value with the given number. -/
def delegate (p : GuardPost C) (i : Nat) : C := (p.values i).delegate

/-- The word of the lock with the given number. -/
def lock (p : GuardPost C) (i : Nat) : LockWord := (p.values i).lock

/-- The post with another guarded value at a number. -/
def set (p : GuardPost C) (i : Nat) (g : Guarded C) : GuardPost C :=
  { p with values := fun j => if j = i then g else p.values j }

/-- The post with another value behind a lock. -/
def setDelegate (p : GuardPost C) (i : Nat) (c : C) : GuardPost C :=
  p.set i { p.values i with delegate := c }

/-- The post with another word of a lock. -/
def setLock (p : GuardPost C) (i : Nat) (w : LockWord) : GuardPost C :=
  p.set i { p.values i with lock := w }

/-- Acquires a lock.  A thread that would wait for itself is refused and nothing changes.  No other
thread holds the lock, so nothing else is left to refuse but a shared hold that the word has no room
for; the record of that attempt stays. -/
def acquire (p : GuardPost C) (i : Nat) (mode : Mode) : Except Abort Unit × GuardPost C :=
  match p.records.enter i mode with
  | .error a => (.error a, p)
  | .ok records =>
    match (p.lock i).acquired? mode with
    | some w => (.ok (), { p.setLock i w with records := records })
    | none => (.error .tooManyReaders, { p with records := records })

/-- Releases a lock. -/
def release (p : GuardPost C) (i : Nat) (mode : Mode) : GuardPost C :=
  { p.setLock i ((p.lock i).released mode) with records := p.records.leave i mode }

/-- Grants a view; answers with its number. -/
def grant (p : GuardPost C) (i : Nat) (mode : Mode) : Nat × GuardPost C :=
  (p.views.size, { p with views := p.views.push ⟨i, mode, true⟩ })

/-- Revokes the view with the given number. -/
def revoke (p : GuardPost C) (n : Nat) : GuardPost C :=
  { p with views := p.views.modify n fun v => { v with alive := false } }

end GuardPost

end Slotted
