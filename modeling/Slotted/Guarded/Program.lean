import Slotted.Guarded.Basic

/-!
# Programs of one thread over guarded values

A program reads and writes guarded values, each call under a lock of its own, and opens *scopes*,
which hold a lock while their bodies run and grant them a view.  An abort in a body unwinds through
the scope: the view is revoked and the lock released as at any other end, and the rest of the
program up to the next `attempt` does not run.

A view may leave its scope: the commands that follow the body may use it, and so may any later one
that knows its number.

## Main definitions

* `ViewUse`, `Command` — what is done with a view, and the commands of a program.
* `Answer` — what a command answers.
* `Command.run` — the meaning of a command.
-/

namespace Slotted

/-- What is done with a view, with answers in `R`. -/
inductive ViewUse (C R : Type) where
  /-- Asking whether the view is valid. -/
  | isValid
  /-- Asking what the view is. -/
  | describe
  /-- Reading the value. -/
  | read (f : C → R)
  /-- Changing the value, in the way that is named. -/
  | change (what : Mutation) (f : C → Except Abort R × C)

/-- Which view is meant. -/
inductive ViewRef where
  /-- The view of the scope around the command. -/
  | innermost
  /-- The view that was granted as the `n`-th, counted from zero. -/
  | granted (n : Nat)
  deriving DecidableEq, Repr

/-- A command of a program over guarded values of `C`, with answers in `R`. -/
inductive Command (C R : Type) where
  /-- Reads a value under a shared hold. -/
  | read (i : Nat) (f : C → R)
  /-- Changes a value under an exclusive hold. -/
  | write (i : Nat) (f : C → Except Abort R × C)
  /-- Uses a view. -/
  | view (v : ViewRef) (use : ViewUse C R)
  /-- Runs a body in a scope, and what follows when the scope has ended but the view is not yet
  forgotten. -/
  | scope (i : Nat) (mode : Mode) (body after : List (Command C R))
  /-- Aborts. -/
  | raise (message : String)
  /-- Runs a command and, if that aborts, goes on all the same. -/
  | attempt (c : Command C R)

/-- What a command answers. -/
inductive Answer (R : Type) where
  /-- What was read, or what came of a change. -/
  | value (r : R)
  /-- Whether a view is valid. -/
  | validity (valid : Bool)
  /-- What a view is. -/
  | description (mode : Mode) (valid : Bool)
  /-- An error. -/
  | error (e : Error)
  /-- There is no such view. -/
  | noView
  /-- The answers of the body of a scope, and of the commands that followed. -/
  | scope (inside after : List (Answer R))
  /-- The abort of an attempt. -/
  | aborted (a : Abort)

/-- Changes a value for which the lock is held. -/
def GuardPost.change {C R : Type} (p : GuardPost C) (i : Nat) (f : C → Except Abort R × C) :
    Except Abort (Answer R) × GuardPost C :=
  let (r, c) := f (p.delegate i)
  (r.map .value, p.setDelegate i c)

/-- Uses a view.  A revoked view reaches nothing, and a shared one does not change anything. -/
def View.use {C R : Type} (v : View) (p : GuardPost C) :
    ViewUse C R → Except Abort (Answer R) × GuardPost C
  | .isValid => (.ok (.validity v.alive), p)
  | .describe => (.ok (.description v.mode v.alive), p)
  | .read f =>
    if v.alive then (.ok (.value (f (p.delegate v.place))), p)
    else (.ok (.error .usageAfterScope), p)
  | .change what f =>
    if !v.alive then (.ok (.error .usageAfterScope), p)
    else
      match v.mode with
      | .shared => (.ok (.error (.unsupportedOperation what)), p)
      | .exclusive => p.change v.place f

/-- The number of the view that is meant. -/
def ViewRef.number? (innermost : Option Nat) : ViewRef → Option Nat
  | .innermost => innermost
  | .granted n => some n

namespace Command

variable {C R : Type}

mutual

/-- Runs a command; `innermost` is the number of the view of the scope around it. -/
def run : Command C R → (innermost : Option Nat) → GuardPost C →
    Except Abort (Answer R) × GuardPost C
  | .read i f, _, p =>
    match p.acquire i .shared with
    | (.error a, p) => (.error a, p)
    | (.ok (), p) => (.ok (.value (f (p.delegate i))), p.release i .shared)
  | .write i f, _, p =>
    match p.acquire i .exclusive with
    | (.error a, p) => (.error a, p)
    | (.ok (), p) =>
      let (r, p) := p.change i f
      (r, p.release i .exclusive)
  | .view v use, innermost, p =>
    match (v.number? innermost).bind (p.views[·]?) with
    | some granted => granted.use p use
    | none => (.ok .noView, p)
  | .scope i mode body after, _, p =>
    match p.acquire i mode with
    | (.error a, p) => (.error a, p)
    | (.ok (), p) =>
      let (n, p) := p.grant i mode
      let (inside, p) := runAll body (some n) p
      let p := (p.revoke n).release i mode
      match inside with
      | .error a => (.error a, p)
      | .ok inside =>
        let (after, p) := runAll after (some n) p
        (after.map (.scope inside), p)
  | .raise message, _, p => (.error (.raised message), p)
  | .attempt c, innermost, p =>
    match run c innermost p with
    | (.ok r, p) => (.ok r, p)
    | (.error a, p) => (.ok (.aborted a), p)

/-- Runs commands one after the other, up to the first that aborts. -/
def runAll : List (Command C R) → (innermost : Option Nat) → GuardPost C →
    Except Abort (List (Answer R)) × GuardPost C
  | [], _, p => (.ok [], p)
  | c :: cs, innermost, p =>
    match run c innermost p with
    | (.error a, p) => (.error a, p)
    | (.ok r, p) =>
      let (rs, p) := runAll cs innermost p
      (rs.map (r :: ·), p)

end

end Command

end Slotted
