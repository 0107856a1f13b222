import Slotted.Lock.Word

/-!
# How threads share one lock

Any number of threads acquire and release one lock.  A thread goes through its acquisition in steps,
each of which touches the word at most once; between two steps of one thread the others make any
number of theirs.  A thread acts on the word it saw last, which need not be the word as it is.

An acquisition is tried once at little cost.  If that fails the thread looks at the word again and
again, at most `spinLimit` times while the lock is held; then it sets the bit of the sleeping
threads and goes to sleep, unless the word has changed in the meantime.  Sleep may end for no
reason.

A release that frees a lock whose bit of sleeping threads is set is followed by waking all of them.
An exclusive release clears the bit in the same step.  The last shared release clears it in a step
of its own, between which and the release other threads may acquire, release and go to sleep.

## Main definitions

* `Phase`, `Contender` — what a thread is about to do, and what it holds.
* `Move` — the steps that touch the word.
* `Contention`, `Contention.Step`, `Contention.Reachable` — all threads together.
-/

namespace Slotted

/-- How often a thread looks at the word of a held lock before it goes to sleep. -/
def spinLimit : Nat := 64

/-- What a thread is about to do.  `seen` is the word that it saw last. -/
inductive Phase where
  /-- Nothing that has to do with the lock. -/
  | idle
  /-- Look at the word for the first time, for a shared acquisition. -/
  | firstLook
  /-- Try once to replace the word it saw by one with a shared hold more. -/
  | firstTry (seen : LockWord)
  /-- Try once to replace the word of a free lock by that of an exclusive hold. -/
  | firstClaim
  /-- Look at the word, the first attempt having failed. -/
  | look (mode : Mode)
  /-- Act on the word it saw, having looked `spins` times while it had to wait. -/
  | decide (mode : Mode) (seen : LockWord) (spins : Nat)
  /-- Go to sleep if the word is `expected`. -/
  | doze (mode : Mode) (expected : LockWord)
  /-- Wait to be woken. -/
  | asleep (mode : Mode)
  /-- Look at the word after sleeping. -/
  | roused (mode : Mode)
  /-- Clear the bit of the sleeping threads, having freed the lock. -/
  | unparking
  /-- Wake the sleeping threads. -/
  | waking
  deriving DecidableEq, Repr

/-- A thread, as far as the lock is concerned. -/
structure Contender where
  /-- The acquisitions that it began and did not end. -/
  records : List Mode := []
  /-- The number of its shared holds. -/
  shared : Nat := 0
  /-- It has an exclusive hold. -/
  exclusive : Bool := false
  /-- What it is about to do. -/
  phase : Phase := .idle
  deriving DecidableEq, Repr

namespace Contender

/-- The thread may begin an acquisition: only shared holds go together. -/
def mayEnter (t : Contender) : Mode → Prop
  | .shared => Mode.exclusive ∉ t.records
  | .exclusive => t.records = []

/-- The thread, having begun an acquisition. -/
def entered (t : Contender) (mode : Mode) (phase : Phase) : Contender :=
  { t with records := mode :: t.records, phase := phase }

/-- The thread, having acquired the lock. -/
def granted (t : Contender) : Mode → Contender
  | .shared => { t with shared := t.shared + 1, phase := .idle }
  | .exclusive => { t with exclusive := true, phase := .idle }

/-- The thread, having released the lock. -/
def released (t : Contender) (mode : Mode) (phase : Phase) : Contender :=
  match mode with
  | .shared =>
    { t with records := t.records.erase .shared, shared := t.shared - 1, phase := phase }
  | .exclusive =>
    { t with records := t.records.erase .exclusive, exclusive := false, phase := phase }

/-- The thread in another phase. -/
def inPhase (t : Contender) (phase : Phase) : Contender := { t with phase := phase }

end Contender

/-- The word that an acquisition puts in the place of the one it saw. -/
def LockWord.claimed (w : LockWord) : Mode → LockWord
  | .shared => w.addReader
  | .exclusive => w.setExclusive

/-- A step of one thread that wakes no other: `Move w t w' t'` says that thread `t` may, when the
word is `w`, make it `w'` and become `t'`. -/
inductive Move : LockWord → Contender → LockWord → Contender → Prop where
  /-- Begins a shared acquisition. -/
  | enterShared {w : LockWord} {t : Contender} :
      t.phase = .idle → t.mayEnter .shared → Move w t w (t.entered .shared .firstLook)
  /-- Begins an exclusive acquisition. -/
  | enterExclusive {w : LockWord} {t : Contender} :
      t.phase = .idle → t.mayEnter .exclusive → Move w t w (t.entered .exclusive .firstClaim)
  /-- Sees a word that allows a shared hold. -/
  | firstLookOpen {w : LockWord} {t : Contender} :
      t.phase = .firstLook → w.isExclusive = false → w.hasRoom = true →
      Move w t w (t.inPhase (.firstTry w))
  /-- Sees a word that does not allow a shared hold. -/
  | firstLookShut {w : LockWord} {t : Contender} :
      t.phase = .firstLook → (w.isExclusive = true ∨ w.hasRoom = false) →
      Move w t w (t.inPhase (.look .shared))
  /-- Gets a shared hold at the first attempt. -/
  | firstTrySucceeds {w : LockWord} {t : Contender} :
      t.phase = .firstTry w → Move w t w.addReader (t.granted .shared)
  /-- Fails to get a shared hold at the first attempt, which may happen for no reason. -/
  | firstTryFails {w seen : LockWord} {t : Contender} :
      t.phase = .firstTry seen → Move w t w (t.inPhase (.look .shared))
  /-- Gets an exclusive hold at the first attempt. -/
  | firstClaimSucceeds {t : Contender} :
      t.phase = .firstClaim →
      Move LockWord.free t (LockWord.free.claimed .exclusive) (t.granted .exclusive)
  /-- Fails to get an exclusive hold at the first attempt. -/
  | firstClaimFails {w : LockWord} {t : Contender} :
      t.phase = .firstClaim → w ≠ .free → Move w t w (t.inPhase (.look .exclusive))
  /-- Looks at the word after the first attempt. -/
  | look {w : LockWord} {t : Contender} {mode : Mode} :
      t.phase = .look mode → Move w t w (t.inPhase (.decide mode w 0))
  /-- Finds no room for another shared hold and gives up, leaving its record behind. -/
  | giveUp {w seen : LockWord} {t : Contender} {spins : Nat} :
      t.phase = .decide .shared seen spins → seen.isExclusive = false → seen.hasRoom = false →
      Move w t w (t.inPhase .idle)
  /-- Acquires the lock, the word being as seen. -/
  | claimSucceeds {w : LockWord} {t : Contender} {mode : Mode} {spins : Nat} :
      t.phase = .decide mode w spins → w.blocks mode = false →
      (mode = .shared → w.hasRoom = true) → Move w t (w.claimed mode) (t.granted mode)
  /-- Fails to acquire the lock, which may happen for no reason, and sees the word as it is. -/
  | claimFails {w seen : LockWord} {t : Contender} {mode : Mode} {spins : Nat} :
      t.phase = .decide mode seen spins → seen.blocks mode = false →
      (mode = .shared → seen.hasRoom = true) → Move w t w (t.inPhase (.decide mode w spins))
  /-- Looks again at the word of a held lock. -/
  | spin {w seen : LockWord} {t : Contender} {mode : Mode} {spins : Nat} :
      t.phase = .decide mode seen spins → seen.blocks mode = true → spins < spinLimit →
      Move w t w (t.inPhase (.decide mode w (spins + 1)))
  /-- Sets the bit of the sleeping threads, the word being as seen. -/
  | parkSucceeds {w : LockWord} {t : Contender} {mode : Mode} :
      t.phase = .decide mode w spinLimit → w.blocks mode = true → w.isParked = false →
      Move w t w.park (t.inPhase (.doze mode w.park))
  /-- Does not set the bit of the sleeping threads, the word not being as seen. -/
  | parkFails {w seen : LockWord} {t : Contender} {mode : Mode} :
      t.phase = .decide mode seen spinLimit → seen.blocks mode = true → seen.isParked = false →
      w ≠ seen → Move w t w (t.inPhase (.decide mode w spinLimit))
  /-- Finds the bit of the sleeping threads set in the word it saw. -/
  | parkedAlready {w seen : LockWord} {t : Contender} {mode : Mode} :
      t.phase = .decide mode seen spinLimit → seen.blocks mode = true → seen.isParked = true →
      Move w t w (t.inPhase (.doze mode seen))
  /-- Goes to sleep, the word being as expected. -/
  | fallAsleep {w : LockWord} {t : Contender} {mode : Mode} :
      t.phase = .doze mode w → Move w t w (t.inPhase (.asleep mode))
  /-- Does not go to sleep, the word not being as expected. -/
  | stayAwake {w expected : LockWord} {t : Contender} {mode : Mode} :
      t.phase = .doze mode expected → w ≠ expected → Move w t w (t.inPhase (.roused mode))
  /-- Wakes up for no reason. -/
  | stir {w : LockWord} {t : Contender} {mode : Mode} :
      t.phase = .asleep mode → Move w t w (t.inPhase (.roused mode))
  /-- Looks at the word after sleeping. -/
  | rouse {w : LockWord} {t : Contender} {mode : Mode} :
      t.phase = .roused mode → Move w t w (t.inPhase (.decide mode w spinLimit))
  /-- Gives up a shared hold, there being others or nobody asleep. -/
  | leaveShared {w : LockWord} {t : Contender} :
      t.phase = .idle → 0 < t.shared → (w.readers ≠ 1 ∨ w.isParked = false) →
      Move w t w.removeReader (t.released .shared .idle)
  /-- Gives up the last shared hold while threads may be asleep. -/
  | leaveLast {w : LockWord} {t : Contender} :
      t.phase = .idle → 0 < t.shared → w.readers = 1 → w.isParked = true →
      Move w t w.removeReader (t.released .shared .unparking)
  /-- Clears the bit of the sleeping threads. -/
  | unpark {w : LockWord} {t : Contender} :
      t.phase = .unparking → Move w t w.unpark (t.inPhase .waking)
  /-- Gives up an exclusive hold. -/
  | leaveExclusive {w : LockWord} {t : Contender} :
      t.phase = .idle → t.exclusive = true →
      Move w t .free (t.released .exclusive (if w.isParked then .waking else .idle))

/-- A lock and the threads that use it. -/
structure Contention where
  /-- The word of the lock. -/
  word : LockWord
  /-- The threads. -/
  threads : List Contender

namespace Contention

/-- A free lock, and `n` threads that do nothing yet. -/
def start (n : Nat) : Contention := ⟨.free, List.replicate n {}⟩

/-- A thread, after all sleepers were woken. -/
def wake (t : Contender) : Contender :=
  match t.phase with
  | .asleep mode => t.inPhase (.roused mode)
  | _ => t

/-- One step of one thread. -/
inductive Step : Contention → Contention → Prop where
  /-- A step that wakes no other thread. -/
  | move {s : Contention} {i : Nat} {t t' : Contender} {w' : LockWord} :
      s.threads[i]? = some t → Move s.word t w' t' → Step s ⟨w', s.threads.set i t'⟩
  /-- A step that wakes all that are asleep. -/
  | wakeAll {s : Contention} {i : Nat} {t : Contender} :
      s.threads[i]? = some t → t.phase = .waking →
      Step s ⟨s.word, (s.threads.set i (t.inPhase .idle)).map wake⟩

/-- The states that `n` threads can come to. -/
inductive Reachable (n : Nat) : Contention → Prop where
  /-- At the start. -/
  | start : Reachable n (start n)
  /-- After one more step. -/
  | step {s s' : Contention} : Reachable n s → Step s s' → Reachable n s'

/-- The number of shared holds of all threads. -/
def sharedHolds (s : Contention) : Nat := s.threads.foldr (fun t holds => t.shared + holds) 0

/-- The number of exclusive holds of all threads. -/
def exclusiveHolds (s : Contention) : Nat := s.threads.countP (·.exclusive)

/-- Somebody holds the lock. -/
def IsHeld (s : Contention) : Prop := 0 < s.sharedHolds ∨ 0 < s.exclusiveHolds

/-- A thread is asleep. -/
def HasSleeper (s : Contention) : Prop := ∃ t ∈ s.threads, ∃ mode, t.phase = .asleep mode

/-- A thread has freed the lock, seen that threads may be asleep, and not yet woken them. -/
def HasWaker (s : Contention) : Prop := ∃ t ∈ s.threads, t.phase = .unparking ∨ t.phase = .waking

end Contention

end Slotted
