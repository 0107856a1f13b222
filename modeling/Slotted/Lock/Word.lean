import Slotted.Error

/-!
# The word of a lock

A lock for many readers or one writer is one word of 32 bits.  Its highest bit says that the lock is
held exclusively, the next that threads may be asleep waiting for it, and the others count the
shared holds.  Whoever frees a lock whose second bit is set has to wake the sleepers.

## Main definitions

* `LockWord` — the word, with `isExclusive`, `isParked` and `readers`.
* `LockWord.acquired?` — the word after an acquisition that need not wait.
* `LockWord.released` — the word after a release.
-/

namespace Slotted

/-- The word of a lock. -/
structure LockWord where
  /-- The bits. -/
  bits : UInt32
  deriving DecidableEq, Repr

namespace LockWord

/-- The bit of an exclusive hold. -/
def writerBit : UInt32 := 0x80000000

/-- The bit of sleeping threads. -/
def parkedBit : UInt32 := 0x40000000

/-- The bits that count shared holds. -/
def readerMask : UInt32 := 0x3fffffff

/-- The word of a lock that nobody holds or waits for. -/
def free : LockWord := ⟨0⟩

/-- The lock is held exclusively. -/
def isExclusive (w : LockWord) : Bool := w.bits &&& writerBit != 0

/-- Threads may be asleep. -/
def isParked (w : LockWord) : Bool := w.bits &&& parkedBit != 0

/-- The number of shared holds. -/
def readers (w : LockWord) : Nat := (w.bits &&& readerMask).toNat

/-- The lock is held. -/
def isHeld (w : LockWord) : Bool := w.isExclusive || w.readers != 0

/-- One more shared hold can be counted; the last two numbers are kept free. -/
def hasRoom (w : LockWord) : Bool := w.readers < readerMask.toNat - 1

/-- The word with one more shared hold. -/
def addReader (w : LockWord) : LockWord := ⟨w.bits + 1⟩

/-- The word with one shared hold less. -/
def removeReader (w : LockWord) : LockWord := ⟨w.bits - 1⟩

/-- The word with an exclusive hold. -/
def setExclusive (w : LockWord) : LockWord := ⟨w.bits ||| writerBit⟩

/-- The word that says that threads may be asleep. -/
def park (w : LockWord) : LockWord := ⟨w.bits ||| parkedBit⟩

/-- The word that says that no thread is asleep. -/
def unpark (w : LockWord) : LockWord := ⟨w.bits &&& ~~~parkedBit⟩

/-- An acquisition in the given mode has to wait. -/
def blocks (w : LockWord) : Mode → Bool
  | .shared => w.isExclusive
  | .exclusive => w.isHeld

/-- The word after an acquisition, unless that has to wait or there is no room for it. -/
def acquired? (w : LockWord) : Mode → Option LockWord
  | .shared => if !w.isExclusive && w.hasRoom then some w.addReader else none
  | .exclusive => if w.isHeld then none else some w.setExclusive

/-- The word after a release.  An exclusive release clears the word, and so does not keep the bit of
the sleeping threads. -/
def released (w : LockWord) : Mode → LockWord
  | .shared => w.removeReader
  | .exclusive => free

@[simp] theorem readers_free : free.readers = 0 := rfl

@[simp] theorem isExclusive_free : free.isExclusive = false := rfl

@[simp] theorem isParked_free : free.isParked = false := rfl

end LockWord

end Slotted
