import Mathlib.Data.Nat.Bitwise
import Slotted.Lock.Word

/-!
# The three parts of the word of a lock

The low 30 bits of the word count the shared holds, bit 30 is that of sleeping threads and bit 31
that of an exclusive hold.  Setting or clearing a flag leaves the other flag and the count alone.
Counting up or down does so too, as long as the count neither runs over into bit 30 nor borrows
from it; an acquisition looks for room first, so it does not.

## Main results

* `LockWord.readers_eq_mod`, `isParked_eq_testBit`, `isExclusive_eq_testBit` — the parts, read off
  the number that the word is.
* `LockWord.readers_addReader`, `readers_removeReader` — counting, and `flags_addReader`,
  `flags_removeReader` for the flags meanwhile.
-/

namespace Slotted
namespace LockWord

variable {w w' : LockWord}

/-! ### The parts of a word -/

theorem readers_eq_mod (w : LockWord) : w.readers = w.bits.toNat % 2 ^ 30 := by
  rw [readers, UInt32.toNat_and]
  exact Nat.and_two_pow_sub_one_eq_mod _ 30

theorem isParked_eq_testBit (w : LockWord) : w.isParked = w.bits.toNat.testBit 30 := by
  have hbits : (w.bits &&& parkedBit).toNat = (w.bits.toNat.testBit 30).toNat * 2 ^ 30 := by
    rw [UInt32.toNat_and]
    exact Nat.and_two_pow w.bits.toNat 30
  rw [isParked, Bool.eq_iff_iff, bne_iff_ne, ne_eq, ← UInt32.toNat_inj, hbits]
  cases w.bits.toNat.testBit 30 <;> simp

theorem isExclusive_eq_testBit (w : LockWord) : w.isExclusive = w.bits.toNat.testBit 31 := by
  have hbits : (w.bits &&& writerBit).toNat = (w.bits.toNat.testBit 31).toNat * 2 ^ 31 := by
    rw [UInt32.toNat_and]
    exact Nat.and_two_pow w.bits.toNat 31
  rw [isExclusive, Bool.eq_iff_iff, bne_iff_ne, ne_eq, ← UInt32.toNat_inj, hbits]
  cases w.bits.toNat.testBit 31 <;> simp

theorem isHeld_eq_false_iff : w.isHeld = false ↔ w.isExclusive = false ∧ w.readers = 0 := by
  simp [isHeld]

theorem hasRoom_iff : w.hasRoom = true ↔ w.readers < 2 ^ 30 - 2 := decide_eq_true_iff

/-! ### Setting and clearing a flag -/

@[simp] theorem readers_setExclusive (w : LockWord) : w.setExclusive.readers = w.readers := by
  rw [readers_eq_mod, readers_eq_mod, setExclusive, UInt32.toNat_or, Nat.or_mod_two_pow]
  exact Nat.or_zero _

@[simp] theorem isParked_setExclusive (w : LockWord) : w.setExclusive.isParked = w.isParked := by
  rw [isParked_eq_testBit, isParked_eq_testBit, setExclusive, UInt32.toNat_or, Nat.testBit_or]
  exact Bool.or_false _

@[simp] theorem isExclusive_setExclusive (w : LockWord) : w.setExclusive.isExclusive = true := by
  rw [isExclusive_eq_testBit, setExclusive, UInt32.toNat_or, Nat.testBit_or]
  exact Bool.or_true _

@[simp] theorem readers_park (w : LockWord) : w.park.readers = w.readers := by
  rw [readers_eq_mod, readers_eq_mod, park, UInt32.toNat_or, Nat.or_mod_two_pow]
  exact Nat.or_zero _

@[simp] theorem isParked_park (w : LockWord) : w.park.isParked = true := by
  rw [isParked_eq_testBit, park, UInt32.toNat_or, Nat.testBit_or]
  exact Bool.or_true _

@[simp] theorem isExclusive_park (w : LockWord) : w.park.isExclusive = w.isExclusive := by
  rw [isExclusive_eq_testBit, isExclusive_eq_testBit, park, UInt32.toNat_or, Nat.testBit_or]
  exact Bool.or_false _

@[simp] theorem readers_unpark (w : LockWord) : w.unpark.readers = w.readers := by
  rw [readers_eq_mod, readers_eq_mod, unpark, UInt32.toNat_and, Nat.and_mod_two_pow]
  exact Nat.and_two_pow_sub_one_of_lt_two_pow (Nat.mod_lt _ (by decide))

@[simp] theorem isParked_unpark (w : LockWord) : w.unpark.isParked = false := by
  rw [isParked_eq_testBit, unpark, UInt32.toNat_and, Nat.testBit_and]
  exact Bool.and_false _

@[simp] theorem isExclusive_unpark (w : LockWord) : w.unpark.isExclusive = w.isExclusive := by
  rw [isExclusive_eq_testBit, isExclusive_eq_testBit, unpark, UInt32.toNat_and, Nat.testBit_and]
  exact Bool.and_true _

/-! ### Counting -/

theorem toNat_addReader (h : w.hasRoom = true) : w.addReader.bits.toNat = w.bits.toNat + 1 := by
  have hroom := hasRoom_iff.1 h
  have hlt := w.bits.toNat_lt
  rw [readers_eq_mod] at hroom
  rw [addReader, UInt32.toNat_add]
  -- room for a hold is room before the end of the word
  exact Nat.mod_eq_of_lt (show w.bits.toNat + 1 < 2 ^ 32 by omega)

theorem toNat_removeReader (h : 0 < w.readers) : w.removeReader.bits.toNat = w.bits.toNat - 1 := by
  rw [readers_eq_mod] at h
  have hle : 1 ≤ w.bits := UInt32.le_iff_toNat_le.2 (show 1 ≤ w.bits.toNat by omega)
  rw [removeReader, UInt32.toNat_sub_of_le _ _ hle]
  rfl

/-- Words that agree from bit 30 on have the same flags. -/
theorem flags_congr (h : w.bits.toNat / 2 ^ 30 = w'.bits.toNat / 2 ^ 30) :
    w.isParked = w'.isParked ∧ w.isExclusive = w'.isExclusive := by
  have hbit : ∀ i, w.bits.toNat.testBit (30 + i) = w'.bits.toNat.testBit (30 + i) := by
    intro i
    rw [Nat.add_comm, ← Nat.testBit_div_two_pow, ← Nat.testBit_div_two_pow, h]
  rw [isParked_eq_testBit, isParked_eq_testBit, isExclusive_eq_testBit, isExclusive_eq_testBit]
  exact ⟨hbit 0, hbit 1⟩

theorem readers_addReader (h : w.hasRoom = true) : w.addReader.readers = w.readers + 1 := by
  have hroom := hasRoom_iff.1 h
  rw [readers_eq_mod] at hroom
  rw [readers_eq_mod, readers_eq_mod, toNat_addReader h]
  omega

theorem flags_addReader (h : w.hasRoom = true) :
    w.addReader.isParked = w.isParked ∧ w.addReader.isExclusive = w.isExclusive := by
  have hroom := hasRoom_iff.1 h
  rw [readers_eq_mod] at hroom
  apply flags_congr
  rw [toNat_addReader h]
  omega

theorem removeReader_addReader (w : LockWord) : w.addReader.removeReader = w :=
  congrArg LockWord.mk (UInt32.add_sub_cancel w.bits 1)

theorem readers_removeReader (h : 0 < w.readers) : w.removeReader.readers = w.readers - 1 := by
  have hpos := h
  rw [readers_eq_mod] at hpos
  rw [readers_eq_mod, readers_eq_mod, toNat_removeReader h]
  omega

theorem flags_removeReader (h : 0 < w.readers) :
    w.removeReader.isParked = w.isParked ∧ w.removeReader.isExclusive = w.isExclusive := by
  have hpos := h
  rw [readers_eq_mod] at hpos
  apply flags_congr
  rw [toNat_removeReader h]
  omega

end LockWord
end Slotted
