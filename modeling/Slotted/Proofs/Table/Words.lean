import Slotted.Proofs.Reachable

/-!
# Tables in the arithmetic of machine words

A table asks two questions about its load: whether some more values would put it over the limit,
and if one does, whether it has to double.  A machine answers both in words.  The first it answers
in saturating arithmetic, which is right as long as the limit itself is below the greatest word, as
that of every table is that fits into memory.  The second is answered in products that nothing
checks, and they stay within words for a reason that depends on the kind.  Values of one byte are at
most 256, however many slots there are.  Wider values fill at most half of the slots, and the slots
are at most half as many as the bytes of an allocation.

## Main definitions

* `Table.ExactInWords` — what is asked of the arithmetic of a table.

## Main results

* `Table.Sound.overLimitInWords?_eq` — a machine finds a table over its limit just if it is.
* `Table.Sound.succ_live_mul_le` — the largest of the products is a word.
* `Table.Sound.grownCapacityInWords?_eq` — a machine makes a table as large as it should be.
* `loads_exact` — all of this holds of the table of every set and bag.
-/

namespace Slotted

variable {k : Kind} {P : Type} {w : ℕ}

namespace Table
namespace Sound

variable {t : Table k P}

/-! ### Whether a table is full -/

theorem live_add_tombstones_le (ht : t.Sound) :
    t.live + t.tombstones ≤ t.capacity * k.load.num :=
  (Nat.le_mul_of_pos_right _ k.load_den_pos).trans ht.within

/-- A machine finds a table over its limit just if it is. -/
theorem overLimitInWords?_eq (ht : t.Sound) (hfits : fitsMemory k w t.capacity = true) (n : ℕ) :
    t.overLimitInWords? n = some (t.overLimit n) := by
  have hlimit := ht.length.mul_num_lt hfits
  rw [overLimitInWords?, word?_eq_some (ht.live_add_tombstones_le.trans hlimit.le)]
  simp only [Option.bind_eq_bind, Option.bind_some]
  rw [Load.exceededByWord_eq k.load_den_pos hlimit]
  rfl

/-! ### How many slots it goes on with -/

/-- The product that a machine compares with the limit is a word. -/
theorem succ_live_mul_le (ht : t.Sound) (hfits : fitsMemory k w t.capacity = true) :
    (t.live + 1) * k.load.den * 2 ≤ maxWord := by
  have hmax : maxWord = 2 ^ 64 - 1 := rfl
  rcases k.narrow_or_wide with ⟨hwidth, hload⟩ | ⟨hwidth, hload⟩
  · -- there are few values of a narrow kind
    have hlive := ht.live_le_pow
    rw [hwidth] at hlive
    rw [hload]
    show (t.live + 1) * 4 * 2 ≤ maxWord
    omega
  · -- wide values are half as many as the slots, of which there are half as many as bytes
    have hbytes := mul_width_le_of_fitsMemory hfits
    have hslots : t.capacity * 2 ≤ maxAllocation := (Nat.mul_le_mul_left _ hwidth).trans hbytes
    have hmem : maxAllocation = 2 ^ 63 - 1 := rfl
    have hwithin := ht.within
    rw [hload] at hwithin ⊢
    have hhalf : (t.live + t.tombstones) * 2 ≤ t.capacity * 1 := hwithin
    show (t.live + 1) * 2 * 2 ≤ maxWord
    omega

/-- A machine makes a table as large as it should be. -/
theorem grownCapacityInWords?_eq (ht : t.Sound) (hfits : fitsMemory k w t.capacity = true) :
    t.grownCapacityInWords? = some t.grownCapacity := by
  have htwice := ht.succ_live_mul_le hfits
  have hproduct : (t.live + 1) * k.load.den ≤ maxWord := by omega
  have hvalues : t.live + 1 ≤ maxWord :=
    (Nat.le_mul_of_pos_right _ k.load_den_pos).trans hproduct
  rw [grownCapacityInWords?, word?_eq_some hvalues]
  simp only [Option.bind_eq_bind, Option.bind_some]
  rw [word?_eq_some hproduct, Option.bind_some, word?_eq_some htwice, Option.bind_some,
    word?_eq_some (ht.length.mul_num_lt hfits).le, Option.bind_some,
    word?_eq_some (mul_two_le_of_fitsMemory hfits), grownCapacity]
  split
  · rfl
  · rfl

end Sound

/-! ### Tables in use -/

/-- What is asked of the arithmetic of a table. -/
structure ExactInWords (t : Table k P) : Prop where
  /-- A machine finds the table over its limit with some more values just if it is. -/
  overLimit : ∀ n, t.overLimitInWords? n =
    some (decide (t.capacity * k.load.num < (t.live + t.tombstones + n) * k.load.den))
  /-- It finds the number of slots to go on with, and nothing overflows on the way. -/
  grownCapacity : t.grownCapacityInWords? = some t.grownCapacity
  /-- Twice the number of slots is a word, whether it is asked for or not. -/
  double : word? (t.capacity * 2) = some (t.capacity * 2)

theorem Sound.exactInWords {t : Table k P} (ht : t.Sound)
    (hfits : fitsMemory k w t.capacity = true) : t.ExactInWords where
  overLimit n := ht.overLimitInWords?_eq hfits n
  grownCapacity := ht.grownCapacityInWords?_eq hfits
  double := word?_eq_some (mul_two_le_of_fitsMemory hfits)

/-- The first slots of a table fit into memory, and there is nothing in them. -/
theorem Sound.exactInWords_allocated {t : Table k P} (ht : t.Sound)
    (hfits : fitsMemory k w t.capacity = true) : t.allocated.val.ExactInWords := by
  by_cases hcap : t.capacity = 0
  · obtain ⟨hsound, -, hslots, -⟩ := ht.resized_minSlots hcap
    have hfirst : fitsMemory k 0 minSlots = true := by cases k <;> decide
    rw [allocated, if_pos hcap]
    exact hsound.exactInWords (hslots ▸ hfirst)
  · rw [allocated_eq_pure hcap]
    exact ht.exactInWords hfits

end Table

/-- **The arithmetic of tables is exact.**  In the table of every set and bag of whatever kind, if
it fits into memory, a machine finds out in saturating arithmetic whether any number of values would
be too many, and in arithmetic that nothing checks how many slots to go on with.  No sum or product
on the way overflows, and twice the number of slots is a word.  The same goes for the first slots of
a table that has none, which `entry` gives it before it asks. -/
theorem loads_exact [Payload P] {t : Table k P} (h : t.InUse)
    (hfits : fitsMemory k (Payload.width P) t.capacity = true) :
    t.ExactInWords ∧ t.allocated.val.ExactInWords :=
  ⟨h.sound.exactInWords hfits, h.sound.exactInWords_allocated hfits⟩

/-- For example the longest table that bytes can have: three in four of its slots may be in use, one
more is too many, and so is the greatest word.  Six bytes fill a table of eight slots, and with the
seventh it has to double. -/
theorem loads_exact_bytes :
    let byte : ℕ → Scalar .u8 := fun n => (Scalar.ofBits? .u8 (UInt64.ofNat n)).getD default
    let s : ScalarSet .u8 := ⟨.ofSlots (2 ^ 62)⟩
    let six := (ScalarSet.empty.extend ((List.range 6).map byte)).val
    s.table.InUse ∧ fitsMemory .u8 0 s.table.capacity = true ∧
      s.table.overLimitInWords? (3 * 2 ^ 60) = some false ∧
      s.table.overLimitInWords? (3 * 2 ^ 60 + 1) = some true ∧
      s.table.overLimitInWords? maxWord = some true ∧
      word? (s.table.capacity * 2) = some (2 ^ 63) ∧
      six.table.InUse ∧ fitsMemory .u8 0 six.table.capacity = true ∧
      six.table.overLimitInWords? 1 = some true ∧ six.table.grownCapacityInWords? = some 16 := by
  intro byte s six
  have hcap : s.table.capacity = 2 ^ 62 := Table.capacity_ofSlots _
  have hused : s.table.live + s.table.tombstones = 0 := rfl
  have hs : s.table.InUse := .set (.withCapacity (n := 3 * 2 ^ 60 - 1) rfl)
  have hfits : fitsMemory .u8 0 s.table.capacity = true := by
    rw [hcap]
    decide
  have hsix : six.table.InUse := .set (.extend _ .empty)
  obtain ⟨hfits', hfull, hgrown⟩ : fitsMemory .u8 0 six.table.capacity = true ∧
      six.table.overLimit 1 = true ∧ six.table.grownCapacity = 16 := by
    simp only [six, byte]
    decide +kernel
  obtain ⟨⟨hover, -, hdouble⟩, -⟩ := loads_exact hs hfits
  obtain ⟨⟨hover', hgrown', -⟩, -⟩ := loads_exact hsix hfits'
  rw [hcap] at hover hdouble
  rw [hused] at hover
  exact ⟨hs, hfits, (hover _).trans (by decide), (hover _).trans (by decide),
    (hover _).trans (by decide), by rw [hcap]; exact hdouble, hsix, hfits',
    (hover' 1).trans (congrArg some hfull), hgrown'.trans (congrArg some hgrown)⟩

end Slotted
