import Mathlib.Algebra.Order.Ring.Nat
import Mathlib.Order.Bounds.Defs
import Mathlib.Order.MinMax
import Slotted.Table.Sizing

/-!
# The lengths of tables

A table without slots, or a power of two of them and at least eight: these are the lengths that the
operations of a table ask for.  The number of slots for a given number of values is one of them, it
has room for the values below the load limit, and it is less than twice what they need.

## Main definitions

* `IsTableLength` — none, or a power of two that is at least `minSlots`.
* `Needs` — the least such length for a number of values.
* `ExactSlots` — what is asked of the answers of `slotsFor?`.

## Main results

* `isTableLength_slotsFor?` — what `slotsFor?` answers is such a length.
* `lt_mul_of_slotsFor?` — it has room for the values.
* `slotsFor?_eq_some_iff` — it is the least such length, if that can be computed in words.
* `exists_slotsFor?_eq` — it answers, and with how much, for numbers that are far from the bound.
* `slots_exact` — it answers with the least number of slots, exactly if that is a word, and a
  machine computes it without overflow.
* `Load.exceededByWord_eq` — saturating arithmetic decides on the load as exact arithmetic does.
-/

namespace Slotted

/-- The lengths that tables have: none, or a power of two that is at least `minSlots`. -/
def IsTableLength (n : ℕ) : Prop := n = 0 ∨ minSlots ≤ n ∧ n.isPowerOfTwo

theorem isTableLength_zero : IsTableLength 0 := Or.inl rfl

theorem isTableLength_minSlots : IsTableLength minSlots := Or.inr ⟨le_rfl, 3, rfl⟩

theorem IsTableLength.isPowerOfTwo {n : ℕ} (h : IsTableLength n) (hn : n ≠ 0) :
    n.isPowerOfTwo := by
  rcases h with h | h
  · exact absurd h hn
  · exact h.2

theorem IsTableLength.le_of_ne_zero {n : ℕ} (h : IsTableLength n) (hn : n ≠ 0) :
    minSlots ≤ n := by
  rcases h with h | h
  · exact absurd h hn
  · exact h.1

theorem IsTableLength.mul_two {n : ℕ} (h : IsTableLength n) : IsTableLength (n * 2) := by
  rcases h with rfl | ⟨hle, hpow⟩
  · exact isTableLength_zero
  · exact Or.inr ⟨by omega, Nat.isPowerOfTwo_mul_two_of_isPowerOfTwo hpow⟩

theorem IsTableLength.max {m n : ℕ} (hm : IsTableLength m) (hn : IsTableLength n) :
    IsTableLength (max m n) := by
  rcases max_choice m n with h | h <;> rw [h]
  · exact hm
  · exact hn

theorem isTableLength_max_minSlots {n : ℕ} (hn : n.isPowerOfTwo) :
    IsTableLength (max minSlots n) := by
  refine Or.inr ⟨le_max_left _ _, ?_⟩
  rcases max_choice minSlots n with h | h <;> rw [h]
  · exact ⟨3, rfl⟩
  · exact hn

/-! ### The least power of two above a number -/

theorem isPowerOfTwo_powerOfTwoAbove (n : ℕ) : (powerOfTwoAbove n).isPowerOfTwo := by
  unfold powerOfTwoAbove
  split
  · exact Nat.isPowerOfTwo_one
  · exact ⟨_, rfl⟩

theorem lt_powerOfTwoAbove (n : ℕ) : n < powerOfTwoAbove n := by
  unfold powerOfTwoAbove
  split
  · omega
  · exact Nat.lt_log2_self

theorem powerOfTwoAbove_le {n : ℕ} (hn : n ≠ 0) : powerOfTwoAbove n ≤ 2 * n := by
  have hlog := Nat.log2_self_le hn
  rw [powerOfTwoAbove, if_neg hn, Nat.pow_eq, Nat.pow_succ]
  omega

/-- No power of two above the number is less. -/
theorem powerOfTwoAbove_le_of_lt {m n : ℕ} (hm : m.isPowerOfTwo) (h : n < m) :
    powerOfTwoAbove n ≤ m := by
  obtain ⟨e, rfl⟩ := hm
  unfold powerOfTwoAbove
  split
  · exact Nat.one_le_two_pow
  · next hn => exact Nat.pow_le_pow_right (by decide) ((Nat.log2_lt hn).2 h)

/-! ### Slots for a number of values -/

theorem slotsFor?_zero (load : Load) : slotsFor? 0 load = some 0 := rfl

theorem slotsFor?_eq_some_iff_of_ne {n s : ℕ} {load : Load} (hn : n ≠ 0) :
    slotsFor? n load = some s ↔ n * load.den ≤ maxWord ∧
      powerOfTwoAbove (n * load.den / load.num) ≤ maxWord ∧
      s = max minSlots (powerOfTwoAbove (n * load.den / load.num)) := by
  unfold slotsFor?
  rw [if_neg hn]
  split
  · next hword => exact iff_of_false nofun fun h => absurd h.1 (Nat.not_le.2 hword)
  · next hword =>
    simp only
    split
    · next hpower => exact iff_of_false nofun fun h => absurd h.2.1 (Nat.not_le.2 hpower)
    · next hpower =>
      rw [Option.some.injEq, eq_comm]
      simp only [Nat.le_of_not_lt hword, Nat.le_of_not_lt hpower, true_and]

theorem isTableLength_slotsFor? {n s : ℕ} {load : Load} (h : slotsFor? n load = some s) :
    IsTableLength s := by
  rcases Nat.eq_zero_or_pos n with rfl | hn
  · rw [slotsFor?_zero] at h
    exact Or.inl (Option.some.inj h).symm
  · rw [((slotsFor?_eq_some_iff_of_ne hn.ne').1 h).2.2]
    exact isTableLength_max_minSlots (isPowerOfTwo_powerOfTwoAbove _)

/-- A number of values for which there are slots is a machine word. -/
theorem le_maxWord_of_slotsFor? {n s : ℕ} {load : Load} (hden : 0 < load.den)
    (h : slotsFor? n load = some s) : n ≤ maxWord := by
  by_cases hn : n = 0
  · rw [hn]
    exact Nat.zero_le _
  · exact (Nat.le_mul_of_pos_right n hden).trans ((slotsFor?_eq_some_iff_of_ne hn).1 h).1

/-- The number of slots that values need: none for none, else the least length of a table that has
room for them below its load limit. -/
structure Needs (load : Load) (n slots : ℕ) : Prop where
  /-- It is the length of a table. -/
  length : IsTableLength slots
  /-- No values need no slots. -/
  eq_zero : n = 0 → slots = 0
  /-- There is room for any others. -/
  room : n ≠ 0 → n * load.den < slots * load.num
  /-- There is none at any lesser length. -/
  least : ∀ m, IsTableLength m → n * load.den < m * load.num → slots ≤ m

theorem needs_zero (load : Load) : Needs load 0 0 where
  length := isTableLength_zero
  eq_zero _ := rfl
  room h := absurd rfl h
  least _ _ _ := Nat.zero_le _

theorem needs_max {n : ℕ} {load : Load} (hnum : 0 < load.num) (hn : n ≠ 0) :
    Needs load n (max minSlots (powerOfTwoAbove (n * load.den / load.num))) where
  length := isTableLength_max_minSlots (isPowerOfTwo_powerOfTwoAbove _)
  eq_zero h := absurd h hn
  room _ := by
    rw [← Nat.div_lt_iff_lt_mul hnum]
    exact (lt_powerOfTwoAbove _).trans_le (le_max_right _ _)
  least m hm hroom := by
    rw [← Nat.div_lt_iff_lt_mul hnum] at hroom
    have hne : m ≠ 0 := Nat.ne_zero_of_lt hroom
    apply max_le (hm.le_of_ne_zero hne)
    exact powerOfTwoAbove_le_of_lt (hm.isPowerOfTwo hne) hroom

theorem Needs.unique {n s s' : ℕ} {load : Load} (h : Needs load n s) (h' : Needs load n s') :
    s = s' := by
  by_cases hn : n = 0
  · rw [h.eq_zero hn, h'.eq_zero hn]
  · exact le_antisymm (h.least _ h'.length (h'.room hn)) (h'.least _ h.length (h.room hn))

theorem exists_needs {load : Load} (hnum : 0 < load.num) (n : ℕ) : ∃ s, Needs load n s := by
  by_cases hn : n = 0
  · rw [hn]
    exact ⟨0, needs_zero load⟩
  · exact ⟨_, needs_max hnum hn⟩

/-- **The slots are as many as the values need**, where those and the numbers on the way to them are
machine words. -/
theorem slotsFor?_eq_some_iff {n s : ℕ} {load : Load} (hnum : 0 < load.num) :
    slotsFor? n load = some s ↔ Needs load n s ∧ n * load.den ≤ maxWord ∧ s ≤ maxWord := by
  by_cases hn : n = 0
  · rw [hn, slotsFor?_zero, Option.some.injEq, Nat.zero_mul]
    constructor
    · rintro rfl
      exact ⟨needs_zero load, Nat.zero_le _, Nat.zero_le _⟩
    · rintro ⟨hs, -⟩
      exact (hs.eq_zero rfl).symm
  · have hneeds := needs_max hnum hn
    have hmin : minSlots ≤ maxWord := by decide
    rw [slotsFor?_eq_some_iff_of_ne hn]
    constructor
    · rintro ⟨hword, hpower, rfl⟩
      exact ⟨hneeds, hword, max_le hmin hpower⟩
    · rintro ⟨hs, hword, hle⟩
      rw [hs.unique hneeds] at hle
      exact ⟨hword, (le_max_right _ _).trans hle, hs.unique hneeds⟩

/-- If the slots that values need, or the numbers on the way to them, are no words, there is no
answer. -/
theorem Needs.slotsFor?_eq_none_iff {n s : ℕ} {load : Load} (hnum : 0 < load.num)
    (h : Needs load n s) :
    slotsFor? n load = none ↔ ¬ (n * load.den ≤ maxWord ∧ s ≤ maxWord) := by
  rw [Option.eq_none_iff_forall_ne_some, ← not_exists, not_iff_not]
  constructor
  · rintro ⟨s', hs'⟩
    obtain ⟨hneeds, hwords⟩ := (slotsFor?_eq_some_iff hnum).1 hs'
    rwa [h.unique hneeds]
  · intro hwords
    exact ⟨s, (slotsFor?_eq_some_iff hnum).2 ⟨h, hwords⟩⟩

/-- The slots have room for the values, and some load to spare. -/
theorem lt_mul_of_slotsFor? {n s : ℕ} {load : Load} (hnum : 0 < load.num) (hn : n ≠ 0)
    (h : slotsFor? n load = some s) : n * load.den < s * load.num :=
  ((slotsFor?_eq_some_iff hnum).1 h).1.room hn

/-- Numbers that are far from the bound get an answer, of less than twice what they need. -/
theorem exists_slotsFor?_eq {n : ℕ} {load : Load} (hload : load.num ≤ load.den)
    (hnum : 0 < load.num) (hn : n ≠ 0) (hword : n * load.den ≤ maxWord)
    (htwice : 2 * (n * load.den / load.num) ≤ maxWord) :
    ∃ s, slotsFor? n load = some s ∧ s ≤ max minSlots (2 * (n * load.den / load.num)) := by
  -- the doubling is bounded by the number itself, so it must not be zero
  have hquot : n * load.den / load.num ≠ 0 := by
    have hmul : load.num ≤ n * load.den :=
      le_trans hload (Nat.le_mul_of_pos_left _ (Nat.pos_of_ne_zero hn))
    exact (Nat.div_pos hmul hnum).ne'
  have hle := powerOfTwoAbove_le hquot
  have hmin : minSlots ≤ maxWord := by decide
  refine ⟨max minSlots (powerOfTwoAbove (n * load.den / load.num)), ?_, max_le_max_left _ hle⟩
  rw [slotsFor?_eq_some_iff hnum]
  exact ⟨needs_max hnum hn, hword, max_le hmin (hle.trans htwice)⟩

/-! ### Slots that are exactly what is needed -/

/-- The slots that values need are the least power of two, from eight on, with room for them. -/
theorem Needs.isLeast {n s : ℕ} {load : Load} (h : Needs load n s) (hn : n ≠ 0) :
    IsLeast {m : ℕ | minSlots ≤ m ∧ m.isPowerOfTwo ∧ n * load.den < m * load.num} s := by
  have hroom := h.room hn
  have hne : s ≠ 0 := by
    rintro rfl
    rw [Nat.zero_mul] at hroom
    exact Nat.not_lt_zero _ hroom
  refine ⟨⟨h.length.le_of_ne_zero hne, h.length.isPowerOfTwo hne, hroom⟩, ?_⟩
  rintro m ⟨hmin, hpow, hm⟩
  exact h.least m (Or.inr ⟨hmin, hpow⟩) hm

/-- They are a word just if one of the powers of two that are words has room for the values. -/
theorem Needs.le_maxWord_iff {n s : ℕ} {load : Load} (h : Needs load n s) (hn : n ≠ 0) :
    s ≤ maxWord ↔ ∃ e ≤ 63, n * load.den < 2 ^ e * load.num := by
  obtain ⟨⟨-, ⟨e, rfl⟩, hroom⟩, hleast⟩ := h.isLeast hn
  constructor
  · intro hword
    have he : e < 64 := (Nat.pow_lt_pow_iff_right (by decide)).1 (Nat.lt_succ_of_le hword)
    exact ⟨e, Nat.le_of_lt_succ he, hroom⟩
  · rintro ⟨e', he', hroom'⟩
    -- below eight slots the power itself is no length of a table, but eight of them are a word
    have hmax : n * load.den < max minSlots (2 ^ e') * load.num :=
      hroom'.trans_le (Nat.mul_le_mul_right _ (le_max_right _ _))
    have hle := h.least _ (isTableLength_max_minSlots ⟨e', rfl⟩) hmax
    have hpow : 2 ^ e' ≤ 2 ^ 63 := Nat.pow_le_pow_right (by decide) he'
    exact hle.trans (max_le (by decide) (hpow.trans (by decide)))

/-- The sum that nothing checks: a product with an even number is not the greatest word, and a
quotient by three is far from it. -/
theorem quotient_lt_maxWord (k : Kind) {n : ℕ} (h : n * k.load.den ≤ maxWord) :
    n * k.load.den / k.load.num < maxWord := by
  have hmax : maxWord = 0xffffffffffffffff := rfl
  rcases k.narrow_or_wide with ⟨-, hload⟩ | ⟨-, hload⟩
  · rw [hload] at h ⊢
    have hprod : n * 4 ≤ maxWord := h
    show n * 4 / 3 < maxWord
    omega
  · rw [hload] at h ⊢
    have hprod : n * 2 ≤ maxWord := h
    show n * 2 / 1 < maxWord
    omega

theorem slotsForInWords?_eq (k : Kind) (n : ℕ) :
    slotsForInWords? n k.load = some (slotsFor? n k.load) := by
  unfold slotsForInWords? slotsFor?
  split
  · rfl
  · by_cases hword : n * k.load.den ≤ maxWord
    · have hsum := quotient_lt_maxWord k hword
      rw [word?_eq_some hword, if_neg (Nat.not_lt.2 hword)]
      simp only [Option.bind_eq_bind]
      rw [word?_eq_some hsum, Option.bind_some, powerOfTwoFrom_succ, word?]
      split
      · next hle => rw [if_neg (Nat.not_lt.2 hle), Option.map_some, Option.pure_def]
      · next hlt => rw [if_pos (Nat.lt_of_not_le hlt), Option.map_none, Option.pure_def]
    · rw [word?, if_neg hword, if_pos (Nat.lt_of_not_le hword)]

/-- What is asked of the number of slots that `slotsFor?` answers for `n` values. -/
structure ExactSlots (load : Load) (n : ℕ) : Prop where
  /-- It is the least power of two, from eight on, with room for the values. -/
  isLeast : ∀ s, slotsFor? n load = some s →
    IsLeast {m : ℕ | minSlots ≤ m ∧ m.isPowerOfTwo ∧ n * load.den < m * load.num} s
  /-- Where the product is a word, there is none just if no power of two that is one has room. -/
  eq_none_iff : n * load.den ≤ maxWord →
    (slotsFor? n load = none ↔ ∀ e ≤ 63, ¬ n * load.den < 2 ^ e * load.num)
  /-- There is none where it is not. -/
  eq_none : maxWord < n * load.den → slotsFor? n load = none
  /-- A machine gives the same answer, and the sum on the way to it does not overflow. -/
  inWords : slotsForInWords? n load = some (slotsFor? n load)

/-- **The number of slots is exact.**  For every number of values, at the load of every kind, the
answer is the least power of two from eight on that has room for them.  There is none just if even
the greatest power of two that is a word has no room, or if the product that room is compared with
is no word; and nothing overflows on the way that is not checked. -/
theorem slots_exact (k : Kind) {n : ℕ} (hn : n ≠ 0) : ExactSlots k.load n where
  isLeast s hs := ((slotsFor?_eq_some_iff k.load_num_pos).1 hs).1.isLeast hn
  eq_none_iff hword := by
    obtain ⟨s, hs⟩ := exists_needs k.load_num_pos n
    rw [hs.slotsFor?_eq_none_iff k.load_num_pos, hs.le_maxWord_iff hn]
    simp only [hword, true_and, not_exists, not_and]
  eq_none hlt := by
    obtain ⟨s, hs⟩ := exists_needs k.load_num_pos n
    rw [hs.slotsFor?_eq_none_iff k.load_num_pos]
    exact fun hwords => Nat.not_le.2 hlt hwords.1
  inWords := slotsForInWords?_eq k n

/-- At the limits: six bytes just fail to fit into eight slots.  Of wider kinds, one less than
`2 ^ 62` values need the longest table that can be counted, one more has no room in any, and the sum
for the greatest number of them is the greatest word. -/
theorem slots_exact_limits :
    ExactSlots (Kind.load .u8) 6 ∧ slotsFor? 6 (Kind.load .u8) = some 16 ∧
      ExactSlots (Kind.load .i64) (2 ^ 62 - 1) ∧
      slotsFor? (2 ^ 62 - 1) (Kind.load .i64) = some (2 ^ 63) ∧
      ExactSlots (Kind.load .i64) (2 ^ 62) ∧ slotsFor? (2 ^ 62) (Kind.load .i64) = none ∧
      (∀ e ≤ 63, ¬ 2 ^ 62 * 2 < 2 ^ e * 1) ∧
      ExactSlots (Kind.load .char) (2 ^ 63 - 1) ∧
      slotsForInWords? (2 ^ 63 - 1) (Kind.load .char) = some none := by
  have hnone : slotsFor? (2 ^ 62) (Kind.load .i64) = none := by decide
  have htop := slots_exact .i64 (n := 2 ^ 62) (by decide)
  exact ⟨slots_exact .u8 (by decide), by decide, slots_exact .i64 (by decide), by decide, htop,
    hnone, (htop.eq_none_iff (by decide)).1 hnone, slots_exact .char (by decide), by decide⟩

/-! ### The load in saturating arithmetic -/

/-- Where the limit of a table is below the greatest word, saturating arithmetic is exact enough. -/
theorem Load.exceededByWord_eq {load : Load} {used additional capacity : ℕ} (hden : 0 < load.den)
    (hlimit : capacity * load.num < maxWord) :
    load.exceededByWord used additional capacity
      = load.exceededBy (used + additional) capacity := by
  rw [exceededByWord, exceededBy, saturatingMul, saturatingMul, saturatingAdd,
    min_eq_left hlimit.le, decide_eq_decide]
  rcases Nat.le_total (used + additional) maxWord with hle | hge
  · rw [min_eq_left hle, lt_min_iff]
    exact and_iff_left hlimit
  · -- the sum is cut off, and is over the limit all the same
    have hcut : maxWord ≤ maxWord * load.den := Nat.le_mul_of_pos_right _ hden
    rw [min_eq_right hge, min_eq_right hcut]
    exact iff_of_true hlimit (hlimit.trans_le (hcut.trans (Nat.mul_le_mul_right _ hge)))

/-- The values of a table that fits into memory are within one allocation. -/
theorem mul_width_le_of_fitsMemory {k : Kind} {w n : ℕ} (h : fitsMemory k w n = true) :
    n * k.width ≤ maxAllocation := by
  rw [fitsMemory, Bool.and_eq_true, decide_eq_true_eq] at h
  exact h.1

/-- So twice their number is a word. -/
theorem mul_two_le_of_fitsMemory {k : Kind} {w n : ℕ} (h : fitsMemory k w n = true) :
    n * 2 ≤ maxWord := by
  have hslots : n ≤ maxAllocation :=
    (Nat.le_mul_of_pos_right _ k.width_pos).trans (mul_width_le_of_fitsMemory h)
  exact (Nat.mul_le_mul_right _ hslots).trans (by decide)

/-- A table whose values fit into memory has a limit below the greatest word. -/
theorem IsTableLength.mul_num_lt {k : Kind} {w n : ℕ} (h : IsTableLength n)
    (hfits : fitsMemory k w n = true) : n * k.load.num < maxWord := by
  rcases h with rfl | ⟨-, m, rfl⟩
  · rw [Nat.zero_mul]
    decide
  · -- a power of two below the largest allocation is half of its bound at most
    have hlt : 2 ^ m < 2 ^ 63 := by
      have hbytes := mul_width_le_of_fitsMemory hfits
      have hmul : 2 ^ m ≤ 2 ^ m * k.width := Nat.le_mul_of_pos_right _ k.width_pos
      have hmax : maxAllocation = 2 ^ 63 - 1 := rfl
      omega
    have hexp : m ≤ 62 := Nat.lt_succ_iff.1 ((Nat.pow_lt_pow_iff_right (by decide)).1 hlt)
    calc 2 ^ m * k.load.num ≤ 2 ^ 62 * 3 :=
          Nat.mul_le_mul (Nat.pow_le_pow_right (by decide) hexp) (by cases k <;> decide)
      _ < maxWord := by decide

end Slotted
