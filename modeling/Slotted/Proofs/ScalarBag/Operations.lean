import Mathlib.Algebra.BigOperators.Group.Multiset.Basic
import Slotted.Proofs.Table.Filter
import Slotted.Proofs.Table.Rebuild
import Slotted.ScalarBag.Iter

/-!
# What each operation does to a bag

A bag keeps its counts beside the values of a table and their sum in a field of its own.  It is
*sound* when the table is, no count is zero, and the field is the sum of the counts, which is a
machine word.  The operations on the count of one value all take the entry of the value out of the
contents and put another one in, so they are described by the count, the value that stands for the
key, and the rest of the contents, which is the same before and after.

## Main definitions

* `ScalarBag.Sound` — the invariant of bags.
* `ScalarBag.Splits` — the contents as the entry of one value, and the rest.
* `ScalarBag.freed` — a bag after some of its entries were freed.

## Main results

* `ScalarBag.Sound.exists_splits` — the contents split at each value.
* `ScalarBag.Splits.exists_addOccurrences`, `exists_removeOccurrences`, `exists_setOccurrences` —
  the operations on the count of a value.
* `ScalarBag.addOccurrences_of_overflow`, `setOccurrences_of_overflow` — an addition that would
  overflow changes nothing.
* `ScalarBag.exists_retainM` — what a predicate with effects leaves.
* `ScalarBag.sound_withCapacity`, `sound_reserve` — room asked for in advance.
-/

namespace Slotted
namespace ScalarBag

variable {k : Kind} {b b' : ScalarBag k} {v w : Scalar k} {m n : ℕ}
  {R : Multiset (Scalar k × ℕ)}

/-- The sum of the counts in a multiset of entries. -/
def countSum (R : Multiset (Scalar k × ℕ)) : ℕ := (R.map Prod.snd).sum

@[simp] theorem countSum_zero : countSum (0 : Multiset (Scalar k × ℕ)) = 0 := rfl

@[simp] theorem countSum_add (R R' : Multiset (Scalar k × ℕ)) :
    countSum (R + R') = countSum R + countSum R' := by
  rw [countSum, Multiset.map_add, Multiset.sum_add]
  rfl

/-- The invariant of bags. -/
structure Sound (b : ScalarBag k) : Prop where
  /-- The table is sound. -/
  table : b.table.Sound
  /-- No count is zero. -/
  pos : ∀ c ∈ b.table.contents, 0 < c.2
  /-- The total is the sum of the counts. -/
  total_eq : b.total = countSum b.table.contents
  /-- The total is a machine word. -/
  total_le : b.total ≤ maxWord

/-! ### The entry of one value -/

/-- The contents of a bag with nothing but `n` occurrences of a value. -/
def single (v : Scalar k) (n : ℕ) : Multiset (Scalar k × ℕ) := if n = 0 then 0 else {(v, n)}

@[simp] theorem single_zero (v : Scalar k) : single v 0 = 0 := rfl

theorem single_of_ne_zero (v : Scalar k) (hn : n ≠ 0) : single v n = {(v, n)} := if_neg hn

@[simp] theorem countSum_single (v : Scalar k) (n : ℕ) : countSum (single v n) = n := by
  by_cases hn : n = 0
  · rw [hn]
    rfl
  · rw [single_of_ne_zero v hn, countSum, Multiset.map_singleton, Multiset.sum_singleton]

theorem mem_single_iff {c : Scalar k × ℕ} : c ∈ single v n ↔ c = (v, n) ∧ n ≠ 0 := by
  by_cases hn : n = 0
  · rw [hn, single_zero]
    simp
  · rw [single_of_ne_zero v hn, Multiset.mem_singleton]
    simp [hn]

/-- The contents of a bag are `m` occurrences of `v`, which `w` stands for, and `R`. -/
structure Splits (b : ScalarBag k) (v w : Scalar k) (m : ℕ) (R : Multiset (Scalar k × ℕ)) :
    Prop where
  /-- The contents are the entry of the value and the rest. -/
  contents_eq : b.table.contents = single w m + R
  /-- The value that stands for the key has that key. -/
  key_eq : w.key = v.key
  /-- The rest has other keys. -/
  key_ne : ∀ c ∈ R, c.1.key ≠ v.key
  /-- A value that does not occur stands for itself. -/
  eq_of_zero : m = 0 → w = v

theorem Splits.mem_contents (h : b.Splits v w m R) (hm : m ≠ 0) : (w, m) ∈ b.table.contents := by
  rw [h.contents_eq, Multiset.mem_add, mem_single_iff]
  exact Or.inl ⟨rfl, hm⟩

/-- The rest of the contents is what has other keys. -/
theorem Splits.mem_rest_iff (h : b.Splits v w m R) {c : Scalar k × ℕ} :
    c ∈ R ↔ c ∈ b.table.contents ∧ c.1.key ≠ v.key := by
  rw [h.contents_eq, Multiset.mem_add]
  constructor
  · intro hc
    exact ⟨Or.inr hc, h.key_ne c hc⟩
  · rintro ⟨hc | hc, hne⟩
    · have hkey := congrArg (fun c : Scalar k × ℕ => c.1.key) (mem_single_iff.1 hc).1
      exact absurd (hkey.trans h.key_eq) hne
    · exact hc

theorem Splits.mem_keys_iff (h : b.Splits v w m R) : v.key ∈ b.table.keys ↔ m ≠ 0 := by
  rw [Table.keys, Multiset.mem_map]
  constructor
  · rintro ⟨c, hc, hkey⟩
    rw [h.contents_eq, Multiset.mem_add] at hc
    rcases hc with hc | hc
    · exact (mem_single_iff.1 hc).2
    · exact absurd hkey (h.key_ne c hc)
  · intro hm
    exact ⟨(w, m), h.mem_contents hm, h.key_eq⟩

theorem Splits.pos (h : b.Splits v w m R) (hb : b.Sound) : ∀ c ∈ R, 0 < c.2 :=
  fun c hc => hb.pos c (h.mem_rest_iff.1 hc).1

theorem Splits.total_eq (h : b.Splits v w m R) (hb : b.Sound) : b.total = m + countSum R := by
  rw [hb.total_eq, h.contents_eq, countSum_add, countSum_single]

theorem Splits.countSum_add_le (h : b.Splits v w m R) (hb : b.Sound)
    (hle : b.total + n ≤ maxWord) : countSum R + n ≤ maxWord := by
  rw [h.total_eq hb] at hle
  omega

/-- A bag is sound if its table is, and its total counts the value and the rest. -/
theorem Splits.sound (h : b.Splits v w m R) (ht : b.table.Sound) (hpos : ∀ c ∈ R, 0 < c.2)
    (htotal : b.total = m + countSum R) (hle : b.total ≤ maxWord) : b.Sound where
  table := ht
  pos := by
    intro c hc
    rw [h.contents_eq, Multiset.mem_add] at hc
    rcases hc with hc | hc
    · obtain ⟨rfl, hm⟩ := mem_single_iff.1 hc
      exact Nat.pos_of_ne_zero hm
    · exact hpos c hc
  total_eq := by rw [htotal, h.contents_eq, countSum_add, countSum_single]
  total_le := hle

/-- A value that does not occur. -/
theorem splits_of_notMem (h : v.key ∉ b.table.keys) : b.Splits v v 0 b.table.contents where
  contents_eq := by rw [single_zero, Multiset.zero_add]
  key_eq := rfl
  key_ne := fun _ hc hkey => h (hkey ▸ Multiset.mem_map_of_mem _ hc)
  eq_of_zero := fun _ => rfl

/-- A value that does occur, and the slot that it is in. -/
theorem Sound.splits_of_live (hb : b.Sound) {i : ℕ}
    (hi : b.table.slots[i]? = some (.live w m)) (hkey : w.key = v.key) :
    b.Splits v w m (b.table.vacate i).contents := by
  have hcontents := Table.contents_vacate hi
  have hm : m ≠ 0 := (hb.pos (w, m) (Table.mem_contents_iff.2 ⟨i, hi⟩)).ne'
  refine ⟨?_, hkey, fun c hc => ?_, fun h => absurd h hm⟩
  · rw [single_of_ne_zero w hm, Multiset.singleton_add, hcontents]
  · rw [← hkey]
    exact ((hb.table.mem_iff_of_contents_eq_cons hcontents).1 hc).2.symm

/-- The contents split at each value. -/
theorem Sound.exists_splits (hb : b.Sound) (v : Scalar k) : ∃ w m R, b.Splits v w m R := by
  by_cases hmem : v.key ∈ b.table.keys
  · obtain ⟨i, w, m, hi, hkey⟩ := Table.mem_keys_iff.1 hmem
    exact ⟨w, m, _, hb.splits_of_live hi hkey⟩
  · exact ⟨v, 0, _, splits_of_notMem hmem⟩

/-- The slot of a value that occurs. -/
theorem Splits.exists_slot (h : b.Splits v w m R) (hb : b.Sound) (hm : m ≠ 0) :
    ∃ i, b.table.find v = some i ∧ b.table.slots[i]? = some (.live w m) ∧
      (b.table.vacate i).contents = R := by
  obtain ⟨i, hi⟩ := Table.mem_contents_iff.1 (h.mem_contents hm)
  refine ⟨i, hb.table.find_eq_some_iff.2 ⟨w, m, hi, h.key_eq⟩, hi, ?_⟩
  have hcontents := Table.contents_vacate hi
  rw [h.contents_eq, single_of_ne_zero w hm, Multiset.singleton_add] at hcontents
  exact ((Multiset.cons_inj_right _).1 hcontents).symm

/-- The slot of a value freed. -/
theorem Splits.vacate (h : b.Splits v w m R) {i : ℕ} (hR : (b.table.vacate i).contents = R)
    (total : ℕ) : Splits ⟨b.table.vacate i, total⟩ v v 0 R where
  contents_eq := by rw [single_zero, Multiset.zero_add, hR]
  key_eq := rfl
  key_ne := h.key_ne
  eq_of_zero := fun _ => rfl

/-- Another count in the slot of a value. -/
theorem Splits.setPayload (h : b.Splits v w m R) (hm : m ≠ 0) {i q : ℕ}
    (hi : b.table.slots[i]? = some (.live w m)) (hq : q ≠ 0) (total : ℕ) :
    Splits ⟨b.table.setPayload i q, total⟩ v w q R := by
  obtain ⟨R', hold, hnew⟩ := Table.exists_contents_setPayload hi q
  have hrest : R' = R := by
    rw [h.contents_eq, single_of_ne_zero w hm, Multiset.singleton_add] at hold
    exact ((Multiset.cons_inj_right _).1 hold).symm
  refine ⟨?_, h.key_eq, h.key_ne, fun hzero => absurd hzero hq⟩
  rw [hnew, hrest, single_of_ne_zero w hq, Multiset.singleton_add]

/-! ### Asking for a count -/

theorem countAt_eq {i : ℕ} (hi : b.table.slots[i]? = some (.live w m)) : b.countAt i = m := by
  rw [countAt, Table.entry?_eq_some_iff.2 hi]
  rfl

theorem Splits.occurrencesOf_eq (h : b.Splits v w m R) (hb : b.Sound) :
    b.occurrencesOf v = m := by
  rw [occurrencesOf]
  by_cases hm : m = 0
  · have hnone := hb.table.find_eq_none_iff.2 (mt h.mem_keys_iff.1 (not_not.2 hm))
    simp only [hnone, hm]
  · obtain ⟨i, hfind, hi, -⟩ := h.exists_slot hb hm
    simp only [hfind, countAt_eq hi]

theorem occurrencesOf_eq_zero (hb : b.Sound) (h : v.key ∉ b.table.keys) :
    b.occurrencesOf v = 0 := (splits_of_notMem h).occurrencesOf_eq hb

theorem occurrencesOf_eq_of_mem (hb : b.Sound) (h : (w, m) ∈ b.table.contents)
    (hkey : w.key = v.key) : b.occurrencesOf v = m := by
  obtain ⟨i, hi⟩ := Table.mem_contents_iff.1 h
  exact (hb.splits_of_live hi hkey).occurrencesOf_eq hb

/-- Counts are asked for by key. -/
theorem occurrencesOf_congr (b : ScalarBag k) (h : v.key = w.key) :
    b.occurrencesOf v = b.occurrencesOf w := by
  rw [occurrencesOf, occurrencesOf, Table.find, Table.find, h, Scalar.hash_eq_of_key_eq h]

/-- Two bags that differ in the entry of one value agree on all others. -/
theorem Splits.occurrencesOf_eq_of_ne {w' u : Scalar k} (h : b.Splits v w m R)
    (h' : b'.Splits v w' n R) (hb : b.Sound) (hb' : b'.Sound) (hu : u.key ≠ v.key) :
    b'.occurrencesOf u = b.occurrencesOf u := by
  have hmem : ∀ c : Scalar k × ℕ, c.1.key = u.key →
      (c ∈ b'.table.contents ↔ c ∈ b.table.contents) := by
    intro c hc
    have hne : c.1.key ≠ v.key := by rwa [hc]
    have hrest := h'.mem_rest_iff.symm.trans (h.mem_rest_iff (c := c))
    simpa only [hne, ne_eq, not_false_eq_true, and_true] using hrest
  by_cases hkeys : u.key ∈ b.table.keys
  · obtain ⟨⟨x, q⟩, hx, hkey⟩ := Multiset.mem_map.1 hkeys
    rw [occurrencesOf_eq_of_mem hb hx hkey,
      occurrencesOf_eq_of_mem hb' ((hmem _ hkey).2 hx) hkey]
  · have hkeys' : u.key ∉ b'.table.keys := by
      intro hmem'
      obtain ⟨c, hc, hkey⟩ := Multiset.mem_map.1 hmem'
      exact hkeys (hkey ▸ Multiset.mem_map_of_mem _ ((hmem c hkey).1 hc))
    rw [occurrencesOf_eq_zero hb hkeys, occurrencesOf_eq_zero hb' hkeys']

theorem Splits.contains_eq (h : b.Splits v w m R) (hb : b.Sound) :
    b.contains v = decide (m ≠ 0) := by
  rw [Bool.eq_iff_iff, contains, Option.isSome_iff_ne_none, ne_eq, hb.table.find_eq_none_iff,
    not_not, h.mem_keys_iff, decide_eq_true_eq]

theorem distinctSize_eq_card (hb : b.Sound) : b.distinctSize = b.table.keys.card := by
  rw [Table.keys, Multiset.card_map]
  exact hb.table.live_eq_card

theorem coe_distinct (b : ScalarBag k) : (b.distinct : Multiset _) = b.table.contents :=
  Table.coe_map_entries b.table

theorem coe_map_key_distinct (b : ScalarBag k) :
    (b.distinct.map (fun c => c.1.key) : Multiset _) = b.table.keys := by
  rw [← Multiset.map_coe, coe_distinct]
  rfl

theorem mem_map_key_distinct_iff (b : ScalarBag k) {x : UInt64} :
    x ∈ b.distinct.map (fun c => c.1.key) ↔ x ∈ b.table.keys := by
  rw [← Multiset.mem_coe, coe_map_key_distinct]

theorem mem_distinct_iff {c : Scalar k × ℕ} : c ∈ b.distinct ↔ c ∈ b.table.contents := by
  rw [← Multiset.mem_coe, coe_distinct]

theorem length_distinct (hb : b.Sound) : b.distinct.length = b.distinctSize := by
  rw [← Multiset.coe_card, coe_distinct]
  exact hb.table.live_eq_card.symm

/-! ### Adding occurrences -/

theorem addCount?_eq_some {a c : ℕ} (h : a + c ≤ maxWord) : addCount? a c = some (a + c) := if_pos h

theorem addCount?_eq_none {a c : ℕ} (h : maxWord < a + c) : addCount? a c = none :=
  if_neg (Nat.not_le_of_lt h)

theorem addOccurrences_zero (b : ScalarBag k) (v : Scalar k) :
    b.addOccurrences v 0 = pure (.ok (b.occurrencesOf v), b) := rfl

/-- An addition that would overflow changes nothing, not even the layout. -/
theorem addOccurrences_of_overflow (hb : b.Sound) (v : Scalar k) (h : maxWord < b.total + n) :
    b.addOccurrences v n = pure (.error .countOverflow, b) := by
  have hle := hb.total_le
  rw [addOccurrences, if_neg (by omega), addCount?_eq_none h]

/-- More occurrences of a value that occurs. -/
theorem Splits.exists_addOccurrences_of_ne (h : b.Splits v w m R) (hb : b.Sound) (hm : m ≠ 0)
    (hn : n ≠ 0) (hle : b.total + n ≤ maxWord) :
    ∃ b', (b.addOccurrences v n).val = (.ok (m + n), b') ∧ b'.Sound ∧ b'.Splits v w (m + n) R := by
  obtain ⟨i, -, hi, hR⟩ := h.exists_slot hb hm
  rcases hb.table.entry_cases v with ⟨j, w', q, hentry, hj, hkey⟩ | ⟨t', j, -, -, hcontents, hready⟩
  · have hij := hb.table.distinct hi hj (h.key_eq.trans hkey.symm)
    subst hij
    have hsplits := h.setPayload hm hi (q := m + n) (by omega) (b.total + n)
    refine ⟨_, ?_, hsplits.sound (hb.table.setPayload i _) (h.pos hb) ?_ hle, hsplits⟩
    · rw [addOccurrences, if_neg hn, addCount?_eq_some hle]
      simp only [hentry, pure_bind, Table.entry?_eq_some_iff.2 hi, Option.map_some,
        Option.getD_some]
      rfl
    · show b.total + n = _
      rw [h.total_eq hb]
      omega
  · have habsent := hready.absent
    rw [Table.keys_congr hcontents] at habsent
    exact absurd (h.mem_keys_iff.2 hm) habsent

/-- The first occurrences of a value. -/
theorem Splits.exists_addOccurrences_of_eq (h : b.Splits v w 0 R) (hb : b.Sound)
    (hn : n ≠ 0) (hle : b.total + n ≤ maxWord) :
    ∃ b', (b.addOccurrences v n).val = (.ok n, b') ∧ b'.Sound ∧ b'.Splits v w n R := by
  have habsent : v.key ∉ b.table.keys := fun hmem => h.mem_keys_iff.1 hmem rfl
  rcases hb.table.entry_cases v with ⟨j, w', q, -, hj, hkey⟩ | ⟨t', j, hval, ht', hcontents, hready⟩
  · exact absurd (Table.mem_keys_iff.2 ⟨j, w', q, hj, hkey⟩) habsent
  · have hold := h.contents_eq
    rw [single_zero, Multiset.zero_add] at hold
    have hnew : (t'.occupy j v n).contents = (v, n) ::ₘ R := by
      rw [Table.contents_occupy hready.free, hcontents, hold]
    have hsplits : Splits ⟨t'.occupy j v n, b.total + n⟩ v w n R :=
      ⟨by rw [h.eq_of_zero rfl, single_of_ne_zero v hn, Multiset.singleton_add, hnew], h.key_eq,
        h.key_ne, fun hzero => absurd hzero hn⟩
    refine ⟨_, ?_, hsplits.sound (ht'.occupy_of_ready hready n) (h.pos hb) ?_ hle, hsplits⟩
    · rw [addOccurrences, if_neg hn, addCount?_eq_some hle]
      simp only [Traced.val_bind, hval]
      rfl
    · show b.total + n = _
      rw [h.total_eq hb]
      omega

/-- Adding occurrences adds to the count of the value, and to nothing else. -/
theorem Splits.exists_addOccurrences (h : b.Splits v w m R) (hb : b.Sound)
    (hle : b.total + n ≤ maxWord) :
    ∃ b', (b.addOccurrences v n).val = (.ok (m + n), b') ∧ b'.Sound ∧ b'.Splits v w (m + n) R := by
  by_cases hn : n = 0
  · subst hn
    refine ⟨b, ?_, hb, h⟩
    rw [addOccurrences_zero, h.occurrencesOf_eq hb]
    rfl
  by_cases hm : m = 0
  · subst hm
    rw [Nat.zero_add]
    exact h.exists_addOccurrences_of_eq hb hn hle
  · exact h.exists_addOccurrences_of_ne hb hm hn hle

theorem add_of_overflow (hb : b.Sound) (v : Scalar k) (h : maxWord < b.total + 1) :
    b.add v = pure (.error .countOverflow, b) := by
  rw [add, addOccurrences_of_overflow hb v h]
  rfl

theorem Splits.exists_add (h : b.Splits v w m R) (hb : b.Sound) (hle : b.total + 1 ≤ maxWord) :
    ∃ b', (b.add v).val = (.ok (decide (m = 0)), b') ∧ b'.Sound ∧ b'.Splits v w (m + 1) R := by
  obtain ⟨b', hval, hsound, hsplits⟩ := h.exists_addOccurrences hb hle
  refine ⟨b', ?_, hsound, hsplits⟩
  have hone : (m + 1 == 1) = decide (m = 0) := by
    rw [Bool.eq_iff_iff, beq_iff_eq, decide_eq_true_eq]
    omega
  rw [add, Traced.val_bind, hval, ← hone]
  rfl

/-! ### Removing occurrences -/

/-- Removing occurrences takes from the count of the value, and from nothing else. -/
theorem Splits.exists_removeOccurrences (h : b.Splits v w m R) (hb : b.Sound) (n : ℕ) :
    ∃ b' w', b.removeOccurrences v n = (decide (n ≠ 0 ∧ m ≠ 0), b') ∧ b'.Sound ∧
      b'.Splits v w' (m - n) R ∧ (m - n ≠ 0 → w' = w) := by
  by_cases hn : n = 0
  · refine ⟨b, w, ?_, hb, by rwa [hn, Nat.sub_zero], fun _ => rfl⟩
    rw [removeOccurrences, if_pos hn]
    simp [hn]
  by_cases hm : m = 0
  · refine ⟨b, w, ?_, hb, by rwa [hm, Nat.zero_sub, ← hm], fun _ => rfl⟩
    have hnone := hb.table.find_eq_none_iff.2 (mt h.mem_keys_iff.1 (not_not.2 hm))
    rw [removeOccurrences, if_neg hn, hnone]
    simp [hm]
  obtain ⟨i, hfind, hi, hR⟩ := h.exists_slot hb hm
  have hflag : decide (n ≠ 0 ∧ m ≠ 0) = true := decide_eq_true ⟨hn, hm⟩
  have htotal := h.total_eq hb
  have hle := hb.total_le
  by_cases hmn : m ≤ n
  · have hzero : m - n = 0 := by omega
    -- the last occurrences go, and the slot is freed
    have hsplits := h.vacate hR (b.total - m)
    rw [hzero]
    refine ⟨_, v, ?_, hsplits.sound (hb.table.vacate hi) (h.pos hb) ?_ ?_, hsplits,
      fun hne => absurd rfl hne⟩
    · rw [removeOccurrences, if_neg hn, hfind, hflag]
      simp only [countAt_eq hi, if_pos hmn]
    · show b.total - m = _
      omega
    · exact le_trans (Nat.sub_le _ _) hle
  · have hsplits := h.setPayload hm hi (q := m - n) (by omega) (b.total - n)
    refine ⟨_, w, ?_, hsplits.sound (hb.table.setPayload i _) (h.pos hb) ?_ ?_, hsplits,
      fun _ => rfl⟩
    · rw [removeOccurrences, if_neg hn, hfind, hflag]
      simp only [countAt_eq hi, if_neg hmn]
    · show b.total - n = _
      omega
    · exact le_trans (Nat.sub_le _ _) hle

/-! ### Setting a count -/

theorem setOccurrences_of_overflow (h : b.Splits v w m R) (hb : b.Sound)
    (hover : maxWord < countSum R + n) :
    b.setOccurrences v n = pure (.error .countOverflow, b) := by
  have htotal := h.total_eq hb
  have hle := hb.total_le
  -- the total is a machine word, so there are occurrences to add
  have hlt : m < n := by omega
  simp only [setOccurrences, h.occurrencesOf_eq hb, if_pos hlt]
  rw [addOccurrences_of_overflow hb v (by omega)]
  rfl

/-- Setting the count of a value changes that count, and nothing else. -/
theorem Splits.exists_setOccurrences (h : b.Splits v w m R) (hb : b.Sound)
    (hle : countSum R + n ≤ maxWord) :
    ∃ b' w', (b.setOccurrences v n).val = (.ok m, b') ∧ b'.Sound ∧ b'.Splits v w' n R ∧
      (n ≠ 0 → w' = w) := by
  have htotal := h.total_eq hb
  simp only [setOccurrences, h.occurrencesOf_eq hb]
  rcases Nat.lt_trichotomy m n with hlt | rfl | hgt
  · obtain ⟨b', hval, hsound, hsplits⟩ :=
      h.exists_addOccurrences (n := n - m) hb (by omega)
    rw [show m + (n - m) = n by omega] at hsplits
    refine ⟨b', w, ?_, hsound, hsplits, fun _ => rfl⟩
    rw [if_pos hlt, Traced.val_bind, hval]
    rfl
  · refine ⟨b, w, ?_, hb, h, fun _ => rfl⟩
    rw [if_neg (by omega), if_neg (by omega)]
    rfl
  · obtain ⟨b', w', hval, hsound, hsplits, hw⟩ := h.exists_removeOccurrences hb (m - n)
    rw [show m - (m - n) = n by omega] at hsplits hw
    refine ⟨b', w', ?_, hsound, hsplits, hw⟩
    rw [if_neg (by omega), if_pos hgt, hval]
    rfl

/-! ### Filtering -/

theorem foldl_sub (ns : List ℕ) (total : ℕ) :
    ns.foldl (fun total count => total - count) total = total - ns.sum := by
  induction ns generalizing total with
  | nil => rfl
  | cons n ns ih => rw [List.foldl_cons, ih, List.sum_cons, Nat.sub_sub]

/-- A bag after some of its entries were freed, and their counts taken from the total. -/
def freed (b : ScalarBag k) (es : List (Entry k ℕ)) : ScalarBag k :=
  ⟨(Table.free (fun total count => total - count) b.table b.total es).1,
    (Table.free (fun total count => total - count) b.table b.total es).2⟩

theorem Sound.freed (hb : b.Sound) {es : List (Entry k ℕ)}
    (hslots : es.Pairwise fun e e' => e.slot ≠ e'.slot)
    (hlive : ∀ e ∈ es, b.table.slots[e.slot]? = some (.live e.value e.payload)) :
    (b.freed es).Sound ∧ b.table.contents
      = (es.map fun e => (e.value, e.payload) : List _) + (b.freed es).table.contents := by
  obtain ⟨hsound, hcontents, htotal⟩ :=
    hb.table.free (fun total count => total - count) b.total hslots hlive
  have hsum : countSum (k := k) ↑(es.map fun e => (e.value, e.payload))
      = (es.map (·.payload)).sum := by
    rw [countSum, Multiset.map_coe, List.map_map, Multiset.sum_coe]
    rfl
  -- the counts taken away are those of the entries, so no subtraction is cut off at zero
  have heq : b.total - (es.map (·.payload)).sum = countSum (b.freed es).table.contents := by
    rw [hb.total_eq, hcontents, countSum_add, hsum, Nat.add_sub_cancel_left]
    rfl
  rw [foldl_sub] at htotal
  refine ⟨⟨hsound, fun c hc => hb.pos c ?_, htotal.trans heq, ?_⟩, hcontents⟩
  · rw [hcontents]
    exact Multiset.mem_add.2 (Or.inr hc)
  · exact (htotal.trans_le (Nat.sub_le _ _)).trans hb.total_le

/-- A filter frees the slots of the entries that it rejects. -/
theorem retainM_run {σ : Type} (b : ScalarBag k) (keep : Scalar k → ℕ → StateM σ Bool) (st : σ) :
    (b.retainM keep).run st =
      (b.freed ((rejectedM (fun e => keep e.value e.payload) b.table.entries).run st).1,
        ((rejectedM (fun e => keep e.value e.payload) b.table.entries).run st).2) := by
  rw [retainM, Table.filterM_eq]
  rfl

theorem exists_retainM {σ : Type} (hb : b.Sound) (keep : Scalar k → ℕ → StateM σ Bool) (st : σ) :
    ∃ b', (b.retainM keep).run st
        = (b', ((rejectedM (fun c => keep c.1 c.2) b.distinct).run st).2) ∧
      b'.Sound ∧ b.table.contents
        = (((rejectedM (fun c => keep c.1 c.2) b.distinct).run st).1 : List _)
          + b'.table.contents := by
  have hsub := sublist_rejectedM (fun e : Entry k ℕ => keep e.value e.payload) b.table.entries st
  obtain ⟨hsound, hcontents⟩ := hb.freed
    ((b.table.pairwise_slot_scan 0 b.table.capacity).sublist hsub)
    fun e he => Table.getElem?_of_mem_scan (hsub.subset he)
  rw [distinct, run_rejectedM_map]
  exact ⟨_, retainM_run b keep st, hsound, hcontents⟩

/-! ### Emptying a bag -/

theorem Sound.of_contents_eq_zero {t : Table k ℕ} (ht : t.Sound) (h : t.contents = 0) :
    Sound (⟨t, 0⟩ : ScalarBag k) where
  table := ht
  pos := by
    intro c hc
    rw [h] at hc
    exact absurd hc (Multiset.notMem_zero c)
  total_eq := by rw [h]; rfl
  total_le := Nat.zero_le _

theorem sound_empty : (empty : ScalarBag k).Sound :=
  .of_contents_eq_zero Table.sound_empty (Table.contents_ofSlots 0)

theorem Sound.clear (hb : b.Sound) : b.clear.Sound :=
  .of_contents_eq_zero hb.table.clear (Table.contents_clear _)

/-! ### Room asked for in advance -/

/-- A table with the same contents makes a sound bag again. -/
theorem Sound.of_contents_eq (hb : b.Sound) {t : Table k ℕ} (ht : t.Sound)
    (h : t.contents = b.table.contents) : Sound (⟨t, b.total⟩ : ScalarBag k) where
  table := ht
  pos := by
    intro c hc
    rw [h] at hc
    exact hb.pos c hc
  total_eq := by rw [h]; exact hb.total_eq
  total_le := hb.total_le

theorem tryWithCapacity_eq_ok (h : tryWithCapacity n = .ok b) :
    Table.withCapacity n = .ok b.table ∧ b.total = 0 := by
  rw [tryWithCapacity] at h
  cases ht : Table.withCapacity (k := k) (P := ℕ) n with
  | error e =>
    rw [ht] at h
    exact absurd h (by simp)
  | ok t =>
    rw [ht] at h
    rw [← Except.ok.inj h]
    exact ⟨rfl, rfl⟩

theorem sound_withCapacity (h : tryWithCapacity n = .ok b) :
    b.Sound ∧ b.table.contents = 0 := by
  obtain ⟨ht, htotal⟩ := tryWithCapacity_eq_ok h
  obtain ⟨hsound, hcontents⟩ := Table.sound_withCapacity ht
  obtain ⟨t, total⟩ := b
  simp only at htotal
  subst htotal
  exact ⟨.of_contents_eq_zero hsound hcontents, hcontents⟩

theorem distinct_of_tryWithCapacity (h : tryWithCapacity n = .ok b) : b.distinct = [] := by
  rw [← Multiset.coe_eq_zero, coe_distinct, (sound_withCapacity h).2]

theorem tryWithCapacity_of_withCapacity (h : withCapacity n = .ok b) :
    tryWithCapacity n = .ok b := by
  rw [withCapacity] at h
  split at h
  · next b' hb => rw [hb, Except.ok.inj h]
  · exact absurd h (by simp)
  · exact absurd h (by simp)

/-- Room below the limit is granted. -/
theorem exists_tryWithCapacity_eq (h : n < Table.roomLimit) :
    ∃ b : ScalarBag k, tryWithCapacity n = .ok b := by
  obtain ⟨t, ht⟩ := Table.exists_withCapacity_eq (k := k) (P := ℕ) (by decide) h
  rw [tryWithCapacity, ht]
  exact ⟨⟨t, 0⟩, rfl⟩

/-- Room that is refused is past the limit. -/
theorem roomLimit_le_of_tryWithCapacity {f : Failure}
    (h : (tryWithCapacity n : Except Failure (ScalarBag k)) = .error f) : Table.roomLimit ≤ n := by
  by_contra hlt
  obtain ⟨b, hb⟩ := exists_tryWithCapacity_eq (k := k) (Nat.lt_of_not_le hlt)
  cases h.symm.trans hb

/-- A bag with room is granted and empty, or the room asked for is past the limit. -/
theorem withCapacity_cases (k : Kind) (n : ℕ) :
    (∃ b : ScalarBag k, withCapacity n = .ok b ∧ b.Sound ∧ b.table.contents = 0) ∨
      Table.roomLimit ≤ n ∧ ∃ a, (withCapacity n : Except Abort (ScalarBag k)) = .error a := by
  unfold withCapacity
  cases hb : (tryWithCapacity n : Except Failure (ScalarBag k)) with
  | ok b => exact Or.inl ⟨b, rfl, sound_withCapacity hb⟩
  | error f =>
    refine Or.inr ⟨roomLimit_le_of_tryWithCapacity hb, ?_⟩
    cases f with
    | error e => exact ⟨_, rfl⟩
    | abort a => exact ⟨a, rfl⟩

theorem reserve_eq_ok {r : Traced (ScalarBag k)} (h : b.reserve n = .ok r) :
    ∃ r', b.table.reserve n = .ok r' ∧ r.val = ⟨r'.val, b.total⟩ := by
  rw [reserve] at h
  cases ht : b.table.reserve n with
  | error e =>
    rw [ht] at h
    exact absurd h (by simp)
  | ok r' =>
    rw [ht] at h
    refine ⟨r', rfl, ?_⟩
    rw [← Except.ok.inj h]
    rfl

theorem sound_reserve (hb : b.Sound) {r : Traced (ScalarBag k)} (h : b.reserve n = .ok r) :
    r.val.Sound ∧ r.val.table.contents = b.table.contents := by
  obtain ⟨r', hr', hval⟩ := reserve_eq_ok h
  obtain ⟨hsound, hcontents, -⟩ := hb.table.reserve hr'
  rw [hval]
  exact ⟨hb.of_contents_eq hsound hcontents, hcontents⟩

theorem exists_reserve_eq (h : b.distinctSize + n < Table.roomLimit)
    (hcap : b.capacity < 4 * Table.roomLimit) : ∃ r, b.reserve n = .ok r := by
  obtain ⟨r, hr⟩ := Table.exists_reserve_eq (t := b.table) (by decide) h hcap
  rw [reserve, hr]
  exact ⟨_, rfl⟩

end ScalarBag
end Slotted
