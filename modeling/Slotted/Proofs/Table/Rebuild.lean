import Mathlib.Algebra.Order.Ring.Nat
import Slotted.Proofs.Table.Update

/-!
# Rebuilding a table, and making room in it

A rebuild puts the live values, in slot order, into a table of empty slots.  On the way there the
new table is sound, holds what the slots passed so far held, and has room for the rest; so each
value finds an empty slot, and at the end nothing is lost.

Making room for one value rebuilds the table only if the value would take an empty slot over the
load limit.  After that there is room: at the same length because live values fill at most half of
the limit, at the double because the limit grew by more than one slot.

## Main definitions

* `Table.Ready` — a slot that `occupy` may fill with a value.
* `Table.Takes` — a table that the values of a list of slots may move into.
* `Table.roomLimit` — a number of values for which there always is room.

## Main results

* `Table.Takes.exists_occupy` — what happens to the next of these values.
* `Table.Sound.resized` — a rebuilt table is sound, holds the same contents and has no tombstones.
* `Table.Sound.entry_cases` — `entry` finds the value and changes nothing, or answers with a slot
  that is ready for it.
* `Table.sound_withCapacity`, `Table.Sound.reserve` — room asked for in advance.
* `Table.exists_withCapacity_eq`, `exists_reserve_eq` — when it is granted.
-/

namespace Slotted
namespace Table

variable {k : Kind} {P : Type} {t : Table k P} {i : ℕ} {v : Scalar k} {p : P}

/-- A slot that may be filled with a value: it admits the value, and if it is empty the load allows
to take it. -/
structure Ready (t : Table k P) (v : Scalar k) (i : ℕ) : Prop extends t.Admits v i where
  /-- An empty slot is within the load limit. -/
  room : t.slots[i]? = some .empty →
    (t.live + t.tombstones + 1) * k.load.den ≤ t.capacity * k.load.num

theorem Sound.occupy_of_ready (ht : t.Sound) (hi : t.Ready v i) (p : P) :
    (t.occupy i v p).Sound := ht.occupy hi.toAdmits hi.room p

/-! ### Moving the values -/

/-- Puts what a slot of another table holds into this one. -/
def takeOver (t : Table k P) : Slot k P → Table k P
  | .live v p => t.reinsert v p
  | _ => t

theorem resized_eq_foldl (t : Table k P) (n : ℕ) :
    t.resized n = t.slots.toList.foldl takeOver (ofSlots n) := by
  rw [resized, Array.foldl_toList]
  rfl

theorem reinsert_of_firstEmpty
    (h : t.firstEmpty t.capacity (Probe.start v.hash t.capacity) = some i) (p : P) :
    t.reinsert v p = t.occupy i v p := by
  rw [reinsert]
  simp only [h]

theorem takeOver_of_content?_eq_none {s : Slot k P} (hs : s.content? = none) :
    t.takeOver s = t := by
  cases s with
  | live v p => exact absurd hs (by simp)
  | _ => rfl

/-- A table that the values of a list of slots may move into: no two of its values and of those
still to come have one key, and all of them are within the load limit. -/
structure Takes (t : Table k P) (l : List (Slot k P)) : Prop where
  /-- The table is sound. -/
  sound : t.Sound
  /-- The keys are apart. -/
  nodup : ((t.contents + (l.filterMap Slot.content? : List _)).map fun c => c.1.key).Nodup
  /-- There is room. -/
  room : (t.live + t.tombstones + (l.filterMap Slot.content?).length) * k.load.den
    ≤ t.capacity * k.load.num

namespace Takes

variable {l : List (Slot k P)}

theorem of_content?_eq_none {s : Slot k P} (h : t.Takes (s :: l)) (hs : s.content? = none) :
    t.Takes l := by
  obtain ⟨hsound, hnodup, hroom⟩ := h
  rw [List.filterMap_cons_none hs] at hnodup hroom
  exact ⟨hsound, hnodup, hroom⟩

theorem capacity_ne_zero (h : t.Takes (.live v p :: l)) : t.capacity ≠ 0 := by
  intro h0
  have hroom := h.room
  have hden := k.load_num_lt_den
  rw [h0, Nat.zero_mul, Nat.le_zero_eq, Nat.mul_eq_zero,
    List.filterMap_cons_some (Slot.content?_live v p), List.length_cons] at hroom
  omega

/-- The next value finds an empty slot, and there the table still takes the rest. -/
theorem exists_occupy (h : t.Takes (.live v p :: l)) :
    ∃ i, t.firstEmpty t.capacity (Probe.start v.hash t.capacity) = some i ∧
      t.slots[i]? = some .empty ∧ (t.occupy i v p).Takes l := by
  obtain ⟨i, hfirst, hempty, hreached⟩ := h.sound.exists_firstEmpty_eq h.capacity_ne_zero v.hash
  obtain ⟨hsound, hnodup, hroom⟩ := h
  rw [List.filterMap_cons_some (Slot.content?_live v p)] at hnodup hroom
  have hsplit : (t.occupy i v p).contents + (l.filterMap Slot.content? : List _)
      = t.contents + ((v, p) :: l.filterMap Slot.content? : List _) := by
    rw [contents_occupy (Or.inr hempty), ← Multiset.cons_coe, Multiset.add_cons, Multiset.cons_add]
  -- the key is gone from those still to come
  have habsent : v.key ∉ t.keys := by
    rw [← Multiset.cons_coe, Multiset.add_cons, Multiset.map_cons, Multiset.nodup_cons,
      Multiset.map_add, Multiset.mem_add] at hnodup
    exact fun hmem => hnodup.1 (Or.inl hmem)
  rw [List.length_cons] at hroom
  refine ⟨i, hfirst, hempty, ?_, by rwa [hsplit], ?_⟩
  · exact hsound.occupy ⟨hreached, Or.inr hempty, habsent⟩
      (fun _ => le_trans (Nat.mul_le_mul_right _ (by omega)) hroom) p
  · rw [live_occupy, tombstones_occupy_of_empty hempty, capacity_occupy]
    rwa [show t.live + 1 + t.tombstones + (l.filterMap Slot.content?).length
      = t.live + t.tombstones + ((l.filterMap Slot.content?).length + 1) by omega]

/-- The values of a list of slots move into a table that takes them. -/
theorem foldl_takeOver (h : t.Takes l) :
    (l.foldl takeOver t).Sound ∧
      (l.foldl takeOver t).contents = t.contents + (l.filterMap Slot.content? : List _) ∧
      (l.foldl takeOver t).capacity = t.capacity ∧
      (l.foldl takeOver t).tombstones = t.tombstones := by
  induction l generalizing t with
  | nil => exact ⟨h.sound, by simp, rfl, rfl⟩
  | cons s l ih =>
    rw [List.foldl_cons]
    rcases hs : s.content? with _ | ⟨v, p⟩
    · rw [takeOver_of_content?_eq_none hs, List.filterMap_cons_none hs]
      exact ih (h.of_content?_eq_none hs)
    · rw [List.filterMap_cons_some hs]
      obtain rfl := Slot.content?_eq_some hs
      obtain ⟨i, hfirst, hempty, hnext⟩ := h.exists_occupy
      have hmove : t.takeOver (.live v p) = t.occupy i v p := reinsert_of_firstEmpty hfirst p
      obtain ⟨hsound, hcontents, hcap, htomb⟩ := ih hnext
      rw [hmove, hcontents, hcap, htomb, contents_occupy (Or.inr hempty), ← Multiset.cons_coe,
        Multiset.add_cons, Multiset.cons_add]
      exact ⟨hsound, rfl, capacity_occupy t i v p, tombstones_occupy_of_empty hempty v p⟩

end Takes

theorem coe_filterMap_content? (t : Table k P) :
    ((t.slots.toList.filterMap Slot.content? : List _) : Multiset _) = t.contents := by
  rw [contents, slotBag, Multiset.filterMap_coe]

/-- A table of enough empty slots takes all slots of a sound table. -/
theorem Sound.takes_ofSlots (ht : t.Sound) {n : ℕ} (hn : IsTableLength n)
    (hroom : t.live * k.load.den ≤ n * k.load.num) :
    (ofSlots n : Table k P).Takes t.slots.toList := by
  have hlength : (t.slots.toList.filterMap Slot.content?).length = t.live := by
    rw [ht.live_eq_card, ← coe_filterMap_content?, Multiset.coe_card]
  refine ⟨sound_ofSlots hn, ?_, ?_⟩
  · rw [contents_ofSlots, Multiset.zero_add, coe_filterMap_content?]
    exact ht.nodup_keys
  · rw [hlength, live_ofSlots, tombstones_ofSlots, capacity_ofSlots, Nat.zero_add]
    exact hroom

/-- A rebuilt table is sound and holds the same contents; it has the length asked for and no
tombstones. -/
theorem Sound.resized (ht : t.Sound) {n : ℕ} (hn : IsTableLength n)
    (hroom : t.live * k.load.den ≤ n * k.load.num) :
    (t.resized n).Sound ∧ (t.resized n).contents = t.contents ∧ (t.resized n).capacity = n ∧
      (t.resized n).tombstones = 0 := by
  have hfold := (ht.takes_ofSlots hn hroom).foldl_takeOver
  rw [contents_ofSlots, Multiset.zero_add, coe_filterMap_content?, capacity_ofSlots,
    tombstones_ofSlots] at hfold
  rw [resized_eq_foldl]
  exact hfold

/-! ### Room for one more value -/

theorem load_den_le (k : Kind) : k.load.den ≤ 4 := by cases k <;> decide

theorem Sound.live_mul_den_le (ht : t.Sound) : t.live * k.load.den ≤ t.capacity * k.load.num :=
  le_trans (Nat.mul_le_mul_right _ (Nat.le_add_right _ _)) ht.within

theorem Sound.isTableLength_grownCapacity (ht : t.Sound) : IsTableLength t.grownCapacity := by
  unfold grownCapacity
  split
  · exact ht.length.mul_two
  · exact ht.length

/-- After growing there is room for one more value, without the tombstones. -/
theorem Sound.succ_live_mul_den_le (ht : t.Sound) (hcap : t.capacity ≠ 0) :
    (t.live + 1) * k.load.den ≤ t.grownCapacity * k.load.num := by
  unfold grownCapacity
  split
  · -- the limit has doubled, and before that it was eight at least
    have hlive := ht.live_mul_den_le
    have hden := load_den_le k
    have hmin : minSlots ≤ t.capacity * k.load.num :=
      le_trans (ht.length.le_of_ne_zero hcap) (Nat.le_mul_of_pos_right _ k.load_num_pos)
    have hmin' : (8 : ℕ) ≤ t.capacity * k.load.num := hmin
    calc (t.live + 1) * k.load.den = t.live * k.load.den + k.load.den := Nat.succ_mul _ _
      _ ≤ t.capacity * k.load.num + t.capacity * k.load.num := by omega
      _ = t.capacity * 2 * k.load.num := by rw [Nat.mul_right_comm, Nat.mul_two]
  · omega

/-- A grown table, with room for one more value and no tombstone in the way. -/
theorem Sound.resized_grownCapacity (ht : t.Sound) (hcap : t.capacity ≠ 0) :
    (t.resized t.grownCapacity).Sound ∧ (t.resized t.grownCapacity).contents = t.contents ∧
      (t.resized t.grownCapacity).capacity = t.grownCapacity ∧
      (t.resized t.grownCapacity).tombstones = 0 :=
  ht.resized ht.isTableLength_grownCapacity
    (le_trans (Nat.mul_le_mul_right _ (Nat.le_succ _)) (ht.succ_live_mul_den_le hcap))

theorem not_overLimit_iff {n : ℕ} : t.overLimit n = false ↔
    (t.live + t.tombstones + n) * k.load.den ≤ t.capacity * k.load.num := by
  rw [overLimit, Bool.eq_false_iff, ne_eq, Load.exceededBy_iff, Nat.not_lt]

/-! ### Finding a value or a slot for it -/

theorem allocated_eq_pure (hcap : t.capacity ≠ 0) : t.allocated = pure t := if_neg hcap

theorem entry_of_found (hcap : t.capacity ≠ 0) (h : t.locate v = .found i) :
    t.entry v = pure (t, .found i) := by
  rw [entry, allocated_eq_pure hcap, pure_bind]
  simp only [h]

theorem entry_of_vacant (hcap : t.capacity ≠ 0) (h : t.locate v = .vacant i)
    (hroom : t.slots[i]? = some .tombstone ∨ t.overLimit 1 = false) :
    t.entry v = pure (t, .vacant i) := by
  have htest : (t.isTombstone i || !t.overLimit 1) = true := by
    rw [Bool.or_eq_true, isTombstone_eq_true_iff, Bool.not_eq_true']
    exact hroom
  rw [entry, allocated_eq_pure hcap, pure_bind]
  simp only [h, htest, if_true]

theorem entry_of_full (hcap : t.capacity ≠ 0) (h : t.locate v = .vacant i)
    (hslot : t.slots[i]? ≠ some .tombstone) (hfull : t.overLimit 1 = true) :
    t.entry v = t.grow >>= fun t' => pure (t', t'.locate v) := by
  have htest : ¬ (t.isTombstone i || !t.overLimit 1) = true := by
    rw [Bool.or_eq_true, isTombstone_eq_true_iff, Bool.not_eq_true', hfull]
    simpa using hslot
  rw [entry, allocated_eq_pure hcap, pure_bind]
  simp only [h, htest, if_false, Bool.false_eq_true]

/-- The first slots of a table. -/
theorem Sound.resized_minSlots (ht : t.Sound) (hcap : t.capacity = 0) :
    (t.resized minSlots).Sound ∧ (t.resized minSlots).contents = t.contents ∧
      (t.resized minSlots).capacity = minSlots ∧ (t.resized minSlots).tombstones = 0 := by
  refine ht.resized isTableLength_minSlots ?_
  rw [ht.live_eq_zero hcap, Nat.zero_mul]
  exact Nat.zero_le _

theorem Sound.capacity_resized_minSlots_ne (ht : t.Sound) (hcap : t.capacity = 0) :
    (t.resized minSlots).capacity ≠ 0 := by
  rw [(ht.resized_minSlots hcap).2.2.1]
  decide

/-- A table without slots is given its first ones, and then answers as any other. -/
theorem Sound.entry_of_capacity_eq_zero (ht : t.Sound) (hcap : t.capacity = 0) (v : Scalar k) :
    t.entry v = t.rebuild minSlots >>= fun t' => t'.entry v := by
  have hnew := ht.capacity_resized_minSlots_ne hcap
  rw [entry, allocated, if_pos hcap]
  refine Traced.bind_congr_val _ ?_
  show _ = (t.resized minSlots).entry v
  rw [entry, allocated_eq_pure hnew, pure_bind]
  rfl

theorem Admits.ready (hi : t.Admits v i) (hroom : t.overLimit 1 = false) : t.Ready v i :=
  ⟨hi, fun _ => not_overLimit_iff.1 hroom⟩

/-- A table with slots finds the value and changes nothing, or answers with a slot for it. -/
theorem Sound.entry_cases_of_ne (ht : t.Sound) (hcap : t.capacity ≠ 0) (v : Scalar k) :
    (∃ i w q, t.entry v = pure (t, .found i) ∧ t.slots[i]? = some (.live w q) ∧ w.key = v.key) ∨
      ∃ t' i, (t.entry v).val = (t', .vacant i) ∧ t'.Sound ∧ t'.contents = t.contents ∧
        t'.Ready v i := by
  rcases ht.locate_cases hcap v with ⟨i, w, q, hfound, hs, hkey⟩ | ⟨i, hvacant, hadmits⟩
  · exact Or.inl ⟨i, w, q, entry_of_found hcap hfound, hs, hkey⟩
  right
  cases hfull : t.overLimit 1 with
  | false =>
    refine ⟨t, i, ?_, ht, rfl, hadmits.ready hfull⟩
    rw [entry_of_vacant hcap hvacant (Or.inr hfull)]
    rfl
  | true =>
    by_cases hslot : t.slots[i]? = some .tombstone
    · refine ⟨t, i, ?_, ht, rfl, hadmits, fun he => ?_⟩
      · rw [entry_of_vacant hcap hvacant (Or.inl hslot)]
        rfl
      · exact absurd (hslot.symm.trans he) (by simp)
    · -- the slot is empty and over the limit: the table is rebuilt, and the value located again
      obtain ⟨hsound, hcontents, hlen, htomb⟩ := ht.resized_grownCapacity hcap
      have hval : (t.entry v).val
          = (t.resized t.grownCapacity, (t.resized t.grownCapacity).locate v) := by
        rw [entry_of_full hcap hvacant hslot hfull]
        rfl
      have hnew : (t.resized t.grownCapacity).capacity ≠ 0 := by
        rw [hlen, grownCapacity]
        split <;> omega
      rcases hsound.locate_cases hnew v with ⟨j, w, q, -, hs, hkey⟩ | ⟨j, hlocate, hadmits'⟩
      · have hmem : v.key ∈ (t.resized t.grownCapacity).keys := mem_keys_iff.2 ⟨j, w, q, hs, hkey⟩
        rw [keys_congr hcontents] at hmem
        exact absurd hmem hadmits.absent
      · refine ⟨_, j, hval.trans (by rw [hlocate]), hsound, hcontents, hadmits', fun _ => ?_⟩
        rw [ht.live_congr hsound hcontents, htomb, hlen]
        exact ht.succ_live_mul_den_le hcap

/-- `entry` finds the value and changes nothing, or it answers with a slot that is ready for the
value, in a table that holds the same as before. -/
theorem Sound.entry_cases (ht : t.Sound) (v : Scalar k) :
    (∃ i w q, t.entry v = pure (t, .found i) ∧ t.slots[i]? = some (.live w q) ∧ w.key = v.key) ∨
      ∃ t' i, (t.entry v).val = (t', .vacant i) ∧ t'.Sound ∧ t'.contents = t.contents ∧
        t'.Ready v i := by
  by_cases hcap : t.capacity = 0
  · right
    obtain ⟨hsound, hcontents, -, -⟩ := ht.resized_minSlots hcap
    have hnew := ht.capacity_resized_minSlots_ne hcap
    rw [ht.entry_of_capacity_eq_zero hcap, Traced.val_bind]
    -- the new table is empty, so the value is not found in it
    rcases hsound.entry_cases_of_ne hnew v with ⟨i, w, q, -, hs, -⟩ | ⟨t', i, hval, hrest⟩
    · have hmem : (w, q) ∈ (t.resized minSlots).contents := mem_contents_iff.2 ⟨i, hs⟩
      rw [hcontents, ht.contents_eq_zero hcap] at hmem
      exact absurd hmem (Multiset.notMem_zero _)
    · rw [hcontents] at hrest
      exact ⟨t', i, hval, hrest⟩
  · exact ht.entry_cases_of_ne hcap v

/-! ### Room asked for in advance -/

/-- Below this number of values, room asked for in advance is granted. -/
def roomLimit : ℕ := 2 ^ 58

theorem withCapacity_eq_ok [Payload P] {n : ℕ} (h : withCapacity n = .ok t) :
    ∃ s, slotsFor? n k.load = some s ∧ t = ofSlots s := by
  rw [withCapacity] at h
  split at h
  · exact absurd h (by simp)
  · next s hs =>
    split at h
    · exact ⟨s, hs, (Except.ok.inj h).symm⟩
    · exact absurd h (by simp)

theorem le_maxWord_of_withCapacity [Payload P] {n : ℕ} (h : withCapacity n = .ok t) :
    n ≤ maxWord := by
  obtain ⟨s, hs, -⟩ := withCapacity_eq_ok h
  exact le_maxWord_of_slotsFor? k.load_den_pos hs

theorem sound_withCapacity [Payload P] {n : ℕ} (h : withCapacity n = .ok t) :
    t.Sound ∧ t.contents = 0 := by
  obtain ⟨s, hs, rfl⟩ := withCapacity_eq_ok h
  exact ⟨sound_ofSlots (isTableLength_slotsFor? hs), contents_ofSlots s⟩

/-- The slots for a number of values below the limit fit into memory. -/
theorem exists_slotsFor?_lt {n : ℕ} (h : n < roomLimit) :
    ∃ s, slotsFor? n k.load = some s ∧ s < 4 * roomLimit := by
  have hlimit : roomLimit = 2 ^ 58 := rfl
  rcases Nat.eq_zero_or_pos n with rfl | hn
  · exact ⟨0, rfl, by omega⟩
  have hden : n * k.load.den ≤ n * 4 := Nat.mul_le_mul_left n (load_den_le k)
  -- half of the slots is within every load limit
  have hquot : n * k.load.den / k.load.num ≤ n * 2 := by
    refine Nat.div_le_of_le_mul ?_
    rw [Nat.mul_comm k.load.num, Nat.mul_assoc]
    exact Nat.mul_le_mul_left n (by cases k <;> decide)
  have hword : maxWord = 2 ^ 64 - 1 := rfl
  obtain ⟨s, hs, hle⟩ := exists_slotsFor?_eq k.load_num_lt_den.le k.load_num_pos hn.ne'
    (by omega) (by omega)
  have hmin : minSlots = 8 := rfl
  exact ⟨s, hs, by omega⟩

theorem fitsMemory_of_lt {w s : ℕ} (hw : w ≤ 8) (hs : s < 4 * roomLimit) :
    fitsMemory k w s = true := by
  have hbound : ∀ {x : ℕ}, x ≤ 8 → s * x ≤ maxAllocation := by
    intro x hx
    have hmul : s * x ≤ s * 8 := Nat.mul_le_mul_left s hx
    have hlimit : roomLimit = 2 ^ 58 := rfl
    have hmax : maxAllocation = 2 ^ 63 - 1 := rfl
    omega
  rw [fitsMemory, Bool.and_eq_true, decide_eq_true_eq, decide_eq_true_eq]
  exact ⟨hbound k.width_le, hbound hw⟩

/-- Room for a number of values below the limit is always granted. -/
theorem exists_withCapacity_eq [Payload P] (hw : Payload.width P ≤ 8) {n : ℕ}
    (h : n < roomLimit) : ∃ t : Table k P, withCapacity n = .ok t := by
  obtain ⟨s, hs, hlt⟩ := exists_slotsFor?_lt (k := k) h
  refine ⟨ofSlots s, ?_⟩
  rw [withCapacity]
  simp only [hs, fitsMemory_of_lt hw hlt, if_true]

/-- So is more room, below the limit, in a table that fits into memory itself. -/
theorem exists_reserve_eq [Payload P] (hw : Payload.width P ≤ 8) {n : ℕ}
    (h : t.live + n < roomLimit) (hcap : t.capacity < 4 * roomLimit) :
    ∃ r, t.reserve n = .ok r := by
  obtain ⟨s, hs, hlt⟩ := exists_slotsFor?_lt (k := k) h
  have hlimit : roomLimit = 2 ^ 58 := rfl
  have hword : maxWord = 2 ^ 64 - 1 := rfl
  rw [Table.reserve]
  split
  · exact ⟨_, rfl⟩
  · rw [if_neg (by omega)]
    simp only [hs, fitsMemory_of_lt hw (max_lt hlt hcap), if_true]
    exact ⟨_, rfl⟩

/-- If there is room, reserving it changes nothing. -/
theorem reserve_of_room [Payload P] {n : ℕ} (h : t.overLimit n = false) :
    t.reserve n = .ok (pure t) := by
  rw [Table.reserve, h]
  rfl

/-- If there is not, reserving it rebuilds the table with at least as many slots. -/
theorem exists_rebuild_of_reserve [Payload P] {n : ℕ} {r : Traced (Table k P)}
    (hfull : t.overLimit n = true) (h : t.reserve n = .ok r) :
    ∃ s, slotsFor? (t.live + n) k.load = some s ∧ r = t.rebuild (max s t.capacity) := by
  rw [Table.reserve, hfull, if_neg (by simp)] at h
  split at h
  · exact absurd h (by simp)
  · split at h
    · exact absurd h (by simp)
    · next s hs =>
      simp only at h
      split at h
      · exact ⟨s, hs, (Except.ok.inj h).symm⟩
      · exact absurd h (by simp)

/-- Reserving room changes nothing, or rebuilds the table with at least as many slots. -/
theorem reserve_eq_ok [Payload P] {n : ℕ} {r : Traced (Table k P)} (h : t.reserve n = .ok r) :
    r = pure t ∨
      ∃ s, slotsFor? (t.live + n) k.load = some s ∧ r = t.rebuild (max s t.capacity) := by
  cases hfull : t.overLimit n with
  | false =>
    rw [reserve_of_room hfull] at h
    exact Or.inl (Except.ok.inj h).symm
  | true => exact Or.inr (exists_rebuild_of_reserve hfull h)

/-- A table with more slots, or as many, and no tombstones. -/
theorem Sound.resized_max (ht : t.Sound) {n s : ℕ} (hs : slotsFor? n k.load = some s) :
    (t.resized (max s t.capacity)).Sound ∧ (t.resized (max s t.capacity)).contents = t.contents ∧
      (t.resized (max s t.capacity)).capacity = max s t.capacity ∧
      (t.resized (max s t.capacity)).tombstones = 0 :=
  ht.resized ((isTableLength_slotsFor? hs).max ht.length)
    (le_trans ht.live_mul_den_le (Nat.mul_le_mul_right _ (le_max_right _ _)))

theorem Sound.reserve [Payload P] (ht : t.Sound) {n : ℕ} {r : Traced (Table k P)}
    (h : t.reserve n = .ok r) :
    r.val.Sound ∧ r.val.contents = t.contents ∧ t.capacity ≤ r.val.capacity := by
  rcases reserve_eq_ok h with rfl | ⟨s, hs, rfl⟩
  · exact ⟨ht, rfl, le_rfl⟩
  · obtain ⟨hsound, hcontents, hlen, -⟩ := ht.resized_max hs
    exact ⟨hsound, hcontents, hlen.ge.trans' (le_max_right _ _)⟩

end Table
end Slotted
