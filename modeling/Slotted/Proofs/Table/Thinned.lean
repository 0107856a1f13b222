import Mathlib.Order.Defs.Unbundled
import Slotted.Proofs.Table.Filter

/-!
# Freeing a slot, and lessening a payload, in slot order

The entries of a table are those before a live slot, its own, and those behind it.  Freeing the slot
takes its own out and changing the payload replaces it; the others stay as they are, each in its
slot.

## Main definitions

* `Table.Thinned` — a table some of whose slots were freed or lost a part of their payload.

## Main results

* `Table.entries_of_live`, `entries_vacate` — the entries around a slot, and without it.
* `Table.Thinned.vacate`, `Thinned.setPayload` — the operations that thin a table.
-/

namespace Slotted

variable {k : Kind} {P : Type}

namespace Table

variable {t t' : Table k P} {i start stop : ℕ} {v : Scalar k} {p q : P}

/-! ### The entries before and behind a slot -/

theorem scan_append (t : Table k P) {mid : ℕ} (hstart : start ≤ mid) (hstop : mid ≤ stop) :
    t.scan start mid ++ t.scan mid stop = t.scan start stop := by
  obtain ⟨m, rfl⟩ := Nat.exists_eq_add_of_le hstart
  obtain ⟨n, rfl⟩ := Nat.exists_eq_add_of_le hstop
  rw [scan_eq, scan_eq, scan_eq, ← List.filterMap_append, Nat.add_sub_cancel_left,
    Nat.add_sub_cancel_left, List.range'_append_1, Nat.add_assoc, Nat.add_sub_cancel_left]

theorem scan_congr (h : ∀ j, start ≤ j → j < stop → t'.slots[j]? = t.slots[j]?) :
    t'.scan start stop = t.scan start stop := by
  rw [scan_eq, scan_eq]
  refine List.filterMap_congr fun j hj => ?_
  rw [List.mem_range'_1] at hj
  unfold entryAt? entry?
  rw [h j hj.1 (by omega)]

/-- The entries are those before a live slot, its own, and those behind it. -/
theorem entries_of_live (h : t.slots[i]? = some (.live v p)) :
    t.entries = t.scan 0 i ++ ⟨i, v, p⟩ :: t.scan (i + 1) t.capacity := by
  have hlt := lt_capacity_of_getElem? h
  rw [entries, ← t.scan_append (Nat.zero_le i) hlt.le, t.scan_of_lt hlt, entryAt?_of_live h]
  rfl

theorem entries_vacate (h : t.slots[i]? = some (.live v p)) :
    (t.vacate i).entries = t.scan 0 i ++ t.scan (i + 1) t.capacity := by
  have hlt := lt_capacity_of_getElem? h
  have hfreed : (t.vacate i).slots[i]? = some .tombstone := getElem?_update_self hlt ..
  have hnone : (t.vacate i).entryAt? i = none :=
    entryAt?_of_not_live fun w q hw => by simp [hfreed] at hw
  rw [entries, capacity_vacate, ← scan_append _ (Nat.zero_le i) hlt.le, scan_of_lt _ hlt, hnone,
    scan_vacate t (Nat.lt_succ_self i), scan_congr fun j _ hj => getElem?_vacate_ne (by omega)]
  rfl

@[simp] theorem capacity_setPayload (t : Table k P) (i : ℕ) (q : P) :
    (t.setPayload i q).capacity = t.capacity := by
  unfold setPayload
  split
  · exact capacity_update ..
  · rfl

theorem getElem?_setPayload_ne {j : ℕ} (hij : i ≠ j) (q : P) :
    (t.setPayload i q).slots[j]? = t.slots[j]? := by
  unfold setPayload
  split
  · exact getElem?_update_ne hij ..
  · rfl

theorem getElem?_setPayload_self (h : t.slots[i]? = some (.live v p)) (q : P) :
    (t.setPayload i q).slots[i]? = some (.live v q) := by
  rw [setPayload_eq h]
  exact getElem?_update_self (lt_capacity_of_getElem? h) ..

theorem scan_setPayload (t : Table k P) (hi : i < start ∨ stop ≤ i) (q : P) :
    (t.setPayload i q).scan start stop = t.scan start stop :=
  scan_congr fun _ _ _ => getElem?_setPayload_ne (by omega) q

/-! ### Slots freed, and payloads lessened -/

/-- What the second table holds stands where it stood in the first, with a payload that has stayed
or become less; the number of slots is the same. -/
structure Thinned (le : P → P → Prop) (t t' : Table k P) : Prop where
  /-- The number of slots. -/
  capacity : t'.capacity = t.capacity
  /-- A slot that still holds a value. -/
  slot : ∀ {i : ℕ} {v : Scalar k} {q : P}, t'.slots[i]? = some (.live v q) →
    ∃ p, t.slots[i]? = some (.live v p) ∧ le q p

namespace Thinned

variable {le : P → P → Prop} [IsPreorder P le]

theorem refl (t : Table k P) : t.Thinned le t := ⟨rfl, fun h => ⟨_, h, Std.Refl.refl _⟩⟩

theorem trans {t'' : Table k P} (h : t.Thinned le t') (h' : t'.Thinned le t'') :
    t.Thinned le t'' where
  capacity := h'.capacity.trans h.capacity
  slot := by
    intro i v q hq
    obtain ⟨p', hp', hle'⟩ := h'.slot hq
    obtain ⟨p, hp, hle⟩ := h.slot hp'
    exact ⟨p, hp, IsTrans.trans q p' p hle' hle⟩

theorem vacate (t : Table k P) (i : ℕ) : t.Thinned le (t.vacate i) where
  capacity := capacity_vacate t i
  slot := by
    intro j v q hq
    rcases getElem?_update_cases hq with ⟨-, hnew⟩ | ⟨-, hold⟩
    · exact absurd hnew (by simp)
    · exact ⟨q, hold, Std.Refl.refl q⟩

theorem setPayload (t : Table k P) {i : ℕ} {q : P}
    (hle : ∀ v p, t.slots[i]? = some (.live v p) → le q p) :
    t.Thinned le (t.setPayload i q) where
  capacity := capacity_setPayload t i q
  slot := by
    intro j w r hr
    by_cases hij : i = j
    · subst hij
      rcases hs : t.slots[i]? with _ | _ | _ | ⟨v, p⟩
      · simp [Table.setPayload, hs] at hr
      · simp [Table.setPayload, hs] at hr
      · simp [Table.setPayload, hs] at hr
      · rw [getElem?_setPayload_self hs] at hr
        obtain ⟨rfl, rfl⟩ := Slot.live.inj (Option.some.inj hr)
        exact ⟨p, rfl, hle v p hs⟩
    · rw [getElem?_setPayload_ne hij] at hr
      exact ⟨r, hr, Std.Refl.refl r⟩

end Thinned
end Table

end Slotted
