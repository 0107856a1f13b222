import Mathlib.Data.Multiset.Bind
import Mathlib.Data.Multiset.Filter
import Slotted.Table.Scan

/-!
# What a table holds, without the order of its slots

A table is looked at in two ways.  Slot by slot it is `t.slots[i]?`; searching needs that, since
the order of the slots carries the probe sequences.  As a multiset it is its *contents*, the values
with their payloads; every answer that does not depend on the layout is an answer about these.
Replacing one slot takes one element out of the multiset of all slots and puts another one in.

## Main definitions

* `Slot.content?`, `Slot.isLive`, `Slot.isTombstone` — what a slot holds, and of which sort it is.
* `Table.contents`, `Table.keys` — the values with their payloads, and the keys of the values.

## Main results

* `Table.exists_slotBag_update` — replacing a slot, for the multiset of all slots.
* `Table.mem_contents_iff` — the contents are what the live slots hold.
* `Table.contents_fill`, `contents_drop`, `exists_contents_swap` — filling a free slot, freeing a
  live one, and changing what a live one holds.
* `Table.map_entries` — the live slots in slot order spell out the contents.
-/

namespace Slotted

variable {k : Kind} {P : Type}

namespace Slot

/-- The value and the payload in a slot. -/
def content? : Slot k P → Option (Scalar k × P)
  | live v p => some (v, p)
  | _ => none

/-- The slot holds a value. -/
def isLive : Slot k P → Bool
  | live _ _ => true
  | _ => false

/-- The slot is a tombstone. -/
def isTombstone : Slot k P → Bool
  | tombstone => true
  | _ => false

@[simp] theorem content?_empty : (empty : Slot k P).content? = none := rfl

@[simp] theorem content?_tombstone : (tombstone : Slot k P).content? = none := rfl

@[simp] theorem content?_live (v : Scalar k) (p : P) : (live v p).content? = some (v, p) := rfl

@[simp] theorem isLive_empty : (empty : Slot k P).isLive = false := rfl

@[simp] theorem isLive_tombstone : (tombstone : Slot k P).isLive = false := rfl

@[simp] theorem isLive_live (v : Scalar k) (p : P) : (live v p).isLive = true := rfl

@[simp] theorem isTombstone_empty : (empty : Slot k P).isTombstone = false := rfl

@[simp] theorem isTombstone_tombstone : (tombstone : Slot k P).isTombstone = true := rfl

@[simp] theorem isTombstone_live (v : Scalar k) (p : P) : (live v p).isTombstone = false := rfl

theorem isSome_content? (s : Slot k P) : s.content?.isSome = s.isLive := by cases s <;> rfl

theorem content?_eq_some {s : Slot k P} {v : Scalar k} {p : P} (h : s.content? = some (v, p)) :
    s = live v p := by
  cases s with
  | empty => exact absurd h (by simp)
  | tombstone => exact absurd h (by simp)
  | live w q =>
    simp only [content?_live, Option.some.injEq, Prod.mk.injEq] at h
    rw [h.1, h.2]

end Slot

namespace Table

/-! ### Slots one by one -/

@[simp] theorem slots_update (t : Table k P) (i : ℕ) (s : Slot k P) (l d : ℕ) :
    (t.update i s l d).slots = t.slots.setIfInBounds i s := rfl

@[simp] theorem live_update (t : Table k P) (i : ℕ) (s : Slot k P) (l d : ℕ) :
    (t.update i s l d).live = l := rfl

@[simp] theorem tombstones_update (t : Table k P) (i : ℕ) (s : Slot k P) (l d : ℕ) :
    (t.update i s l d).tombstones = d := rfl

@[simp] theorem capacity_update (t : Table k P) (i : ℕ) (s : Slot k P) (l d : ℕ) :
    (t.update i s l d).capacity = t.capacity := by
  simp [capacity]

theorem lt_capacity_of_getElem? {t : Table k P} {i : ℕ} {s : Slot k P}
    (h : t.slots[i]? = some s) : i < t.capacity := (Array.getElem?_eq_some_iff.1 h).1

theorem exists_getElem?_of_lt {t : Table k P} {i : ℕ} (h : i < t.capacity) :
    ∃ s, t.slots[i]? = some s := ⟨t.slots[i], Array.getElem?_eq_getElem h⟩

theorem getElem?_update_self {t : Table k P} {i : ℕ} (h : i < t.capacity) (s : Slot k P)
    (l d : ℕ) : (t.update i s l d).slots[i]? = some s := by
  rw [slots_update, Array.getElem?_setIfInBounds_self_of_lt h]

theorem getElem?_update_ne {t : Table k P} {i j : ℕ} (h : i ≠ j) (s : Slot k P) (l d : ℕ) :
    (t.update i s l d).slots[j]? = t.slots[j]? := by
  rw [slots_update, Array.getElem?_setIfInBounds_ne h]

/-- A slot of an updated table is the new one, or is an old one elsewhere. -/
theorem getElem?_update_cases {t : Table k P} {i j : ℕ} {s s' : Slot k P} {l d : ℕ}
    (h : (t.update i s l d).slots[j]? = some s') :
    i = j ∧ s' = s ∨ i ≠ j ∧ t.slots[j]? = some s' := by
  by_cases hij : i = j
  · subst hij
    have hlt : i < t.capacity := by
      have hlt' := lt_capacity_of_getElem? h
      rwa [capacity_update] at hlt'
    rw [getElem?_update_self hlt] at h
    exact Or.inl ⟨rfl, (Option.some.inj h).symm⟩
  · rw [getElem?_update_ne hij] at h
    exact Or.inr ⟨hij, h⟩

theorem entry?_eq_some_iff {t : Table k P} {i : ℕ} {v : Scalar k} {p : P} :
    t.entry? i = some (v, p) ↔ t.slots[i]? = some (.live v p) := by
  unfold entry?
  constructor
  · intro h
    split at h
    · next w q hs => rw [hs, ← (Prod.mk.inj (Option.some.inj h)).1,
        ← (Prod.mk.inj (Option.some.inj h)).2]
    · exact absurd h (by simp)
  · intro h
    rw [h]

theorem isTombstone_eq_true_iff {t : Table k P} {i : ℕ} :
    t.isTombstone i = true ↔ t.slots[i]? = some .tombstone := by
  unfold isTombstone
  constructor
  · intro h
    split at h
    · next hs => exact hs
    · exact absurd h (by simp)
  · intro h
    rw [h]

/-! ### All slots together -/

/-- The slots, without their order. -/
def slotBag (t : Table k P) : Multiset (Slot k P) := (t.slots.toList : Multiset (Slot k P))

/-- The values of a table with their payloads, without the order of the slots. -/
def contents (t : Table k P) : Multiset (Scalar k × P) := t.slotBag.filterMap Slot.content?

/-- The keys of the values of a table. -/
def keys (t : Table k P) : Multiset UInt64 := t.contents.map fun c => c.1.key

theorem keys_congr {t t' : Table k P} (h : t'.contents = t.contents) : t'.keys = t.keys := by
  rw [keys, keys, h]

/-- Replacing a slot takes one element out of the multiset of slots and puts another one in. -/
theorem exists_slotBag_update {t : Table k P} {i : ℕ} {old : Slot k P}
    (h : t.slots[i]? = some old) :
    ∃ R : Multiset (Slot k P), t.slotBag = old ::ₘ R ∧
      ∀ s l d, (t.update i s l d).slotBag = s ::ₘ R := by
  obtain ⟨hlt, hget⟩ := Array.getElem?_eq_some_iff.1 h
  have hlen : i < t.slots.toList.length := hlt
  have hold : t.slots.toList[i] = old := hget
  refine ⟨(t.slots.toList.take i ++ t.slots.toList.drop (i + 1) : List (Slot k P)), ?_, ?_⟩
  · unfold slotBag
    conv_lhs => rw [← List.take_append_drop i t.slots.toList, List.drop_eq_getElem_cons hlen, hold]
    rw [Multiset.cons_coe]
    exact Multiset.coe_eq_coe.2 List.perm_middle
  · intro s l d
    unfold slotBag
    rw [slots_update, Array.toList_setIfInBounds, List.set_eq_take_append_cons_drop, if_pos hlen,
      Multiset.cons_coe]
    exact Multiset.coe_eq_coe.2 List.perm_middle

theorem mem_slotBag_iff {t : Table k P} {s : Slot k P} :
    s ∈ t.slotBag ↔ ∃ i : ℕ, t.slots[i]? = some s := by
  unfold slotBag
  rw [Multiset.mem_coe, List.mem_iff_getElem?]
  simp

theorem mem_contents_iff {t : Table k P} {c : Scalar k × P} :
    c ∈ t.contents ↔ ∃ i : ℕ, t.slots[i]? = some (.live c.1 c.2) := by
  unfold contents
  rw [Multiset.mem_filterMap]
  constructor
  · rintro ⟨s, hs, hc⟩
    obtain ⟨i, hi⟩ := mem_slotBag_iff.1 hs
    exact ⟨i, by rw [hi, Slot.content?_eq_some hc]⟩
  · rintro ⟨i, hi⟩
    exact ⟨.live c.1 c.2, mem_slotBag_iff.2 ⟨i, hi⟩, rfl⟩

theorem mem_keys_iff {t : Table k P} {key : UInt64} :
    key ∈ t.keys ↔
      ∃ (i : ℕ) (v : Scalar k) (p : P), t.slots[i]? = some (.live v p) ∧ v.key = key := by
  unfold keys
  rw [Multiset.mem_map]
  constructor
  · rintro ⟨c, hc, rfl⟩
    obtain ⟨i, hi⟩ := mem_contents_iff.1 hc
    exact ⟨i, c.1, c.2, hi, rfl⟩
  · rintro ⟨i, v, p, hi, rfl⟩
    exact ⟨(v, p), mem_contents_iff.2 ⟨i, hi⟩, rfl⟩

theorem card_contents (t : Table k P) : t.contents.card = t.slots.countP Slot.isLive := by
  unfold contents slotBag
  rw [Multiset.filterMap_coe, Multiset.coe_card, List.length_filterMap_eq_countP,
    ← Array.countP_toList]
  exact congrArg (fun f => List.countP f t.slots.toList) (funext Slot.isSome_content?)

theorem countP_slotBag (t : Table k P) (f : Slot k P → Bool) :
    t.slotBag.countP (fun s => f s = true) = t.slots.countP f := by
  unfold slotBag
  rw [Multiset.coe_countP, ← Array.countP_toList]
  simp

/-! ### Contents after one slot was replaced -/

section Update

variable {t : Table k P} {i : ℕ} {v w : Scalar k} {p q : P}

/-- Filling a slot that holds nothing. -/
theorem contents_fill {old : Slot k P} (h : t.slots[i]? = some old) (hold : old.content? = none)
    (v : Scalar k) (p : P) (l d : ℕ) :
    (t.update i (.live v p) l d).contents = (v, p) ::ₘ t.contents := by
  obtain ⟨R, hR, hupd⟩ := exists_slotBag_update h
  unfold contents
  rw [hupd, hR, Multiset.filterMap_cons_none _ _ hold,
    Multiset.filterMap_cons_some _ _ _ (Slot.content?_live v p)]

/-- Freeing a slot that holds something. -/
theorem contents_drop (h : t.slots[i]? = some (.live v p)) (l d : ℕ) :
    t.contents = (v, p) ::ₘ (t.update i .tombstone l d).contents := by
  obtain ⟨R, hR, hupd⟩ := exists_slotBag_update h
  unfold contents
  rw [hupd, hR, Multiset.filterMap_cons_none _ _ Slot.content?_tombstone,
    Multiset.filterMap_cons_some _ _ _ (Slot.content?_live v p)]

/-- Changing what a slot holds. -/
theorem exists_contents_swap (h : t.slots[i]? = some (.live v p)) (w : Scalar k) (q : P)
    (l d : ℕ) : ∃ R, t.contents = (v, p) ::ₘ R ∧
      (t.update i (.live w q) l d).contents = (w, q) ::ₘ R := by
  obtain ⟨R, hR, hupd⟩ := exists_slotBag_update h
  refine ⟨R.filterMap Slot.content?, ?_, ?_⟩
  · rw [contents, hR, Multiset.filterMap_cons_some _ _ _ (Slot.content?_live v p)]
  · rw [contents, hupd, Multiset.filterMap_cons_some _ _ _ (Slot.content?_live w q)]

/-- A count over all slots, after one of them was replaced. -/
theorem countP_update {old : Slot k P} (h : t.slots[i]? = some old) (f : Slot k P → Bool)
    (s : Slot k P) (l d : ℕ) :
    (t.update i s l d).slots.countP f + (f old).toNat = t.slots.countP f + (f s).toNat := by
  -- both multisets of slots have the same rest, which cancels
  have hcons : ∀ (a : Slot k P) (R : Multiset (Slot k P)),
      (a ::ₘ R).countP (fun s => f s = true) = R.countP (fun s => f s = true) + (f a).toNat := by
    intro a R
    cases hfa : f a with
    | false => exact Multiset.countP_cons_of_neg (p := fun s => f s = true) R (by simp [hfa])
    | true => exact Multiset.countP_cons_of_pos (p := fun s => f s = true) R hfa
  obtain ⟨R, hR, hupd⟩ := exists_slotBag_update h
  rw [← countP_slotBag, ← countP_slotBag, hupd, hR, hcons, hcons]
  omega

end Update

/-! ### Contents in slot order -/

/-- The live slot with a given index. -/
def entryAt? (t : Table k P) (i : ℕ) : Option (Entry k P) :=
  (t.entry? i).map fun c => ⟨i, c.1, c.2⟩

theorem entryAt?_of_live {t : Table k P} {i : ℕ} {v : Scalar k} {p : P}
    (h : t.slots[i]? = some (.live v p)) : t.entryAt? i = some ⟨i, v, p⟩ := by
  rw [entryAt?, entry?_eq_some_iff.2 h]
  rfl

theorem entryAt?_of_not_live {t : Table k P} {i : ℕ}
    (h : ∀ v p, t.slots[i]? = some (.live v p) → False) : t.entryAt? i = none := by
  rw [entryAt?, entry?]
  split
  · next v p hs => exact (h v p hs).elim
  · rfl

theorem scanOnto_eq (t : Table k P) (start n : ℕ) (rest : List (Entry k P)) :
    t.scanOnto start n rest = (List.range' start n).filterMap t.entryAt? ++ rest := by
  induction n generalizing rest with
  | zero => rfl
  | succ n ih =>
    rw [List.range'_1_concat, List.filterMap_append, scanOnto]
    split
    · next v p hs =>
      rw [ih, List.filterMap_cons_some (entryAt?_of_live hs), List.filterMap_nil, List.append_assoc]
      rfl
    · next hs =>
      rw [ih, List.filterMap_cons_none (entryAt?_of_not_live hs), List.filterMap_nil, List.append_nil]

theorem scan_eq (t : Table k P) (start stop : ℕ) :
    t.scan start stop = (List.range' start (stop - start)).filterMap t.entryAt? := by
  rw [scan, scanOnto_eq, List.append_nil]

theorem map_entryAt? (t : Table k P) (i : ℕ) :
    (t.entryAt? i).map (fun e => (e.value, e.payload)) = t.slots[i]?.bind Slot.content? := by
  unfold entryAt? entry?
  rcases t.slots[i]? with _ | _ | _ | ⟨v, p⟩ <;> rfl

/-- The live slots in slot order spell out the contents. -/
theorem map_entries (t : Table k P) :
    t.entries.map (fun e => (e.value, e.payload)) = t.slots.toList.filterMap Slot.content? := by
  -- the slots are read off by index, as the scan reads them
  have hslots : ∀ l : List (Slot k P),
      l.filterMap Slot.content?
        = (List.range l.length).filterMap (fun i => l[i]?.bind Slot.content?) := by
    intro l
    induction l with
    | nil => rfl
    | cons s l ih =>
      rw [List.length_cons, List.range_succ_eq_map, List.filterMap_cons, List.filterMap_cons, ih,
        List.filterMap_map]
      rfl
  rw [entries, scan_eq, List.map_filterMap, Nat.sub_zero, hslots, ← List.range_eq_range']
  refine List.filterMap_congr fun i _ => ?_
  rw [map_entryAt?, Array.getElem?_toList]

theorem coe_map_entries (t : Table k P) :
    (↑(t.entries.map fun e => (e.value, e.payload)) : Multiset (Scalar k × P)) = t.contents := by
  rw [map_entries, contents, slotBag, Multiset.filterMap_coe]

end Table

end Slotted
