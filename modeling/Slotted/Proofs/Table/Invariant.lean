import Slotted.Proofs.Probe
import Slotted.Proofs.Scalar
import Slotted.Proofs.Sizing
import Slotted.Proofs.Table.Contents

/-!
# When a table is sound

A search gives up at the first empty slot of a probe sequence.  So a value is found only if it was
*reached*: no slot that its sequence visits before it is empty.  That, with exact counters, keys
that do not repeat and a load within the limit, is what every operation on a table keeps.

## Main definitions

* `Table.stop` — the slot where a probe sequence is after a number of moves.
* `Table.Reached` — a slot on a probe sequence with no empty slot before it.
* `Table.Sound` — the invariant of tables.

## Main results

* `Table.Sound.exists_empty` — a sound table that has slots has an empty one.
* `Table.Sound.live_eq_card`, `nodup_keys` — the contents of a sound table: how many they are, and
  that no two of them have one key.
* `Table.sound_ofSlots` — a table of empty slots is sound.
-/

namespace Slotted
namespace Table

variable {k : Kind} {P : Type}

/-- The slot where the probe sequence of a hash is after `n` moves. -/
def stop (t : Table k P) (hash : UInt64) (n : ℕ) : ℕ :=
  ((Probe.start hash t.capacity).iterate n).pos

/-- Slot `i` is on the probe sequence of a hash, and no slot before it on the sequence is empty. -/
def Reached (t : Table k P) (hash : UInt64) (i : ℕ) : Prop :=
  ∃ n, n < t.capacity ∧ t.stop hash n = i ∧ ∀ m, m < n → t.slots[t.stop hash m]? ≠ some .empty

/-- The invariant of tables. -/
structure Sound (t : Table k P) : Prop where
  /-- The number of slots is none, or a power of two that is at least eight. -/
  length : IsTableLength t.capacity
  /-- The first counter is the number of live slots. -/
  live_eq : t.live = t.slots.countP Slot.isLive
  /-- The second counter is the number of tombstones. -/
  tombstones_eq : t.tombstones = t.slots.countP Slot.isTombstone
  /-- No two live slots hold values with one key. -/
  distinct : ∀ {i j : ℕ} {v w : Scalar k} {p q : P}, t.slots[i]? = some (.live v p) →
    t.slots[j]? = some (.live w q) → v.key = w.key → i = j
  /-- Every live slot is reached by the probe sequence of its value. -/
  reached : ∀ {i : ℕ} {v : Scalar k} {p : P}, t.slots[i]? = some (.live v p) → t.Reached v.hash i
  /-- The slots in use are within the load limit. -/
  within : (t.live + t.tombstones) * k.load.den ≤ t.capacity * k.load.num

theorem stop_lt {t : Table k P} (hlen : IsTableLength t.capacity) (hcap : t.capacity ≠ 0)
    (hash : UInt64) (n : ℕ) : t.stop hash n < t.capacity :=
  Probe.pos_iterate_lt hash (hlen.isPowerOfTwo hcap) n

theorem exists_stop_eq {t : Table k P} (hlen : IsTableLength t.capacity) (hash : UInt64) {i : ℕ}
    (hi : i < t.capacity) : ∃ n, n < t.capacity ∧ t.stop hash n = i :=
  Probe.exists_pos_iterate_eq hash (hlen.isPowerOfTwo (by omega)) hi

/-! ### Tables without values -/

@[simp] theorem capacity_ofSlots (n : ℕ) : (ofSlots n : Table k P).capacity = n := by
  simp [ofSlots, capacity]

@[simp] theorem live_ofSlots (n : ℕ) : (ofSlots n : Table k P).live = 0 := rfl

@[simp] theorem tombstones_ofSlots (n : ℕ) : (ofSlots n : Table k P).tombstones = 0 := rfl

theorem eq_empty_of_getElem?_ofSlots {n i : ℕ} {s : Slot k P}
    (h : (ofSlots n : Table k P).slots[i]? = some s) : s = .empty := by
  rw [ofSlots, Array.getElem?_replicate] at h
  split at h
  · exact (Option.some.inj h).symm
  · exact absurd h (by simp)

theorem contents_ofSlots (n : ℕ) : (ofSlots n : Table k P).contents = 0 := by
  refine Multiset.eq_zero_of_forall_notMem fun c hc => ?_
  obtain ⟨i, hi⟩ := mem_contents_iff.1 hc
  exact absurd (eq_empty_of_getElem?_ofSlots hi) (by simp)

/-- A table of empty slots is sound. -/
theorem sound_ofSlots {n : ℕ} (hn : IsTableLength n) : (ofSlots n : Table k P).Sound where
  length := by rw [capacity_ofSlots]; exact hn
  live_eq := by rw [← card_contents, contents_ofSlots]; rfl
  tombstones_eq := by
    have hnone : ∀ s ∈ (ofSlots n : Table k P).slots, ¬ s.isTombstone = true := by
      intro s hs
      obtain ⟨i, hi⟩ := Array.mem_iff_getElem?.1 hs
      rw [eq_empty_of_getElem?_ofSlots hi]
      simp
    rw [Array.countP_eq_zero.2 hnone]
    rfl
  distinct := fun hi _ _ => absurd (eq_empty_of_getElem?_ofSlots hi) (by simp)
  reached := fun hi => absurd (eq_empty_of_getElem?_ofSlots hi) (by simp)
  within := by simp

theorem sound_empty : (empty : Table k P).Sound := sound_ofSlots isTableLength_zero

/-! ### What soundness gives -/

namespace Sound

variable {t : Table k P}

theorem live_eq_card (ht : t.Sound) : t.live = t.contents.card := by
  rw [ht.live_eq, card_contents]

theorem live_congr {t' : Table k P} (ht : t.Sound) (ht' : t'.Sound)
    (h : t'.contents = t.contents) : t'.live = t.live := by
  rw [ht'.live_eq_card, h, ← ht.live_eq_card]

theorem live_eq_zero (ht : t.Sound) (hcap : t.capacity = 0) : t.live = 0 := by
  have hwithin := ht.within
  rw [hcap, Nat.zero_mul, Nat.le_zero_eq, Nat.mul_eq_zero] at hwithin
  have hden := k.load_num_lt_den
  omega

theorem contents_eq_zero (ht : t.Sound) (hcap : t.capacity = 0) : t.contents = 0 :=
  Multiset.card_eq_zero.1 (ht.live_eq_card.symm.trans (ht.live_eq_zero hcap))

/-- Slots of which none is empty are all counted by the two counters. -/
theorem countP_add_countP {l : List (Slot k P)} (h : ∀ s ∈ l, s ≠ .empty) :
    l.countP Slot.isLive + l.countP Slot.isTombstone = l.length := by
  induction l with
  | nil => rfl
  | cons s l ih =>
    have ih := ih fun s hs => h s (List.mem_cons_of_mem _ hs)
    have hs := h s List.mem_cons_self
    rw [List.countP_cons, List.countP_cons, List.length_cons]
    cases s with
    | empty => exact absurd rfl hs
    | tombstone => simp; omega
    | live v p => simp; omega

/-- A sound table that has slots has an empty one. -/
theorem exists_empty (ht : t.Sound) (hcap : t.capacity ≠ 0) :
    ∃ i : ℕ, t.slots[i]? = some .empty := by
  by_contra hno
  have hall : ∀ s ∈ t.slots.toList, s ≠ .empty := by
    rintro s hs rfl
    obtain ⟨i, hi⟩ := List.mem_iff_getElem?.1 hs
    exact hno ⟨i, by rw [← hi, Array.getElem?_toList]⟩
  -- then the two counters count every slot, which is more than the load allows
  have hsum : t.live + t.tombstones = t.capacity := by
    rw [ht.live_eq, ht.tombstones_eq, ← Array.countP_toList, ← Array.countP_toList,
      countP_add_countP hall]
    rfl
  have hwithin := ht.within
  rw [hsum] at hwithin
  have hlt : t.capacity * k.load.num < t.capacity * k.load.den :=
    Nat.mul_lt_mul_of_pos_left k.load_num_lt_den (Nat.pos_of_ne_zero hcap)
  omega

/-- No two values of a sound table have one key. -/
theorem nodup_keys (ht : t.Sound) : t.keys.Nodup := by
  have hpair :
      (t.slots.toList.filterMap Slot.content?).Pairwise (fun c c' => c.1.key ≠ c'.1.key) := by
    rw [List.pairwise_filterMap, List.pairwise_iff_getElem]
    intro i j hi hj hij c hc c' hc' hkey
    have hslot : ∀ {i : ℕ} (hi : i < t.slots.toList.length) {c : Scalar k × P},
        t.slots.toList[i].content? = some c → t.slots[i]? = some (.live c.1 c.2) := by
      intro i hi c hc
      rw [← Array.getElem?_toList, List.getElem?_eq_getElem hi, Slot.content?_eq_some hc]
    exact hij.ne (ht.distinct (hslot hi hc) (hslot hj hc') hkey)
  rw [keys, contents, slotBag, Multiset.filterMap_coe, Multiset.map_coe, Multiset.coe_nodup]
  exact List.pairwise_map.2 hpair

/-- There are no more values than there are keys. -/
theorem card_keys_le (ht : t.Sound) : t.keys.card ≤ 256 ^ k.width := by
  -- the keys are different numbers below `256 ^ k.width`
  have hinj : Function.Injective UInt64.toNat := fun _ _ h => UInt64.toNat_inj.1 h
  have hnodup := ht.nodup_keys.map hinj
  have hsub : t.keys.map UInt64.toNat ⊆ Multiset.range (256 ^ k.width) := by
    intro x hx
    obtain ⟨y, hy, rfl⟩ := Multiset.mem_map.1 hx
    obtain ⟨c, -, rfl⟩ := Multiset.mem_map.1 hy
    exact Multiset.mem_range.2 c.1.key_lt
  have hle := Multiset.card_le_card ((Multiset.le_iff_subset hnodup).2 hsub)
  rwa [Multiset.card_map, Multiset.card_range] at hle

theorem live_le_pow (ht : t.Sound) : t.live ≤ 256 ^ k.width := by
  rw [ht.live_eq_card, ← Multiset.card_map fun c : Scalar k × P => c.1.key]
  exact ht.card_keys_le

/-- What is left of the contents when some of them are taken away: those with other keys. -/
theorem mem_iff_of_contents_eq_add (ht : t.Sound) {L R : Multiset (Scalar k × P)}
    (h : t.contents = L + R) {c : Scalar k × P} :
    c ∈ R ↔ c ∈ t.contents ∧ ∀ d ∈ L, d.1.key ≠ c.1.key := by
  have hnodup := ht.nodup_keys
  rw [keys, h, Multiset.map_add, Multiset.nodup_add] at hnodup
  obtain ⟨-, -, hdisjoint⟩ := hnodup
  rw [h, Multiset.mem_add]
  constructor
  · intro hc
    refine ⟨Or.inr hc, fun d hd hkey => ?_⟩
    exact Multiset.disjoint_left.1 hdisjoint (Multiset.mem_map_of_mem _ hd)
      (hkey ▸ Multiset.mem_map_of_mem _ hc)
  · rintro ⟨hc | hc, hne⟩
    · exact absurd rfl (hne c hc)
    · exact hc

theorem mem_iff_of_contents_eq_cons (ht : t.Sound) {d : Scalar k × P} {R : Multiset (Scalar k × P)}
    (h : t.contents = d ::ₘ R) {c : Scalar k × P} :
    c ∈ R ↔ c ∈ t.contents ∧ d.1.key ≠ c.1.key := by
  rw [ht.mem_iff_of_contents_eq_add (L := {d}) (R := R) (by rw [h, Multiset.singleton_add])]
  simp

end Sound

end Table
end Slotted
