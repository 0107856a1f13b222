import Slotted.Proofs.Table.Search

/-!
# Filling and freeing slots of a sound table

Filling a free slot, freeing a live one and changing a payload all replace one slot by another that
is not empty.  That closes no probe sequence, so whatever was reached stays reached; what remains
to be checked is the new slot itself, the two counters and the load.

## Main results

* `Table.Sound.update` — a slot replaced by one that is not empty.
* `Table.Sound.occupy`, `Sound.vacate`, `Sound.setPayload` — the operations keep a table sound.
* `Table.contents_occupy`, `contents_vacate`, `exists_contents_setPayload` — and what they do to
  the contents.
-/

namespace Slotted
namespace Table

variable {k : Kind} {P : Type} {t : Table k P} {i : ℕ} {v : Scalar k} {p : P}

/-! ### One slot replaced -/

theorem stop_update (t : Table k P) (i : ℕ) (s : Slot k P) (l d : ℕ) (hash : UInt64) (n : ℕ) :
    (t.update i s l d).stop hash n = t.stop hash n := by
  rw [stop, stop, capacity_update]

/-- What was reached stays reached when a slot is replaced by one that is not empty. -/
theorem Reached.update {hash : UInt64} {j : ℕ} (h : t.Reached hash j) (i : ℕ) {s : Slot k P}
    (hs : s ≠ .empty) (l d : ℕ) : (t.update i s l d).Reached hash j := by
  obtain ⟨n, hn, hstop, hopen⟩ := h
  refine ⟨n, by rwa [capacity_update], by rwa [stop_update], fun m hm hempty => ?_⟩
  rw [stop_update] at hempty
  rcases getElem?_update_cases hempty with ⟨-, he⟩ | ⟨-, he⟩
  · exact hs he.symm
  · exact hopen m hm he

/-- A slot replaced by one that is not empty: the new slot has to be reached and to hold no key of
another slot, and the counters have to follow. -/
theorem Sound.update (ht : t.Sound) {old s : Slot k P} {l d : ℕ} (h : t.slots[i]? = some old)
    (hs : s ≠ .empty)
    (hnew : ∀ v p, s = .live v p → t.Reached v.hash i ∧
      ∀ j w q, j ≠ i → t.slots[j]? = some (.live w q) → w.key ≠ v.key)
    (hl : l + old.isLive.toNat = t.live + s.isLive.toNat)
    (hd : d + old.isTombstone.toNat = t.tombstones + s.isTombstone.toNat)
    (hwithin : (l + d) * k.load.den ≤ t.capacity * k.load.num) : (t.update i s l d).Sound where
  length := by rw [capacity_update]; exact ht.length
  live_eq := by
    have hcount := countP_update h Slot.isLive s l d
    have hlive := ht.live_eq
    rw [live_update]
    omega
  tombstones_eq := by
    have hcount := countP_update h Slot.isTombstone s l d
    have htomb := ht.tombstones_eq
    rw [tombstones_update]
    omega
  distinct := by
    intro j j' v w p q hj hj' hkey
    -- each of the two is the new slot or an old one
    rcases getElem?_update_cases hj with ⟨rfl, hv⟩ | ⟨hne, hj⟩ <;>
      rcases getElem?_update_cases hj' with ⟨rfl, hw⟩ | ⟨hne', hj'⟩
    · rfl
    · exact absurd hkey.symm ((hnew v p hv.symm).2 j' w q hne'.symm hj')
    · exact absurd hkey ((hnew w q hw.symm).2 j v p hne.symm hj)
    · exact ht.distinct hj hj' hkey
  reached := by
    intro j v p hj
    rcases getElem?_update_cases hj with ⟨rfl, hv⟩ | ⟨-, hj⟩
    · exact (hnew v p hv.symm).1.update i hs l d
    · exact (ht.reached hj).update i hs l d
  within := by rw [live_update, tombstones_update, capacity_update]; exact hwithin

/-! ### Filling a free slot -/

@[simp] theorem capacity_occupy (t : Table k P) (i : ℕ) (v : Scalar k) (p : P) :
    (t.occupy i v p).capacity = t.capacity := capacity_update ..

@[simp] theorem live_occupy (t : Table k P) (i : ℕ) (v : Scalar k) (p : P) :
    (t.occupy i v p).live = t.live + 1 := rfl

theorem tombstones_occupy_of_empty (h : t.slots[i]? = some .empty) (v : Scalar k) (p : P) :
    (t.occupy i v p).tombstones = t.tombstones := by
  have hno : ¬ t.isTombstone i = true := by
    rw [isTombstone_eq_true_iff, h]
    simp
  rw [occupy, tombstones_update, if_neg hno]

theorem Sound.tombstones_pos (ht : t.Sound) (h : t.slots[i]? = some .tombstone) :
    0 < t.tombstones := by
  rw [ht.tombstones_eq, Array.countP_pos_iff]
  exact ⟨.tombstone, Array.mem_of_getElem? h, rfl⟩

theorem Sound.live_pos (ht : t.Sound) (h : t.slots[i]? = some (.live v p)) : 0 < t.live := by
  rw [ht.live_eq, Array.countP_pos_iff]
  exact ⟨.live v p, Array.mem_of_getElem? h, rfl⟩

/-- A free slot may be filled with a value it admits; an empty one only if the load allows it. -/
theorem Sound.occupy (ht : t.Sound) (hi : t.Admits v i)
    (hroom : t.slots[i]? = some .empty →
      (t.live + t.tombstones + 1) * k.load.den ≤ t.capacity * k.load.num) (p : P) :
    (t.occupy i v p).Sound := by
  have hnew : ∀ w q, Slot.live v p = .live w q → t.Reached w.hash i ∧
      ∀ j w' q', j ≠ i → t.slots[j]? = some (.live w' q') → w'.key ≠ w.key := by
    intro w q he
    obtain ⟨rfl, -⟩ := Slot.live.inj he
    exact ⟨hi.reached, fun j w' q' _ hj hkey => hi.absent (mem_keys_iff.2 ⟨j, w', q', hj, hkey⟩)⟩
  rcases hi.free with h | h
  · -- the value takes the place of the tombstone in the load
    have hpos := ht.tombstones_pos h
    have hwithin := ht.within
    refine ht.update h (by simp) hnew rfl ?_ ?_ <;> rw [if_pos (isTombstone_eq_true_iff.2 h)]
    · simp only [Slot.isTombstone_tombstone, Slot.isTombstone_live, Bool.toNat_true,
        Bool.toNat_false]
      omega
    · rwa [show t.live + 1 + (t.tombstones - 1) = t.live + t.tombstones by omega]
  · have hno : ¬ t.isTombstone i = true := by
      rw [isTombstone_eq_true_iff, h]
      simp
    refine ht.update h (by simp) hnew rfl ?_ ?_ <;> rw [if_neg hno]
    · simp
    · rw [Nat.add_right_comm]
      exact hroom h

theorem contents_occupy (h : t.slots[i]? = some .tombstone ∨ t.slots[i]? = some .empty)
    (v : Scalar k) (p : P) : (t.occupy i v p).contents = (v, p) ::ₘ t.contents := by
  rcases h with h | h
  · exact contents_fill h rfl v p _ _
  · exact contents_fill h rfl v p _ _

/-! ### Freeing a live slot -/

@[simp] theorem capacity_vacate (t : Table k P) (i : ℕ) : (t.vacate i).capacity = t.capacity :=
  capacity_update ..

theorem getElem?_vacate_ne {j : ℕ} (hij : i ≠ j) : (t.vacate i).slots[j]? = t.slots[j]? :=
  getElem?_update_ne hij ..

theorem Sound.vacate (ht : t.Sound) (h : t.slots[i]? = some (.live v p)) : (t.vacate i).Sound := by
  have hpos := ht.live_pos h
  have hwithin := ht.within
  refine ht.update h (by simp) (fun w q he => absurd he (by simp)) ?_ rfl ?_
  · simp only [Slot.isLive_live, Slot.isLive_tombstone, Bool.toNat_true, Bool.toNat_false]
    omega
  · rwa [show t.live - 1 + (t.tombstones + 1) = t.live + t.tombstones by omega]

theorem contents_vacate (h : t.slots[i]? = some (.live v p)) :
    t.contents = (v, p) ::ₘ (t.vacate i).contents := contents_drop h _ _

/-! ### Changing a payload -/

theorem setPayload_eq (h : t.slots[i]? = some (.live v p)) (q : P) :
    t.setPayload i q = t.update i (.live v q) t.live t.tombstones := by
  rw [setPayload]
  simp only [h]

theorem Sound.setPayload (ht : t.Sound) (i : ℕ) (q : P) : (t.setPayload i q).Sound := by
  rcases hs : t.slots[i]? with _ | _ | _ | ⟨v, p⟩
  · rw [Table.setPayload]
    simpa only [hs] using ht
  · rw [Table.setPayload]
    simpa only [hs] using ht
  · rw [Table.setPayload]
    simpa only [hs] using ht
  · rw [setPayload_eq hs]
    refine ht.update hs (by simp) ?_ rfl rfl ht.within
    intro w q' he
    obtain ⟨rfl, -⟩ := Slot.live.inj he
    exact ⟨ht.reached hs, fun j w' q'' hj hs' hkey => hj (ht.distinct hs' hs hkey)⟩

theorem exists_contents_setPayload (h : t.slots[i]? = some (.live v p)) (q : P) :
    ∃ R, t.contents = (v, p) ::ₘ R ∧ (t.setPayload i q).contents = (v, q) ::ₘ R := by
  rw [setPayload_eq h]
  exact exists_contents_swap h v q _ _

/-! ### Emptying every slot -/

theorem Sound.clear (ht : t.Sound) : t.clear.Sound := sound_ofSlots ht.length

theorem contents_clear (t : Table k P) : t.clear.contents = 0 := contents_ofSlots _

end Table
end Slotted
