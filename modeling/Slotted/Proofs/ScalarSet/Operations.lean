import Slotted.Proofs.Table.Filter
import Slotted.Proofs.Table.Rebuild
import Slotted.ScalarSet.Iter

/-!
# What each operation does to a set

The operations of a set whose table is sound, each described by its answer and by the contents of
the table after it.  The table stays sound in all of them.

## Main results

* `ScalarSet.contains_eq_true_iff`, `size_eq_card` — what a set says of its contents.
* `ScalarSet.add_of_mem`, `exists_add_of_notMem` — addition of a value that is there, and of one
  that is not.
* `ScalarSet.remove_of_notMem`, `exists_remove_of_mem` — the same for removal.
* `ScalarSet.exists_retainM` — what a predicate with effects leaves.
* `ScalarSet.sound_withCapacity`, `sound_reserve` — room asked for in advance.
-/

namespace Slotted
namespace ScalarSet

variable {k : Kind} {s s' : ScalarSet k} {v : Scalar k}

/-! ### What a set says of its contents -/

theorem contains_eq_true_iff (hs : s.table.Sound) : s.contains v = true ↔ v.key ∈ s.table.keys := by
  rw [contains, Option.isSome_iff_ne_none, ne_eq, hs.find_eq_none_iff, not_not]

theorem size_eq_card (hs : s.table.Sound) : s.size = s.table.keys.card := by
  rw [Table.keys, Multiset.card_map]
  exact hs.live_eq_card

theorem coe_toList (s : ScalarSet k) : (s.toList : Multiset _) = s.table.contents.map Prod.fst := by
  rw [← Table.coe_map_entries, Multiset.map_coe, List.map_map]
  rfl

theorem coe_map_key_toList (s : ScalarSet k) :
    (s.toList.map Scalar.key : Multiset _) = s.table.keys := by
  rw [← Multiset.map_coe, coe_toList, Multiset.map_map]
  rfl

theorem mem_map_key_toList_iff (s : ScalarSet k) {x : UInt64} :
    x ∈ s.toList.map Scalar.key ↔ x ∈ s.table.keys := by
  rw [← Multiset.mem_coe, coe_map_key_toList]

theorem mem_toList_iff : v ∈ s.toList ↔ (v, ()) ∈ s.table.contents := by
  rw [← Multiset.mem_coe, coe_toList, Multiset.mem_map]
  constructor
  · rintro ⟨⟨w, ⟨⟩⟩, hw, rfl⟩
    exact hw
  · intro h
    exact ⟨(v, ()), h, rfl⟩

theorem length_toList (hs : s.table.Sound) : s.toList.length = s.size := by
  rw [← Multiset.coe_card, coe_toList, Multiset.card_map]
  exact hs.live_eq_card.symm

/-! ### Adding and removing -/

/-- Adding a value that is there changes nothing, not even the layout. -/
theorem add_of_mem (hs : s.table.Sound) (h : v.key ∈ s.table.keys) : s.add v = pure (false, s) := by
  rcases hs.entry_cases v with ⟨i, w, q, hentry, -, -⟩ | ⟨t', i, -, -, hcontents, hready⟩
  · rw [add, hentry, pure_bind]
  · have habsent := hready.absent
    rw [Table.keys_congr hcontents] at habsent
    exact absurd h habsent

theorem exists_add_of_notMem (hs : s.table.Sound) (h : v.key ∉ s.table.keys) :
    ∃ s', (s.add v).val = (true, s') ∧ s'.table.Sound ∧
      s'.table.contents = (v, ()) ::ₘ s.table.contents := by
  rcases hs.entry_cases v with ⟨i, w, q, -, hslot, hkey⟩ | ⟨t', i, hval, hsound, hcontents, hready⟩
  · exact absurd (Table.mem_keys_iff.2 ⟨i, w, q, hslot, hkey⟩) h
  · refine ⟨⟨t'.occupy i v ()⟩, ?_, hsound.occupy_of_ready hready (), ?_⟩
    · rw [add, Traced.val_bind, hval]
      rfl
    · rw [← hcontents]
      exact Table.contents_occupy hready.free v ()

theorem remove_of_notMem (hs : s.table.Sound) (h : v.key ∉ s.table.keys) :
    s.remove v = (false, s) := by
  rw [remove, hs.find_eq_none_iff.2 h]

theorem exists_remove_of_mem (hs : s.table.Sound) (h : v.key ∈ s.table.keys) :
    ∃ w s', s.remove v = (true, s') ∧ w.key = v.key ∧ s'.table.Sound ∧
      s.table.contents = (w, ()) ::ₘ s'.table.contents := by
  obtain ⟨i, w, q, hslot, hkey⟩ := Table.mem_keys_iff.1 h
  refine ⟨w, ⟨s.table.vacate i⟩, ?_, hkey, hs.vacate hslot, Table.contents_vacate hslot⟩
  rw [remove, hs.find_eq_some_iff.2 ⟨w, q, hslot, hkey⟩]

/-- A list of values is added one by one. -/
theorem val_extend_cons (s : ScalarSet k) (v : Scalar k) (vs : List (Scalar k)) :
    (s.extend (v :: vs)).val = ((s.add v).val.2.extend vs).val := rfl

/-! ### Filtering -/

/-- A filter frees the slots of the entries that it rejects. -/
theorem retainM_run {σ : Type} (s : ScalarSet k) (keep : Scalar k → StateM σ Bool) (st : σ) :
    (s.retainM keep).run st =
      (⟨(Table.free (fun () () => ()) s.table ()
          ((rejectedM (fun e => keep e.value) s.table.entries).run st).1).1⟩,
        ((rejectedM (fun e => keep e.value) s.table.entries).run st).2) := by
  rw [retainM, Table.filterM_eq]
  rfl

theorem exists_retainM {σ : Type} (hs : s.table.Sound) (keep : Scalar k → StateM σ Bool) (st : σ) :
    ∃ s', (s.retainM keep).run st = (s', ((rejectedM keep s.toList).run st).2) ∧ s'.table.Sound ∧
      s.table.contents
        = (((rejectedM keep s.toList).run st).1.map fun v => (v, ()) : List _)
          + s'.table.contents := by
  have hsub := sublist_rejectedM (fun e : Entry k Unit => keep e.value) s.table.entries st
  obtain ⟨hsound, hcontents, -⟩ := hs.free (fun () () => ()) ()
    ((s.table.pairwise_slot_scan 0 s.table.capacity).sublist hsub)
    fun e he => Table.getElem?_of_mem_scan (hsub.subset he)
  rw [toList, run_rejectedM_map, List.map_map]
  exact ⟨_, retainM_run s keep st, hsound, hcontents⟩

/-! ### Room asked for in advance -/

theorem tryWithCapacity_eq_ok {n : ℕ} (h : tryWithCapacity n = .ok s) :
    Table.withCapacity n = .ok s.table := by
  rw [tryWithCapacity] at h
  cases ht : Table.withCapacity (k := k) (P := Unit) n with
  | error e =>
    rw [ht] at h
    exact absurd h (by simp)
  | ok t =>
    rw [ht] at h
    rw [← Except.ok.inj h]

theorem sound_withCapacity {n : ℕ} (h : tryWithCapacity n = .ok s) :
    s.table.Sound ∧ s.table.contents = 0 := Table.sound_withCapacity (tryWithCapacity_eq_ok h)

theorem toList_of_tryWithCapacity {n : ℕ} (h : tryWithCapacity n = .ok s) : s.toList = [] := by
  rw [← Multiset.coe_eq_zero, coe_toList, (sound_withCapacity h).2, Multiset.map_zero]

theorem tryWithCapacity_of_withCapacity {n : ℕ} (h : withCapacity n = .ok s) :
    tryWithCapacity n = .ok s := by
  rw [withCapacity] at h
  split at h
  · next s' hs => rw [hs, Except.ok.inj h]
  · exact absurd h (by simp)
  · exact absurd h (by simp)

/-- Room below the limit is granted. -/
theorem exists_tryWithCapacity_eq {n : ℕ} (h : n < Table.roomLimit) :
    ∃ s : ScalarSet k, tryWithCapacity n = .ok s := by
  obtain ⟨t, ht⟩ := Table.exists_withCapacity_eq (k := k) (P := Unit) (by decide) h
  rw [tryWithCapacity, ht]
  exact ⟨⟨t⟩, rfl⟩

/-- Room that is refused is past the limit. -/
theorem roomLimit_le_of_tryWithCapacity {n : ℕ} {f : Failure}
    (h : (tryWithCapacity n : Except Failure (ScalarSet k)) = .error f) : Table.roomLimit ≤ n := by
  by_contra hlt
  obtain ⟨s, hs⟩ := exists_tryWithCapacity_eq (k := k) (Nat.lt_of_not_le hlt)
  cases h.symm.trans hs

/-- A set with room is granted and empty, or the room asked for is past the limit. -/
theorem withCapacity_cases (k : Kind) (n : ℕ) :
    (∃ s : ScalarSet k, withCapacity n = .ok s ∧ s.table.Sound ∧ s.table.contents = 0) ∨
      Table.roomLimit ≤ n ∧ ∃ a, (withCapacity n : Except Abort (ScalarSet k)) = .error a := by
  unfold withCapacity
  cases hs : (tryWithCapacity n : Except Failure (ScalarSet k)) with
  | ok s => exact Or.inl ⟨s, rfl, sound_withCapacity hs⟩
  | error f =>
    refine Or.inr ⟨roomLimit_le_of_tryWithCapacity hs, ?_⟩
    cases f with
    | error e => exact ⟨_, rfl⟩
    | abort a => exact ⟨a, rfl⟩

theorem reserve_eq_ok {n : ℕ} {r : Traced (ScalarSet k)} (h : s.reserve n = .ok r) :
    ∃ r', s.table.reserve n = .ok r' ∧ r.val.table = r'.val := by
  rw [reserve] at h
  cases ht : s.table.reserve n with
  | error e =>
    rw [ht] at h
    exact absurd h (by simp)
  | ok r' =>
    rw [ht] at h
    refine ⟨r', rfl, ?_⟩
    rw [← Except.ok.inj h]
    rfl

theorem sound_reserve (hs : s.table.Sound) {n : ℕ} {r : Traced (ScalarSet k)}
    (h : s.reserve n = .ok r) :
    r.val.table.Sound ∧ r.val.table.contents = s.table.contents := by
  obtain ⟨r', hr', hval⟩ := reserve_eq_ok h
  obtain ⟨hsound, hcontents, -⟩ := hs.reserve hr'
  rw [hval]
  exact ⟨hsound, hcontents⟩

theorem exists_reserve_eq {n : ℕ} (h : s.size + n < Table.roomLimit)
    (hcap : s.capacity < 4 * Table.roomLimit) : ∃ r, s.reserve n = .ok r := by
  obtain ⟨r, hr⟩ := Table.exists_reserve_eq (t := s.table) (by decide) h hcap
  rw [reserve, hr]
  exact ⟨_, rfl⟩

end ScalarSet
end Slotted
