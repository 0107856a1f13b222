import Slotted.Proofs.Churn.History

/-!
# Slots stay where they are between rebuilds

A value leaves its slot for another one only when the table is rebuilt, and the number of slots
changes only then.  Apart from requests for room, a rebuild is due in one case alone: a value is put
in that is absent, and there are no slots at all, or its probe sequence comes to an empty slot
without passing a tombstone and one more slot in use would be over the load limit.  If no rebuild is
due, putting in an absent value fills one free slot and touches no other.

## Main definitions

* `Table.TombstoneAhead` — a probe sequence comes to a tombstone before it comes to an empty slot.
* `Table.RebuildDue` — when adding a value rebuilds the table.
* `Table.FilledAt` — a table in which one free slot was filled.
* `Table.Absorbs` — what adding a value does to a table.
* `ScalarSet.Rebuilds`, `ScalarBag.Rebuilds` — the edits that rebuild.

## Main results

* `Table.Sound.isTombstone_iff_ahead` — a search for a place answers with a tombstone if there is
  one ahead.
* `Table.Sound.exists_entry_of_absent` — `entry` rebuilds for an absent value when that is due.
* `ScalarSet.absorbs_add`, `ScalarBag.absorbs_addOccurrences` — additions to sets and to bags.
* `slots_stable` — which edits rebuild, and that all others leave every value in its slot.
-/

namespace Slotted

variable {k : Kind} {P : Type}

namespace Table

variable {t t' t'' : Table k P} {r : Traced (Table k P)} {x : Stage k P} {i : ℕ} {v : Scalar k}
  {key hash : UInt64}

/-! ### Tombstones ahead -/

/-- The probe sequence of a hash comes to a tombstone before it comes to an empty slot. -/
def TombstoneAhead (t : Table k P) (hash : UInt64) : Prop :=
  ∃ i, t.Reached hash i ∧ t.slots[i]? = some .tombstone

/-- A search that remembers a tombstone answers with no other place. -/
theorem eq_of_searchPlace_remembered {fuel j : ℕ} {p : Probe}
    (h : t.searchPlace key fuel p (some j) = .vacant i) : i = j := by
  induction fuel generalizing p with
  | zero => exact (Place.vacant.inj h).symm
  | succ fuel ih =>
    rcases hs : t.slots[p.pos]? with _ | _ | _ | ⟨w, q⟩
    · rw [searchPlace] at h
      simp only [hs] at h
      exact (Place.vacant.inj h).symm
    · rw [searchPlace_of_empty hs] at h
      exact (Place.vacant.inj h).symm
    · rw [searchPlace_of_tombstone hs] at h
      exact ih h
    · rw [searchPlace_of_live hs] at h
      split at h
      · exact absurd h (by simp)
      · exact ih h

/-- A search that will come to a tombstone, at step `N`, answers with that one or an earlier one. -/
theorem tombstone_of_searchPlace {fuel N n : ℕ} (hbound : ∀ m, t.stop hash m < t.capacity)
    (htomb : t.slots[t.stop hash N]? = some .tombstone)
    (hopen : ∀ m, m < N → t.slots[t.stop hash m]? ≠ some .empty) (hn : n ≤ N) (hN : N < n + fuel)
    (h : t.searchPlace key fuel ((Probe.start hash t.capacity).iterate n) none = .vacant i) :
    t.slots[i]? = some .tombstone := by
  -- induct on the steps that may still be made; no tombstone has been met so far
  induction fuel generalizing n with
  | zero => omega
  | succ fuel ih =>
    obtain ⟨s, hs⟩ := exists_getElem?_of_lt (hbound n)
    cases s with
    | empty =>
      rcases Nat.lt_or_eq_of_le hn with hlt | rfl
      · exact absurd hs (hopen n hlt)
      · exact absurd (hs.symm.trans htomb) (by simp)
    | tombstone =>
      rw [searchPlace_of_tombstone hs] at h
      rw [eq_of_searchPlace_remembered h]
      exact hs
    | live w q =>
      have hlt : n < N := by
        refine Nat.lt_of_le_of_ne hn ?_
        rintro rfl
        exact absurd (hs.symm.trans htomb) (by simp)
      rw [searchPlace_of_live hs] at h
      split at h
      · exact absurd h (by simp)
      · exact ih hlt (by omega) h

/-- The place that a search answers with is a tombstone exactly if there is one ahead. -/
theorem Sound.isTombstone_iff_ahead (ht : t.Sound) (hcap : t.capacity ≠ 0)
    (h : t.locate v = .vacant i) :
    t.slots[i]? = some .tombstone ↔ t.TombstoneAhead v.hash := by
  constructor
  · intro hslot
    rcases ht.locate_cases hcap v with ⟨j, w, q, hfound, -, -⟩ | ⟨j, hvacant, hadmits⟩
    · exact absurd (h.symm.trans hfound) (by simp)
    · obtain rfl := Place.vacant.inj (h.symm.trans hvacant)
      exact ⟨i, hadmits.reached, hslot⟩
  · rintro ⟨j, ⟨N, hN, rfl, hopen⟩, htomb⟩
    exact tombstone_of_searchPlace (n := 0) (stop_lt ht.length hcap v.hash) htomb hopen
      (Nat.zero_le N) (by omega) h

/-! ### When a rebuild is due -/

/-- Adding a value rebuilds the table: the value is absent, and there are no slots, or no tombstone
that it could take and one more slot in use would be over the limit. -/
structure RebuildDue (t : Table k P) (v : Scalar k) : Prop where
  /-- The value is absent. -/
  absent : t.find v = none
  /-- There is no place for it. -/
  full : t.capacity = 0 ∨ ¬ t.TombstoneAhead v.hash ∧ t.overLimit 1 = true

theorem Sound.exists_locate_eq_vacant (ht : t.Sound) (hcap : t.capacity ≠ 0) (h : v.key ∉ t.keys) :
    ∃ i, t.locate v = .vacant i := by
  rcases ht.locate_cases hcap v with ⟨i, w, q, -, hslot, hkey⟩ | ⟨i, hvacant, -⟩
  · exact absurd (mem_keys_iff.2 ⟨i, w, q, hslot, hkey⟩) h
  · exact ⟨i, hvacant⟩

/-- When a rebuild is due, `entry` makes it. -/
theorem Sound.rebuilds_entry_ne_nil (ht : t.Sound) (hdue : t.RebuildDue v) :
    (t.entry v).rebuilds ≠ [] := by
  by_cases hcap : t.capacity = 0
  · rw [ht.entry_of_capacity_eq_zero hcap, Traced.rebuilds_bind]
    exact List.cons_ne_nil _ _
  · obtain ⟨i, hvacant⟩ := ht.exists_locate_eq_vacant hcap (ht.find_eq_none_iff.1 hdue.absent)
    obtain ⟨hahead, hfull⟩ := hdue.full.resolve_left hcap
    have hslot := mt (ht.isTombstone_iff_ahead hcap hvacant).1 hahead
    rw [entry_of_full hcap hvacant hslot hfull, Traced.rebuilds_bind]
    exact List.cons_ne_nil _ _

/-- When none is due, `entry` answers with a place for an absent value in the table as it is. -/
theorem Sound.exists_entry_eq_pure (ht : t.Sound) (h : v.key ∉ t.keys) (hdue : ¬ t.RebuildDue v) :
    ∃ i, t.entry v = pure (t, .vacant i) := by
  have hnone := ht.find_eq_none_iff.2 h
  have hcap : t.capacity ≠ 0 := fun hcap => hdue ⟨hnone, Or.inl hcap⟩
  obtain ⟨i, hvacant⟩ := ht.exists_locate_eq_vacant hcap h
  refine ⟨i, entry_of_vacant hcap hvacant ?_⟩
  by_contra hno
  rw [not_or, Bool.not_eq_false] at hno
  exact hdue ⟨hnone, Or.inr ⟨mt (ht.isTombstone_iff_ahead hcap hvacant).2 hno.1, hno.2⟩⟩

/-- `entry` finds a free slot for an absent value, and rebuilds the table for that exactly when this
is due. -/
theorem Sound.exists_entry_of_absent (ht : t.Sound) (h : v.key ∉ t.keys) :
    ∃ r i, t.entry v = (fun t' => (t', Place.vacant i)) <$> r ∧ r.val.contents = t.contents ∧
      (r.val.slots[i]? = some .tombstone ∨ r.val.slots[i]? = some .empty) ∧
      (t.RebuildDue v → r.rebuilds ≠ []) ∧ (¬ t.RebuildDue v → r = pure t) := by
  rcases ht.entry_cases v with ⟨i, w, q, -, hslot, hkey⟩ | ⟨t', i, hval, -, hcontents, hready⟩
  · exact absurd (mem_keys_iff.2 ⟨i, w, q, hslot, hkey⟩) h
  refine ⟨⟨t', (t.entry v).rebuilds⟩, i, Traced.ext hval (by rw [Traced.rebuilds_map]), hcontents,
    hready.free, fun hdue => ht.rebuilds_entry_ne_nil hdue, fun hdue => ?_⟩
  obtain ⟨j, hpure⟩ := ht.exists_entry_eq_pure h hdue
  rw [hpure] at hval ⊢
  obtain ⟨rfl, -⟩ := Prod.mk.inj hval
  rfl

/-! ### One slot filled -/

/-- Slot `i` of the first table was free and holds a value in the second, and every other slot is as
it was. -/
structure FilledAt (t : Table k P) (i : ℕ) (v : Scalar k) (p : P) (t' : Table k P) : Prop where
  /-- The number of slots. -/
  capacity : t'.capacity = t.capacity
  /-- The slot held no value. -/
  free : t.slots[i]? = some .tombstone ∨ t.slots[i]? = some .empty
  /-- The slot holds the value. -/
  filled : t'.slots[i]? = some (.live v p)
  /-- The other slots. -/
  others : ∀ j, j ≠ i → t'.slots[j]? = t.slots[j]?

theorem filledAt_occupy (h : t.slots[i]? = some .tombstone ∨ t.slots[i]? = some .empty)
    (v : Scalar k) (p : P) : t.FilledAt i v p (t.occupy i v p) where
  capacity := capacity_occupy t i v p
  free := h
  filled := getElem?_occupy_self h v p
  others := fun _ hj => getElem?_update_ne hj.symm ..

/-! ### What an addition does -/

theorem Keeps.refl (t : Table k P) : t.Keeps t := ⟨rfl, fun h _ => ⟨_, h⟩⟩

/-- Values that are not lost on the way keep their slots through two changes. -/
theorem Keeps.trans_of_subset (h : t.Keeps t') (h' : t'.Keeps t'') (ht' : t'.Sound)
    (hkeys : t.keys ⊆ t'.keys) : t.Keeps t'' where
  capacity := h'.capacity.trans h.capacity
  slot := by
    intro i v p hslot hsome
    have hmem : v.key ∈ t'.keys := hkeys (mem_keys_iff.2 ⟨i, v, p, hslot, rfl⟩)
    have hfound : (t'.find v).isSome = true := by
      rw [Option.isSome_iff_ne_none, ne_eq, ht'.find_eq_none_iff, not_not]
      exact hmem
    obtain ⟨q, hq⟩ := h.slot hslot hfound
    exact h'.slot hq hsome

/-- A change that rebuilds nothing leaves the values in their slots. -/
theorem Passes.keeps_of_rebuilds (h : t.Passes x) (ht : t.Sound) (hnil : x.rebuilds = []) :
    t.Keeps x.table := by
  cases h with
  | inserted hroom hready p =>
    cases hroom with
    | ready _ => exact keeps_occupy hready.free _ p
    | first _ => exact absurd hnil (List.cons_ne_nil _ _)
    | grown _ _ => exact absurd hnil (List.cons_ne_nil _ _)
  | eased h _ => exact h.keeps ht
  | reserved h =>
    rcases reserve_eq_ok h with rfl | ⟨s, -, rfl⟩
    · exact .refl t
    · exact absurd hnil (List.cons_ne_nil _ _)

theorem PassesAll.keeps_of_rebuilds (h : t.PassesAll [x] t') (ht : t.Sound)
    (hnil : x.rebuilds = []) : t.Keeps t' := by
  obtain - | ⟨hx, hrest⟩ := h
  cases hrest
  exact hx.keeps_of_rebuilds ht hnil

/-- What adding a value does to a table: it is rebuilt exactly when that is due.  If it is not, an
absent value fills one slot. -/
structure Absorbs (t : Table k P) (v : Scalar k) (p : P) (r : Traced (Table k P)) : Prop where
  /-- The table is rebuilt if that is due, and else not. -/
  rebuilds : r.rebuilds ≠ [] ↔ t.RebuildDue v
  /-- Without a rebuild an absent value fills a slot. -/
  filled : t.find v = none → ¬ t.RebuildDue v → ∃ i, t.FilledAt i v p r.val
  /-- No value is lost. -/
  keys : t.keys ⊆ r.val.keys

/-- If the value is there, nothing is rebuilt. -/
theorem Sound.absorbs_of_mem (ht : t.Sound) (h : v.key ∈ t.keys) (hkeys : t'.keys = t.keys)
    (p : P) : t.Absorbs v p (pure t') := by
  have hfound : t.find v ≠ none := by
    rw [ne_eq, ht.find_eq_none_iff, not_not]
    exact h
  exact ⟨⟨fun hne => absurd rfl hne, fun hdue => absurd hdue.absent hfound⟩,
    fun hnone => absurd hnone hfound, Multiset.subset_of_le hkeys.ge⟩

/-- A value that is absent is put into the slot that `entry` answers with. -/
theorem Sound.exists_absorbs (ht : t.Sound) (h : v.key ∉ t.keys) :
    ∃ r i, t.entry v = (fun t' => (t', Place.vacant i)) <$> r ∧
      ∀ p, t.Absorbs v p ((fun t' => t'.occupy i v p) <$> r) := by
  obtain ⟨r, i, hentry, hcontents, hfree, hdue, hroom⟩ := ht.exists_entry_of_absent h
  refine ⟨r, i, hentry, fun p => ⟨⟨fun hne => ?_, fun hd => ?_⟩, fun _ hd => ?_, ?_⟩⟩
  · by_contra hd
    rw [hroom hd] at hne
    exact hne rfl
  · rw [Traced.rebuilds_map]
    exact hdue hd
  · rw [hroom hd] at hfree ⊢
    exact ⟨i, filledAt_occupy hfree v p⟩
  · show t.keys ⊆ (r.val.occupy i v p).keys
    rw [keys, keys, contents_occupy hfree, hcontents, Multiset.map_cons]
    exact Multiset.subset_cons _ _

/-- A request for room rebuilds the table if there is not enough and the request is granted. -/
theorem rebuilds_reserving_ne_nil_iff [Payload P] (t : Table k P) (n : ℕ) :
    (Stage.reserving t (t.reserve n)).rebuilds ≠ [] ↔
      t.overLimit n = true ∧ (t.reserve n).isOk = true := by
  cases h : t.reserve n with
  | error e => exact ⟨fun hne => absurd rfl hne, fun hok => absurd hok.2 Bool.false_ne_true⟩
  | ok r =>
    cases hfull : t.overLimit n with
    | false =>
      rw [reserve_of_room hfull] at h
      rw [← Except.ok.inj h]
      exact ⟨fun hne => absurd rfl hne, fun hok => absurd hok.1 Bool.false_ne_true⟩
    | true =>
      obtain ⟨s, -, rfl⟩ := exists_rebuild_of_reserve hfull h
      exact ⟨fun _ => ⟨rfl, rfl⟩, fun _ => List.cons_ne_nil _ _⟩

end Table

/-! ### Sets -/

namespace ScalarSet

variable {s : ScalarSet k} {v : Scalar k}

/-- Adding a list of values rebuilds the table: for one of them that is due when its turn comes. -/
def ExtendRebuilds : ScalarSet k → List (Scalar k) → Prop
  | _, [] => False
  | s, v :: vs => s.table.RebuildDue v ∨ ExtendRebuilds (s.add v).val.2 vs

/-- The edits that rebuild the table of a set. -/
def Rebuilds (s : ScalarSet k) : SetEdit k → Prop
  | .add v => s.table.RebuildDue v
  | .reserve n => s.table.overLimit n = true ∧ (s.reserve n).isOk = true
  | .extend vs => s.ExtendRebuilds vs
  | _ => False

theorem absorbs_add (hs : s.table.Sound) (v : Scalar k) :
    s.table.Absorbs v () ((fun r => r.2.table) <$> s.add v) := by
  by_cases hmem : v.key ∈ s.table.keys
  · rw [add_of_mem hs hmem, map_pure]
    exact hs.absorbs_of_mem hmem rfl ()
  · obtain ⟨r, i, hentry, habsorbs⟩ := hs.exists_absorbs hmem
    have hadd : (fun r => r.2.table) <$> s.add v = (fun t' => t'.occupy i v ()) <$> r := by
      rw [add, hentry, map_bind, bind_map_left]
      exact (map_eq_pure_bind _ r).symm
    rw [hadd]
    exact habsorbs ()

theorem rebuilds_addStage_ne_nil_iff (hs : s.table.Sound) (v : Scalar k) :
    (s.addStage v).rebuilds ≠ [] ↔ s.table.RebuildDue v := by
  rw [← (absorbs_add hs v).rebuilds]
  rfl

theorem exists_rebuilds_extendStages_iff (hs : s.table.Sound) (vs : List (Scalar k)) :
    (∃ x ∈ s.extendStages vs, x.rebuilds ≠ []) ↔ s.ExtendRebuilds vs := by
  induction vs generalizing s with
  | nil => simp [extendStages, ExtendRebuilds]
  | cons v vs ih =>
    rw [extendStages, List.exists_mem_cons_iff, rebuilds_addStage_ne_nil_iff hs,
      ih (sound_add hs v), ExtendRebuilds]

theorem keeps_extend (hs : s.table.Sound) {vs : List (Scalar k)} (h : ¬ s.ExtendRebuilds vs) :
    s.table.Keeps (s.extend vs).val.table := by
  induction vs generalizing s with
  | nil => exact .refl _
  | cons v vs ih =>
    rw [ExtendRebuilds, not_or] at h
    have hnext := sound_add hs v
    have hkeeps := (passes_addStage hs v).keeps_of_rebuilds hs
      (not_not.1 (mt (rebuilds_addStage_ne_nil_iff hs v).1 h.1))
    exact hkeeps.trans_of_subset (ih hnext h.2) hnext (absorbs_add hs v).keys

theorem isOk_reserve (s : ScalarSet k) (n : ℕ) : (s.reserve n).isOk = (s.table.reserve n).isOk := by
  rw [reserve]
  cases s.table.reserve n <;> rfl

/-- The edits that rebuild the table are known beforehand. -/
theorem Reachable.exists_rebuilds_iff (h : s.Reachable) (e : SetEdit k) :
    (∃ x ∈ s.stages e, x.rebuilds ≠ []) ↔ s.Rebuilds e := by
  cases e with
  | add v => simp [stages, rebuilds_addStage_ne_nil_iff h.sound, Rebuilds]
  | reserve n =>
    rw [stages, List.exists_mem_cons_iff, map_table_reserve, Table.rebuilds_reserving_ne_nil_iff,
      ← isOk_reserve]
    simp [Rebuilds]
  | extend vs => exact exists_rebuilds_extendStages_iff h.sound vs
  | remove _ | retain _ _ _ | clear | cursor _ => simp [stages, Stage.easing, Rebuilds]

/-- All other edits leave the elements in their slots. -/
theorem Reachable.keeps_edited (h : s.Reachable) {e : SetEdit k} (hno : ¬ s.Rebuilds e) :
    s.table.Keeps (s.edited e).table := by
  have hnil : ∀ x ∈ s.stages e, x.rebuilds = [] := by
    rw [← h.exists_rebuilds_iff] at hno
    intro x hx
    by_contra hne
    exact hno ⟨x, hx, hne⟩
  have hpasses := h.passesAll e
  cases e with
  | extend vs => exact keeps_extend h.sound hno
  | add _ | reserve _ => exact hpasses.keeps_of_rebuilds h.sound (hnil _ List.mem_cons_self)
  | remove _ | retain _ _ _ | clear | cursor _ => exact hpasses.keeps_of_rebuilds h.sound rfl

end ScalarSet

/-! ### Bags -/

namespace ScalarBag

variable {b : ScalarBag k} {v : Scalar k} {n : ℕ}

/-- Adding `n` occurrences of a value rebuilds the table: there are some to add, they are not too
many, and a rebuild is due. -/
structure RebuildDue (b : ScalarBag k) (v : Scalar k) (n : ℕ) : Prop where
  /-- There are occurrences to add. -/
  ne_zero : n ≠ 0
  /-- The total stays a machine word. -/
  total_le : b.total + n ≤ maxWord
  /-- The table cannot take the value as it is. -/
  table : b.table.RebuildDue v

/-- Adding a list of values rebuilds the table: for one of them that is due when its turn comes. -/
def ExtendRebuilds : ScalarBag k → List (Scalar k) → Prop
  | _, [] => False
  | b, v :: vs => b.RebuildDue v 1 ∨
    match (b.add v).val with
    | (.ok _, b') => ExtendRebuilds b' vs
    | (.error _, _) => False

/-- The edits that rebuild the table of a bag. -/
def Rebuilds (b : ScalarBag k) : BagEdit k → Prop
  | .add v => b.RebuildDue v 1
  | .addOccurrences v n => b.RebuildDue v n
  | .setOccurrences v n => b.RebuildDue v n
  | .reserve n => b.table.overLimit n = true ∧ (b.reserve n).isOk = true
  | .extend vs => b.ExtendRebuilds vs
  | _ => False

theorem absorbs_addOccurrences (hb : b.Sound) (v : Scalar k) (hn : n ≠ 0)
    (hle : b.total + n ≤ maxWord) :
    b.table.Absorbs v n ((fun r => r.2.table) <$> b.addOccurrences v n) := by
  rw [addOccurrences, if_neg hn, addCount?_eq_some hle]
  simp only [map_bind]
  by_cases hmem : v.key ∈ b.table.keys
  · rcases hb.table.entry_cases v with ⟨i, w, m, hentry, hslot, -⟩ | ⟨t', i, -, -, hc, hready⟩
    · -- only the count of the value changes
      obtain ⟨R, hold, hnew⟩ := Table.exists_contents_setPayload hslot
        (((b.table.entry? i).map (·.2)).getD 0 + n)
      rw [hentry, pure_bind, map_pure]
      refine hb.table.absorbs_of_mem hmem ?_ n
      rw [Table.keys, Table.keys, hnew, hold, Multiset.map_cons, Multiset.map_cons]
    · exact absurd (Table.keys_congr hc ▸ hmem) hready.absent
  · obtain ⟨r, i, hentry, habsorbs⟩ := hb.table.exists_absorbs hmem
    rw [hentry, bind_map_left]
    simp only [map_pure]
    rw [← map_eq_pure_bind]
    exact habsorbs n

theorem rebuilds_addOccurrences_ne_nil_iff (hb : b.Sound) (v : Scalar k) (n : ℕ) :
    (b.addOccurrences v n).rebuilds ≠ [] ↔ b.RebuildDue v n := by
  by_cases hn : n = 0
  · subst hn
    exact ⟨fun hne => absurd rfl hne, fun hdue => absurd rfl hdue.ne_zero⟩
  by_cases hle : b.total + n ≤ maxWord
  · have hrebuilds := (absorbs_addOccurrences hb v hn hle).rebuilds
    rw [Traced.rebuilds_map] at hrebuilds
    exact ⟨fun hne => ⟨hn, hle, hrebuilds.1 hne⟩, fun hdue => hrebuilds.2 hdue.table⟩
  · rw [addOccurrences_of_overflow hb v (Nat.lt_of_not_le hle)]
    exact ⟨fun hne => absurd rfl hne, fun hdue => absurd hdue.total_le hle⟩

theorem rebuilds_setOccurrences_ne_nil_iff (hb : b.Sound) (v : Scalar k) (n : ℕ) :
    (b.setOccurrences v n).rebuilds ≠ [] ↔ b.RebuildDue v n := by
  by_cases hmem : v.key ∈ b.table.keys
  · -- the count of a value that is there is raised or lowered in its slot
    have hfound : b.table.find v ≠ none := by
      rw [ne_eq, hb.table.find_eq_none_iff, not_not]
      exact hmem
    refine ⟨fun hne => ?_, fun hdue => absurd hdue.table.absent hfound⟩
    simp only [setOccurrences] at hne
    split at hne
    · rw [Traced.rebuilds_bind, Traced.rebuilds_pure, List.append_nil] at hne
      exact absurd ((rebuilds_addOccurrences_ne_nil_iff hb v _).1 hne).table.absent hfound
    · split at hne <;> exact absurd rfl hne
  · simp only [setOccurrences, occurrencesOf_eq_zero hb hmem]
    rcases Nat.eq_zero_or_pos n with rfl | hn
    · exact ⟨fun hne => absurd rfl hne, fun hdue => absurd rfl hdue.ne_zero⟩
    · rw [if_pos hn, Traced.rebuilds_bind, Traced.rebuilds_pure, List.append_nil, Nat.sub_zero]
      exact rebuilds_addOccurrences_ne_nil_iff hb v n

theorem rebuilds_addStage_ne_nil_iff (hb : b.Sound) (v : Scalar k) :
    (b.addStage v).rebuilds ≠ [] ↔ b.RebuildDue v 1 := by
  rw [rebuilds_addStage, add, Traced.rebuilds_bind, Traced.rebuilds_pure, List.append_nil]
  exact rebuilds_addOccurrences_ne_nil_iff hb v 1

theorem exists_rebuilds_extendStages_iff (hb : b.Sound) (vs : List (Scalar k)) :
    (∃ x ∈ b.extendStages vs, x.rebuilds ≠ []) ↔ b.ExtendRebuilds vs := by
  induction vs generalizing b with
  | nil => simp [extendStages, ExtendRebuilds]
  | cons v vs ih =>
    have hnext := sound_add hb v
    rw [extendStages, List.exists_mem_cons_iff, rebuilds_addStage_ne_nil_iff hb, ExtendRebuilds]
    refine or_congr_right ?_
    rcases hadd : (b.add v).val with ⟨r, b'⟩
    rw [hadd] at hnext
    cases r with
    | ok fresh => exact ih hnext
    | error a => simp

/-- An addition loses no value, be it refused or not. -/
theorem keys_subset_add (hb : b.Sound) (v : Scalar k) :
    b.table.keys ⊆ (b.add v).val.2.table.keys := by
  by_cases hle : b.total + 1 ≤ maxWord
  · exact (absorbs_addOccurrences hb v Nat.one_ne_zero hle).keys
  · rw [add_of_overflow hb v (Nat.lt_of_not_le hle)]
    exact Multiset.Subset.refl _

theorem keeps_extend (hb : b.Sound) {vs : List (Scalar k)} (h : ¬ b.ExtendRebuilds vs) :
    b.table.Keeps (b.extend vs).val.2.table := by
  induction vs generalizing b with
  | nil => exact .refl _
  | cons v vs ih =>
    rw [ExtendRebuilds, not_or] at h
    have hnext := sound_add hb v
    have hkeys := keys_subset_add hb v
    have hkeeps : b.table.Keeps (b.add v).val.2.table :=
      (passes_addStage hb v).keeps_of_rebuilds hb.table
        (not_not.1 (mt (rebuilds_addStage_ne_nil_iff hb v).1 h.1))
    rw [extend, Traced.val_bind]
    rcases hadd : (b.add v).val with ⟨r, b'⟩
    rw [hadd] at h hnext hkeys hkeeps
    cases r with
    | ok fresh => exact hkeeps.trans_of_subset (ih hnext h.2) hnext.table hkeys
    | error a => exact hkeeps

theorem isOk_reserve (b : ScalarBag k) (n : ℕ) : (b.reserve n).isOk = (b.table.reserve n).isOk := by
  rw [reserve]
  cases b.table.reserve n <;> rfl

/-- The edits that rebuild the table are known beforehand. -/
theorem Reachable.exists_rebuilds_iff (h : b.Reachable) (e : BagEdit k) :
    (∃ x ∈ b.stages e, x.rebuilds ≠ []) ↔ b.Rebuilds e := by
  cases e with
  | add v => simp [stages, rebuilds_addStage_ne_nil_iff h.sound, Rebuilds]
  | addOccurrences v n =>
    simp [stages, Stage.adding, rebuilds_addOccurrences_ne_nil_iff h.sound, Rebuilds]
  | setOccurrences v n =>
    simp [stages, Stage.adding, rebuilds_setOccurrences_ne_nil_iff h.sound, Rebuilds]
  | reserve n =>
    rw [stages, List.exists_mem_cons_iff, map_table_reserve, Table.rebuilds_reserving_ne_nil_iff,
      ← isOk_reserve]
    simp [Rebuilds]
  | extend vs => exact exists_rebuilds_extendStages_iff h.sound vs
  | remove _ | removeOccurrences _ _ | retain _ _ _ | clear | cursor _ =>
    simp [stages, Stage.easing, Rebuilds]

/-- All other edits leave the values in their slots. -/
theorem Reachable.keeps_edited (h : b.Reachable) {e : BagEdit k} (hno : ¬ b.Rebuilds e) :
    b.table.Keeps (b.edited e).table := by
  have hnil : ∀ x ∈ b.stages e, x.rebuilds = [] := by
    rw [← h.exists_rebuilds_iff] at hno
    intro x hx
    by_contra hne
    exact hno ⟨x, hx, hne⟩
  have ht := h.sound.table
  have hpasses := h.passesAll e
  cases e with
  | extend vs => exact keeps_extend h.sound hno
  | add _ | addOccurrences _ _ | setOccurrences _ _ | reserve _ =>
    exact hpasses.keeps_of_rebuilds ht (hnil _ List.mem_cons_self)
  | remove _ | removeOccurrences _ _ | retain _ _ _ | clear | cursor _ =>
    exact hpasses.keeps_of_rebuilds ht rfl

/-- The edit puts `n` occurrences of a value into a bag in which the value is absent. -/
inductive PutsIn : BagEdit k → Scalar k → ℕ → Prop where
  /-- One occurrence is added. -/
  | add (v : Scalar k) : PutsIn (.add v) v 1
  /-- Some occurrences are added. -/
  | addOccurrences (v : Scalar k) (n : ℕ) : PutsIn (.addOccurrences v n) v n
  /-- The count is set. -/
  | setOccurrences (v : Scalar k) (n : ℕ) : PutsIn (.setOccurrences v n) v n

/-- Whichever edit puts an absent value in, it fills one slot if no rebuild is due. -/
theorem PutsIn.exists_filledAt {e : BagEdit k} (h : PutsIn e v n) (hb : b.Sound) (hn : n ≠ 0)
    (hle : b.total + n ≤ maxWord) (hnone : b.table.find v = none) (hno : ¬ b.Rebuilds e) :
    ∃ i, b.table.FilledAt i v n (b.edited e).table := by
  have hfilled := fun hdue => (absorbs_addOccurrences hb v hn hle).filled hnone hdue
  have htable : ¬ b.RebuildDue v n → ¬ b.table.RebuildDue v := fun hno hdue => hno ⟨hn, hle, hdue⟩
  cases h with
  | add v => exact hfilled (htable hno)
  | addOccurrences v n => exact hfilled (htable hno)
  | setOccurrences v n =>
    -- the count was nothing, so all occurrences are added
    have hzero := occurrencesOf_eq_zero hb (hb.table.find_eq_none_iff.1 hnone)
    have hset : (b.setOccurrences v n).val.2 = (b.addOccurrences v n).val.2 := by
      simp only [ScalarBag.setOccurrences, hzero, if_pos (Nat.pos_of_ne_zero hn), Nat.sub_zero]
      rfl
    rw [edited, hset]
    exact hfilled (htable hno)

end ScalarBag

/-! ### Which edits rebuild -/

/-- **Slots are stable but for rebuilds, and it is known which edits rebuild.**  A rebuild is due
only when an absent value is put into a table that has no slots, or in which no tombstone comes
before the first empty slot of its probe sequence and one more slot in use would be over the limit;
and when room is asked for that is not there.  Every other edit of a set or bag leaves the number of
slots as it is, and every value that stays in its slot, the stored bits being the same.  Without a
rebuild, adding a value that is present leaves a set as it was, and an absent value fills one free
slot and touches no other. -/
theorem slots_stable (k : Kind) :
    (∀ {s : ScalarSet k}, s.Reachable → ∀ e : SetEdit k,
      ((∃ x ∈ s.stages e, x.rebuilds ≠ []) ↔ s.Rebuilds e) ∧
      (¬ s.Rebuilds e → s.table.Keeps (s.edited e).table)) ∧
    (∀ {b : ScalarBag k}, b.Reachable → ∀ e : BagEdit k,
      ((∃ x ∈ b.stages e, x.rebuilds ≠ []) ↔ b.Rebuilds e) ∧
      (¬ b.Rebuilds e → b.table.Keeps (b.edited e).table)) ∧
    (∀ {s : ScalarSet k}, s.Reachable → ∀ v,
      (s.contains v = true → s.edited (.add v) = s) ∧
      (s.contains v = false → ¬ s.Rebuilds (.add v) →
        ∃ i, s.table.FilledAt i v () (s.edited (.add v)).table)) ∧
    (∀ {b : ScalarBag k}, b.Reachable → ∀ {e : BagEdit k} {v : Scalar k} {n : ℕ},
      ScalarBag.PutsIn e v n → n ≠ 0 → b.total + n ≤ maxWord → b.contains v = false →
      ¬ b.Rebuilds e → ∃ i, b.table.FilledAt i v n (b.edited e).table) := by
  refine ⟨fun hs e => ⟨hs.exists_rebuilds_iff e, hs.keeps_edited⟩,
    fun hb e => ⟨hb.exists_rebuilds_iff e, hb.keeps_edited⟩,
    fun hs v => ⟨fun hmem => ?_, fun hno hdue => ?_⟩, fun hb _ _ _ hput hn hle hno hdue => ?_⟩
  · rw [ScalarSet.edited,
      ScalarSet.add_of_mem hs.sound ((ScalarSet.contains_eq_true_iff hs.sound).1 hmem)]
    rfl
  · have hnone := Option.isNone_iff_eq_none.1 (Option.isSome_eq_false_iff.1 hno)
    exact (ScalarSet.absorbs_add hs.sound v).filled hnone hdue
  · have hnone := Option.isNone_iff_eq_none.1 (Option.isSome_eq_false_iff.1 hno)
    exact hput.exists_filledAt hb.sound hn hle hnone hdue

/-- For example six bytes in eight slots, as many as the limit allows, of which one was removed.  To
add it back takes the tombstone, in slot 3; another byte, whose way has no tombstone, makes the
table grow; and in a bag the count of a value changes in its slot. -/
theorem slots_stable_at_limit :
    let byte : ℕ → Scalar .u8 := fun n => (Scalar.ofBits? .u8 (UInt64.ofNat n)).getD default
    let s := ((ScalarSet.empty.extend ((List.range 6).map byte)).val.remove (byte 5)).2
    let b := (ScalarBag.empty.addOccurrences (byte 5) 3).val.2
    s.table.tombstones = 1 ∧ s.table.overLimit 1 = true ∧ ¬ s.Rebuilds (.add (byte 5)) ∧
      s.table.Keeps (s.edited (.add (byte 5))).table ∧
      (∃ i, s.table.FilledAt i (byte 5) () (s.edited (.add (byte 5))).table) ∧
      s.Rebuilds (.add (byte 8)) ∧ (s.edited (.add (byte 8))).capacity = 16 ∧
      b.table.Keeps (b.edited (.setOccurrences (byte 5) 7)).table ∧
      ∃ i, b.table.FilledAt i (byte 6) 2 (b.edited (.setOccurrences (byte 6) 2)).table := by
  intro byte s b
  have hs : s.Reachable := .remove (byte 5) (.extend _ .empty)
  have hb : b.Reachable := .addOccurrences (byte 5) 3 .empty
  obtain ⟨hset, hbag, hadd, hput⟩ := slots_stable .u8
  obtain ⟨htomb, hfull, hback, hother, hcap, habsent⟩ :
      s.table.tombstones = 1 ∧ s.table.overLimit 1 = true ∧
      (∀ x ∈ s.stages (.add (byte 5)), x.rebuilds = []) ∧
      (∃ x ∈ s.stages (.add (byte 8)), x.rebuilds ≠ []) ∧
      (s.edited (.add (byte 8))).capacity = 16 ∧ s.contains (byte 5) = false := by
    simp only [s, byte]
    decide +kernel
  obtain ⟨hcount, hnew, habsent', htotal⟩ :
      (∀ x ∈ b.stages (.setOccurrences (byte 5) 7), x.rebuilds = []) ∧
      (∀ x ∈ b.stages (.setOccurrences (byte 6) 2), x.rebuilds = []) ∧
      b.contains (byte 6) = false ∧ b.total + 2 ≤ maxWord := by
    simp only [b, byte]
    decide +kernel
  have hno : ¬ s.Rebuilds (.add (byte 5)) :=
    mt (hset hs _).1.2 fun ⟨x, hx, hne⟩ => hne (hback x hx)
  have hnoCount : ¬ b.Rebuilds (.setOccurrences (byte 5) 7) :=
    mt (hbag hb _).1.2 fun ⟨x, hx, hne⟩ => hne (hcount x hx)
  have hnoNew : ¬ b.Rebuilds (.setOccurrences (byte 6) 2) :=
    mt (hbag hb _).1.2 fun ⟨x, hx, hne⟩ => hne (hnew x hx)
  exact ⟨htomb, hfull, hno, (hset hs _).2 hno, (hadd hs _).2 habsent hno, (hset hs _).1.1 hother,
    hcap, (hbag hb _).2 hnoCount,
    hput hb (.setOccurrences (byte 6) 2) (by decide) htotal habsent' hnoNew⟩

end Slotted
