import Slotted.Proofs.Table.Thinned

/-!
# What a filter leaves in a table

A filter frees the slots of the entries that it rejects.  So the entries it leaves are those that
the predicate accepted, each in its slot with its payload, and every slot that held another one is a
tombstone.  What a predicate with effects accepts is told by filtering the list of entries with it.

## Main definitions

* `Table.Filtered` — a table that was filtered down to a list of entries.

## Main results

* `run_rejectedM_eq` — the answers of a predicate with effects, and the two parts of a list without
  repetitions that they make.
* `Table.entries_free` — the entries that are left when some are freed.
* `Table.Sound.filtered_free` — freeing what a test picks leaves the rest.
-/

namespace Slotted

variable {k : Kind} {P σ α : Type} {m : Type → Type} [Monad m] [LawfulMonad m]

/-! ### Asking a predicate with effects -/

theorem filterAuxM_eq (keep : α → m Bool) (as acc : List α) :
    List.filterAuxM keep as acc = (· ++ acc) <$> List.filterAuxM keep as [] := by
  induction as generalizing acc with
  | nil => exact (map_pure (f := m) (· ++ acc) []).symm
  | cons a as ih =>
    rw [List.filterAuxM, List.filterAuxM, map_bind]
    refine bind_congr fun b => ?_
    rw [ih, ih (bif b then [a] else [])]
    cases b <;> simp

/-- The first element is asked for first. -/
theorem filterM_cons (keep : α → m Bool) (a : α) (as : List α) :
    (a :: as).filterM keep =
      keep a >>= fun b => (fun kept => bif b then a :: kept else kept) <$> as.filterM keep := by
  rw [List.filterM, List.filterAuxM, bind_assoc]
  refine bind_congr fun b => ?_
  rw [filterAuxM_eq, List.filterM]
  cases b <;> simp

theorem run_filterM_cons (keep : α → StateM σ Bool) (a : α) (as : List α) (st : σ) :
    ((a :: as).filterM keep).run st =
      ((bif ((keep a).run st).1 then a :: ((as.filterM keep).run ((keep a).run st).2).1
        else ((as.filterM keep).run ((keep a).run st).2).1),
        ((as.filterM keep).run ((keep a).run st).2).2) := by
  rw [filterM_cons]
  rfl

theorem run_rejectedM_cons (keep : α → StateM σ Bool) (a : α) (as : List α) (st : σ) :
    (rejectedM keep (a :: as)).run st =
      ((bif ((keep a).run st).1 then ((rejectedM keep as).run ((keep a).run st).2).1
        else a :: ((rejectedM keep as).run ((keep a).run st).2).1),
        ((rejectedM keep as).run ((keep a).run st).2).2) := by
  rw [rejectedM, StateT.run_bind]
  rcases (keep a).run st with ⟨b, st'⟩
  cases b <;> rfl

theorem sublist_filterM (keep : α → StateM σ Bool) (as : List α) (st : σ) :
    ((as.filterM keep).run st).1.Sublist as := by
  induction as generalizing st with
  | nil => exact List.Sublist.refl []
  | cons a as ih =>
    rw [run_filterM_cons]
    rcases (keep a).run st with ⟨b, st'⟩
    cases b with
    | true => exact (ih st').cons_cons a
    | false => exact (ih st').cons a

/-- Keeping and rejecting ask alike. -/
theorem snd_run_rejectedM (keep : α → StateM σ Bool) (as : List α) (st : σ) :
    ((rejectedM keep as).run st).2 = ((as.filterM keep).run st).2 := by
  induction as generalizing st with
  | nil => rfl
  | cons a as ih =>
    rw [run_rejectedM_cons, run_filterM_cons]
    exact ih _

/-- A list without repetitions is parted by the answers.  So if a test picks the elements that are
not kept, it picks those rejected. -/
theorem filter_eq_of_answers (keep : α → StateM σ Bool) {as : List α} (has : as.Nodup) (st : σ)
    {drop : α → Bool} (hdrop : ∀ a ∈ as, drop a = true ↔ a ∉ ((as.filterM keep).run st).1) :
    ((rejectedM keep as).run st).1 = as.filter drop ∧
      ((as.filterM keep).run st).1 = as.filter fun a => !drop a := by
  induction as generalizing st with
  | nil => exact ⟨rfl, rfl⟩
  | cons a as ih =>
    obtain ⟨ha, has⟩ := List.nodup_cons.1 has
    rw [run_filterM_cons] at hdrop ⊢
    rw [run_rejectedM_cons]
    generalize (keep a).run st = answer at hdrop ⊢
    obtain ⟨b, st'⟩ := answer
    obtain ⟨hfirst, hothers⟩ := List.forall_mem_cons.1 hdrop
    cases b with
    | true =>
      -- the first element is kept, and it is none of the others
      have hno : drop a = false := by
        rw [Bool.eq_false_iff, ne_eq, hfirst]
        exact fun hnot => hnot List.mem_cons_self
      obtain ⟨hrejected, hkept⟩ := ih has st' fun c hc => by
        rw [hothers c hc, cond_true, List.mem_cons, not_or]
        exact and_iff_right fun hca => ha (hca ▸ hc)
      rw [List.filter_cons_of_neg (by simp [hno]), List.filter_cons_of_pos (by simp [hno]),
        ← hrejected, ← hkept]
      exact ⟨rfl, rfl⟩
    | false =>
      have hyes : drop a = true :=
        hfirst.2 fun hmem => ha ((sublist_filterM keep as st').subset hmem)
      obtain ⟨hrejected, hkept⟩ := ih has st' hothers
      rw [List.filter_cons_of_pos hyes, List.filter_cons_of_neg (by simp [hyes]), ← hrejected,
        ← hkept]
      exact ⟨rfl, rfl⟩

/-- So what is rejected, and what is kept, is known from the answers. -/
theorem run_rejectedM_eq {keep : α → StateM σ Bool} {as kept : List α} (has : as.Nodup)
    {st st' : σ} (h : (as.filterM keep).run st = (kept, st')) {drop : α → Bool}
    (hdrop : ∀ a ∈ as, drop a = true ↔ a ∉ kept) :
    (rejectedM keep as).run st = (as.filter drop, st') ∧ kept = as.filter fun a => !drop a := by
  obtain ⟨rfl, rfl⟩ := Prod.ext_iff.1 h
  obtain ⟨hrejected, hkept⟩ := filter_eq_of_answers keep has st hdrop
  exact ⟨Prod.ext hrejected (snd_run_rejectedM keep as st), hkept⟩

/-- A predicate without effects. -/
theorem rejectedM_pure (keep : α → Bool) (as : List α) :
    rejectedM (m := m) (fun a => pure (keep a)) as = pure (as.filter fun a => !keep a) := by
  induction as with
  | nil => rfl
  | cons a as ih =>
    rw [rejectedM, pure_bind, ih]
    cases h : keep a
    · rw [List.filter_cons_of_pos (by simp [h])]
      simp
    · rw [List.filter_cons_of_neg (by simp [h])]
      simp

namespace Table

variable {t t' : Table k P} {τ : Type}

/-! ### The slots of a table of which some were freed -/

theorem capacity_free (freed : τ → P → τ) (t : Table k P) (account : τ) (es : List (Entry k P)) :
    (free freed t account es).1.capacity = t.capacity := by
  induction es generalizing t account with
  | nil => rfl
  | cons e es ih => rw [free_cons, ih, capacity_vacate]

theorem getElem?_free_of_notMem (freed : τ → P → τ) (t : Table k P) (account : τ)
    {es : List (Entry k P)} {i : ℕ} (h : i ∉ es.map (·.slot)) :
    (free freed t account es).1.slots[i]? = t.slots[i]? := by
  induction es generalizing t account with
  | nil => rfl
  | cons e es ih =>
    rw [List.map_cons, List.mem_cons, not_or] at h
    rw [free_cons, ih _ _ h.2, getElem?_vacate_ne (Ne.symm h.1)]

theorem getElem?_free_of_mem (freed : τ → P → τ) (t : Table k P) (account : τ)
    {es : List (Entry k P)} {i : ℕ} (hi : i < t.capacity) (h : i ∈ es.map (·.slot)) :
    (free freed t account es).1.slots[i]? = some .tombstone := by
  induction es generalizing t account with
  | nil => exact absurd h List.not_mem_nil
  | cons e es ih =>
    rw [free_cons]
    by_cases hmem : i ∈ es.map (·.slot)
    · exact ih _ _ (by rwa [capacity_vacate]) hmem
    · -- the slot is freed now, and not touched later
      obtain rfl : i = e.slot := by
        rw [List.map_cons, List.mem_cons] at h
        exact h.resolve_right hmem
      rw [getElem?_free_of_notMem freed _ _ hmem]
      exact getElem?_update_self hi ..

/-- The entries that are left when those in some slots are freed. -/
theorem entries_free (freed : τ → P → τ) (t : Table k P) (account : τ) (es : List (Entry k P)) :
    (free freed t account es).1.entries
      = t.entries.filter fun e => decide (e.slot ∉ es.map (·.slot)) := by
  rw [entries, entries, scan_eq, scan_eq, capacity_free, List.filter_filterMap]
  refine List.filterMap_congr fun i hi => ?_
  have hlt : i < t.capacity := by
    rw [List.mem_range'_1] at hi
    omega
  by_cases hmem : i ∈ es.map (·.slot)
  · rw [entryAt?_of_not_live fun v p hlive => by
      simp [getElem?_free_of_mem freed t account hlt hmem] at hlive]
    rcases he : t.entryAt? i with _ | e
    · rfl
    · obtain ⟨rfl, -⟩ := entryAt?_eq_some_iff.1 he
      rw [Option.filter_some, if_neg (by simpa using hmem)]
  · rw [entryAt?, entry?, getElem?_free_of_notMem freed t account hmem]
    rcases he : t.entryAt? i with _ | e
    · exact he
    · obtain ⟨rfl, -⟩ := entryAt?_eq_some_iff.1 he
      rw [Option.filter_some, if_pos (by simpa using hmem)]
      exact he

/-! ### Filtered tables -/

/-- The second table is the first one, filtered down to a list of its entries. -/
structure Filtered (t : Table k P) (kept : List (Entry k P)) (t' : Table k P) : Prop where
  /-- The invariant holds. -/
  sound : t'.Sound
  /-- The number of slots. -/
  capacity : t'.capacity = t.capacity
  /-- The entries, with their slots, values and payloads. -/
  entries : t'.entries = kept
  /-- The slots of the other entries. -/
  freed : ∀ e ∈ t.entries, e ∉ kept → t'.slots[e.slot]? = some .tombstone
  /-- All other slots. -/
  others : ∀ i, (∀ e ∈ t.entries, e ∉ kept → e.slot ≠ i) → t'.slots[i]? = t.slots[i]?

theorem pairwise_slot_entries (t : Table k P) :
    t.entries.Pairwise fun e e' => e.slot ≠ e'.slot := t.pairwise_slot_scan 0 t.capacity

theorem nodup_entries (t : Table k P) : t.entries.Nodup :=
  t.pairwise_slot_entries.imp fun hne heq => hne (congrArg Entry.slot heq)

theorem getElem?_of_mem_entries {e : Entry k P} (h : e ∈ t.entries) :
    t.slots[e.slot]? = some (.live e.value e.payload) := getElem?_of_mem_scan h

/-- An entry is known by its slot. -/
theorem eq_of_slot_eq {e e' : Entry k P} (h : e ∈ t.entries) (h' : e' ∈ t.entries)
    (hslot : e.slot = e'.slot) : e = e' := by
  obtain ⟨i, v, p⟩ := e
  obtain ⟨j, w, q⟩ := e'
  obtain rfl : i = j := hslot
  have hv : t.slots[i]? = some (.live v p) := getElem?_of_mem_entries h
  have hw : t.slots[i]? = some (.live w q) := getElem?_of_mem_entries h'
  obtain ⟨rfl, rfl⟩ := Slot.live.inj (Option.some.inj (hv.symm.trans hw))
  rfl

theorem mem_map_slot_filter_iff {drop : Entry k P → Bool} {e : Entry k P} (h : e ∈ t.entries) :
    e.slot ∈ (t.entries.filter drop).map (·.slot) ↔ drop e = true := by
  rw [List.mem_map]
  constructor
  · rintro ⟨e', he', hslot⟩
    obtain ⟨hmem, hdrop⟩ := List.mem_filter.1 he'
    rwa [← eq_of_slot_eq hmem h hslot]
  · intro hdrop
    exact ⟨e, List.mem_filter.2 ⟨h, hdrop⟩, rfl⟩

/-- Freeing the entries that a test picks filters a table down to the others. -/
theorem Sound.filtered_free (ht : t.Sound) (freed : τ → P → τ) (account : τ)
    (drop : Entry k P → Bool) :
    t.Filtered (t.entries.filter fun e => !drop e)
      (Table.free freed t account (t.entries.filter drop)).1 where
  sound := (ht.free freed account (t.pairwise_slot_entries.sublist List.filter_sublist)
    fun e he => getElem?_of_mem_entries (List.mem_filter.1 he).1).1
  capacity := capacity_free freed t account _
  entries := by
    rw [entries_free]
    refine List.filter_congr fun e he => ?_
    simp only [mem_map_slot_filter_iff he, Bool.not_eq_true, Bool.decide_eq_false]
  freed := by
    intro e he hdrop
    have hlt := lt_capacity_of_getElem? (getElem?_of_mem_entries he)
    refine getElem?_free_of_mem freed t account hlt ((mem_map_slot_filter_iff he).2 ?_)
    simpa [List.mem_filter, he] using hdrop
  others := by
    intro i hi
    refine getElem?_free_of_notMem freed t account fun hmem => ?_
    obtain ⟨e, he, rfl⟩ := List.mem_map.1 hmem
    obtain ⟨hmem, hdrop⟩ := List.mem_filter.1 he
    exact hi e hmem (by simp [List.mem_filter, hdrop]) rfl

/-- How many entries a filtered table holds. -/
theorem Filtered.live_eq {kept : List (Entry k P)} (h : t.Filtered kept t') :
    t'.live = kept.length := by
  rw [h.sound.live_eq_card, ← coe_map_entries, Multiset.coe_card, List.length_map, h.entries]

end Table
end Slotted
