import Slotted.Proofs.Cursor.Editing
import Slotted.Proofs.Table.Kept

/-!
# A filter is a cursor's way through the container

A cursor that goes to the end and removes what a test picks frees the slots of the picked entries,
one after the other.  Over a set each slot takes one move.  In a bag a slot takes as many moves as
it has occurrences: they are passed, or they are removed one by one, so that the count goes down to
nothing and the slot is freed with the last one.  Filtering frees the same slots at once.  So the
two ways lead to the same table, with the same tombstones and counters, and to the same total.

## Main definitions

* `ScalarBag.Cursor.Leaving` — a cursor whose next move leads out of the slot it stands in.

## Main results

* `ScalarSet.sweep_eq`, `ScalarBag.sweep_eq` — what a cursor's way through a container comes to.
* `retain_sweeps` — filtering in place, and that a cursor does the same.
-/

namespace Slotted

variable {k : Kind}

namespace EditCursor

variable {K α : Type} [EditCursor K α] {drop : α → Bool} {c c' : K}

theorem sweepFrom_of_none (fuel : ℕ) (seen : List α) (h : step c = (none, c')) :
    sweepFrom drop (fuel + 1) c seen = (seen.reverse, c') := by
  rw [sweepFrom]
  simp only [h]

theorem sweepFrom_of_some {a : α} (fuel : ℕ) (seen : List α) (h : step c = (some a, c')) :
    sweepFrom drop (fuel + 1) c seen
      = sweepFrom drop fuel (if drop a then (move c' .remove).2 else c') (a :: seen) := by
  rw [sweepFrom]
  simp only [h]

/-- Only the next step of a cursor matters. -/
theorem sweepFrom_congr (fuel : ℕ) (seen : List α) (h : step c = step c') :
    sweepFrom drop (fuel + 1) c seen = sweepFrom drop (fuel + 1) c' seen := by
  rw [sweepFrom, sweepFrom, h]

theorem move_remove_of_ok (h : remove c = .ok c') : (move c .remove).2 = c' := by
  rw [move, h]

end EditCursor

namespace Table

variable {P : Type} {t : Table k P} {i : ℕ}

theorem nextLive_of_scan_nil (h : t.scan i t.capacity = []) : t.nextLive i = none := by
  rcases t.nextLive_cases i with ⟨hnone, -⟩ | ⟨e, -, hcons⟩
  · exact hnone
  · exact absurd (hcons.symm.trans h) (by simp)

theorem nextLive_of_scan_cons {e : Entry k P} {es : List (Entry k P)}
    (h : t.scan i t.capacity = e :: es) :
    t.nextLive i = some e ∧ t.scan (e.slot + 1) t.capacity = es := by
  rcases t.nextLive_cases i with ⟨-, hnil⟩ | ⟨e', hsome, hcons⟩
  · exact absurd (hnil.symm.trans h) (by simp)
  · obtain ⟨rfl, hrest⟩ := List.cons.inj (hcons.symm.trans h)
    exact ⟨hsome, hrest⟩

/-- A slot that is freed lies behind the rest of the way. -/
theorem scan_vacate_succ (t : Table k P) (i : ℕ) :
    (t.vacate i).scan (i + 1) (t.vacate i).capacity = t.scan (i + 1) t.capacity := by
  rw [capacity_vacate, scan_vacate t (Nat.lt_succ_self i)]

theorem vacate_setPayload (t : Table k P) (i : ℕ) (p : P) :
    (t.setPayload i p).vacate i = t.vacate i := by
  rw [setPayload]
  split
  · simp only [vacate, update, replaceSlot, Array.setIfInBounds_setIfInBounds]
  · rfl

theorem length_entries_le (t : Table k P) : t.entries.length ≤ t.capacity := by
  rw [entries, scan_eq]
  refine (List.length_filterMap_le _ _).trans ?_
  rw [List.length_range', Nat.sub_zero]

end Table

/-! ### Sets -/

namespace ScalarSet

variable {s : ScalarSet k}

/-- A set after some of its entries were freed. -/
def freed (s : ScalarSet k) (es : List (Entry k Unit)) : ScalarSet k :=
  ⟨(Table.free (fun () () => ()) s.table () es).1⟩

/-- A way through the rest of a set: each of the elements ahead takes one move. -/
theorem sweepFrom_eq (drop : Scalar k → Bool) {es : List (Entry k Unit)} {fuel : ℕ}
    (hfuel : es.length < fuel) {t : Table k Unit} {w : Walker}
    (hscan : t.scan w.next t.capacity = es) (seen : List (Scalar k)) :
    (EditCursor.sweepFrom drop fuel (⟨t, w⟩ : Cursor k) seen).1
        = seen.reverse ++ es.map (·.value) ∧
      (EditCursor.sweepFrom drop fuel (⟨t, w⟩ : Cursor k) seen).2.done
        = freed ⟨t⟩ (es.filter fun e => drop e.value) := by
  induction es generalizing fuel t w seen with
  | nil =>
    obtain ⟨fuel, rfl⟩ := Nat.exists_eq_add_of_lt hfuel
    have hstep : EditCursor.step (⟨t, w⟩ : Cursor k) = (none, ⟨t, ⟨t.capacity, none⟩⟩) := by
      show Cursor.step _ = _
      rw [Cursor.step, Walker.advance, Table.nextLive_of_scan_nil hscan]
      rfl
    rw [EditCursor.sweepFrom_of_none _ _ hstep]
    simp [Cursor.done, freed]
  | cons e es ih =>
    obtain ⟨fuel, rfl⟩ : ∃ n, fuel = n + 1 := Nat.exists_eq_succ_of_ne_zero (by omega)
    rw [List.length_cons, Nat.add_lt_add_iff_right] at hfuel
    obtain ⟨hsome, hrest⟩ := Table.nextLive_of_scan_cons hscan
    have hstep : EditCursor.step (⟨t, w⟩ : Cursor k)
        = (some e.value, ⟨t, ⟨e.slot + 1, some e.slot⟩⟩) := by
      show Cursor.step _ = _
      rw [Cursor.step, Walker.advance, hsome]
      rfl
    rw [EditCursor.sweepFrom_of_some _ _ hstep]
    cases hdrop : drop e.value with
    | true =>
      obtain ⟨hseen, hdone⟩ := ih hfuel (w := ⟨e.slot + 1, none⟩)
        ((t.scan_vacate_succ e.slot).trans hrest) (e.value :: seen)
      rw [List.filter_cons_of_pos (by exact hdrop)]
      refine ⟨hseen.trans ?_, hdone⟩
      simp
    | false =>
      obtain ⟨hseen, hdone⟩ := ih hfuel (w := ⟨e.slot + 1, some e.slot⟩) hrest (e.value :: seen)
      rw [List.filter_cons_of_neg (by simp [hdrop])]
      refine ⟨hseen.trans ?_, hdone⟩
      simp

/-- A cursor's way through a set comes to all its elements and frees the slots of those picked. -/
theorem sweep_eq (s : ScalarSet k) (drop : Scalar k → Bool) :
    s.sweep drop = (s.toList, s.freed (s.table.entries.filter fun e => drop e.value)) := by
  have hfuel : s.table.entries.length < s.capacity + 1 :=
    Nat.lt_succ_of_le s.table.length_entries_le
  obtain ⟨hseen, hdone⟩ := sweepFrom_eq drop hfuel (t := s.table) (w := {}) rfl []
  exact Prod.ext hseen hdone

/-- A filter with any predicate leaves what it accepts, and a cursor that removes the other elements
leaves the same set. -/
theorem exists_retainM_eq (hs : s.table.Sound) {σ : Type} {keep : Scalar k → StateM σ Bool}
    {st st' : σ} {kept : List (Entry k Unit)}
    (h : (s.table.entries.filterM fun e => keep e.value).run st = (kept, st')) :
    ∃ s', (s.retainM keep).run st = (s', st') ∧ s.table.Filtered kept s'.table ∧
      s'.size = kept.length ∧
      ∀ drop, (∀ e ∈ s.table.entries, drop e.value = true ↔ e ∉ kept) →
        s.sweep drop = (s.toList, s') := by
  classical
  obtain ⟨hrejected, hkept⟩ := run_rejectedM_eq s.table.nodup_entries h
    (fun e _ => decide_eq_true_iff (p := e ∉ kept))
  have hfiltered := hs.filtered_free (fun () () => ()) () fun e => decide (e ∉ kept)
  rw [← hkept] at hfiltered
  refine ⟨s.freed (s.table.entries.filter fun e => decide (e ∉ kept)), ?_, hfiltered,
    hfiltered.live_eq, fun drop hdrop => ?_⟩
  · rw [retainM_run, hrejected]
    rfl
  · have hpicked : (s.table.entries.filter fun e => drop e.value)
        = s.table.entries.filter fun e => decide (e ∉ kept) :=
      List.filter_congr fun e he => by rw [Bool.eq_iff_iff, hdrop e he, decide_eq_true_iff]
    rw [sweep_eq, hpicked]

/-- With a predicate without effects. -/
theorem retain_eq (s : ScalarSet k) (keep : Scalar k → Bool) :
    s.retain keep = s.freed (s.table.entries.filter fun e => !keep e.value) := by
  rw [retain, retainM, Table.filterM_eq, rejectedM_pure]
  rfl

end ScalarSet

/-! ### Bags -/

namespace ScalarBag

variable {b : ScalarBag k} {i m : ℕ} {v : Scalar k} {drop : Scalar k → Bool}

/-- The next move of the cursor leads out of the slot it stands in, to the first live one from
`next` on. -/
structure Cursor.Leaving (c : Cursor k) (b : ScalarBag k) (next : ℕ) : Prop where
  /-- The bag. -/
  bag : c.bag = b
  /-- The first slot not yet seen. -/
  next : c.walker.next = next
  /-- The next move. -/
  step : c.step = c.enter

theorem Cursor.leaving_of_away (b : ScalarBag k) (next emitted : ℕ) :
    Cursor.Leaving ⟨b, ⟨next, none⟩, emitted, false⟩ b next := ⟨rfl, rfl, rfl⟩

theorem Cursor.leaving_of_passed (h : b.table.slots[i]? = some (.live v m)) (removable : Bool) :
    Cursor.Leaving ⟨b, ⟨i + 1, some i⟩, m, removable⟩ b (i + 1) := ⟨rfl, rfl, step_of_eq h⟩

theorem replicate_append_cons {α : Type} (n : ℕ) (a : α) (l : List α) :
    List.replicate n a ++ a :: l = List.replicate (n + 1) a ++ l := by
  rw [List.replicate_succ', List.append_assoc, List.singleton_append]

/-- The occurrences in a slot whose value is not picked are passed. -/
theorem sweepFrom_of_kept (h : b.table.slots[i]? = some (.live v m)) (hdrop : drop v = false)
    (fuel : ℕ) {n emitted : ℕ} (hn : emitted + n = m) (removable : Bool) (seen : List (Scalar k)) :
    ∃ removable', EditCursor.sweepFrom drop (fuel + n)
        (⟨b, ⟨i + 1, some i⟩, emitted, removable⟩ : Cursor k) seen
      = EditCursor.sweepFrom drop fuel (⟨b, ⟨i + 1, some i⟩, m, removable'⟩ : Cursor k)
          (List.replicate n v ++ seen) := by
  induction n generalizing emitted removable seen with
  | zero =>
    obtain rfl : emitted = m := hn
    exact ⟨removable, rfl⟩
  | succ n ih =>
    have hn' : emitted + 1 + n = m := by omega
    obtain ⟨removable', hrest⟩ := ih hn' true (v :: seen)
    refine ⟨removable', ?_⟩
    rw [← Nat.add_assoc, EditCursor.sweepFrom_of_some _ _ (Cursor.step_of_lt h (by omega)), hdrop,
      if_neg Bool.false_ne_true, hrest, replicate_append_cons]

/-- The occurrences in a slot whose value is picked are removed one by one, until the slot is freed
with the last one. -/
theorem sweepFrom_of_dropped (h : b.table.slots[i]? = some (.live v m)) (hm : m ≠ 0)
    (hdrop : drop v = true) (fuel : ℕ) (seen : List (Scalar k)) :
    EditCursor.sweepFrom drop (fuel + m) (⟨b, ⟨i + 1, some i⟩, 0, false⟩ : Cursor k) seen
      = EditCursor.sweepFrom drop fuel
          (⟨⟨b.table.vacate i, b.total - m⟩, ⟨i + 1, none⟩, 0, false⟩ : Cursor k)
          (List.replicate m v ++ seen) := by
  obtain ⟨n, rfl⟩ : ∃ n, m = n + 1 := Nat.exists_eq_succ_of_ne_zero hm
  induction n generalizing b seen with
  | zero =>
    rw [EditCursor.sweepFrom_of_some _ _ (Cursor.step_of_lt h Nat.one_pos), if_pos hdrop,
      EditCursor.move_remove_of_ok (Cursor.remove_of_one h (i + 1))]
    rfl
  | succ n ih =>
    -- the slot is live with one occurrence less, which the cursor has before it
    have hnext := ih (b := ⟨b.table.setPayload i (n + 1), b.total - 1⟩) (v :: seen)
      (Table.getElem?_setPayload_self h (n + 1)) n.succ_ne_zero
    rw [Table.vacate_setPayload, Nat.sub_sub, Nat.add_comm 1] at hnext
    rw [← Nat.add_assoc, EditCursor.sweepFrom_of_some _ _ (Cursor.step_of_lt h (n + 1).succ_pos),
      if_pos hdrop, EditCursor.move_remove_of_ok (Cursor.remove_of_more h n.succ_ne_zero (i + 1) 0),
      hnext, replicate_append_cons]

/-- The way through one slot: it takes as many moves as there are occurrences. -/
theorem sweepFrom_of_live (drop : Scalar k → Bool) (hm : m ≠ 0) {c : Cursor k} {next : ℕ}
    (hc : c.Leaving b next) (hsome : b.table.nextLive next = some ⟨i, v, m⟩) (fuel : ℕ)
    (seen : List (Scalar k)) :
    ∃ c', EditCursor.sweepFrom drop (fuel + m) c seen
        = EditCursor.sweepFrom drop fuel c' (List.replicate m v ++ seen) ∧
      Cursor.Leaving c' (if drop v then ⟨b.table.vacate i, b.total - m⟩ else b) (i + 1) := by
  have hslot : b.table.slots[i]? = some (.live v m) := Table.getElem?_of_nextLive hsome
  -- to enter the slot is to come to its first occurrence from before it
  have henter : c.step = Cursor.step ⟨b, ⟨i + 1, some i⟩, 0, false⟩ := by
    obtain ⟨rfl, rfl, hstep⟩ := hc
    rw [hstep, Cursor.step_of_lt hslot (Nat.pos_of_ne_zero hm), Cursor.enter, Walker.advance, hsome]
  have hcongr : EditCursor.sweepFrom drop (fuel + m) c seen
      = EditCursor.sweepFrom drop (fuel + m) (⟨b, ⟨i + 1, some i⟩, 0, false⟩ : Cursor k) seen := by
    obtain ⟨n, rfl⟩ : ∃ n, m = n + 1 := Nat.exists_eq_succ_of_ne_zero hm
    exact EditCursor.sweepFrom_congr (fuel + n) seen henter
  cases hdrop : drop v with
  | true =>
    exact ⟨_, hcongr.trans (sweepFrom_of_dropped hslot hm hdrop fuel seen),
      Cursor.leaving_of_away _ (i + 1) 0⟩
  | false =>
    obtain ⟨removable, hkept⟩ := sweepFrom_of_kept hslot hdrop fuel (Nat.zero_add m) false seen
    exact ⟨_, hcongr.trans hkept, Cursor.leaving_of_passed hslot removable⟩

/-- A way through the rest of a bag. -/
theorem sweepFrom_eq (drop : Scalar k → Bool) {es : List (Entry k ℕ)}
    (hpos : ∀ e ∈ es, e.payload ≠ 0) {fuel : ℕ} (hfuel : (spread es).length < fuel) {next : ℕ}
    (hscan : b.table.scan next b.table.capacity = es) {c : Cursor k} (hc : c.Leaving b next)
    (seen : List (Scalar k)) :
    (EditCursor.sweepFrom drop fuel c seen).1 = seen.reverse ++ spread es ∧
      (EditCursor.sweepFrom drop fuel c seen).2.done
        = b.freed (es.filter fun e => drop e.value) := by
  induction es generalizing b fuel next c seen with
  | nil =>
    obtain ⟨fuel, rfl⟩ := Nat.exists_eq_add_of_lt hfuel
    obtain ⟨rfl, rfl, hstep⟩ := hc
    have hend : EditCursor.step c
        = (none, { c with walker := ⟨c.bag.table.capacity, none⟩, removable := false }) := by
      show c.step = _
      rw [hstep, Cursor.enter, Walker.advance, Table.nextLive_of_scan_nil hscan]
    rw [EditCursor.sweepFrom_of_none _ _ hend]
    simp [Cursor.done, freed]
  | cons e es ih =>
    obtain ⟨i, v, m⟩ := e
    obtain ⟨hm, hpos⟩ := List.forall_mem_cons.1 hpos
    obtain ⟨hsome, hrest⟩ := Table.nextLive_of_scan_cons hscan
    replace hfuel : m + (spread es).length < fuel := by
      rwa [spread_cons, List.length_append, List.length_replicate] at hfuel
    obtain ⟨fuel, rfl⟩ := Nat.exists_eq_add_of_le' (show m ≤ fuel by omega)
    have hrestFuel : (spread es).length < fuel := by omega
    obtain ⟨c', hsweep, hleaving⟩ := sweepFrom_of_live drop hm hc hsome fuel seen
    rw [hsweep]
    have hreverse : (List.replicate m v ++ seen).reverse ++ spread es
        = seen.reverse ++ spread (⟨i, v, m⟩ :: es) := by
      rw [List.reverse_append, List.reverse_replicate, List.append_assoc, spread_cons]
    cases hdrop : drop v with
    | true =>
      rw [hdrop, if_pos rfl] at hleaving
      obtain ⟨hseen, hdone⟩ := ih (b := ⟨b.table.vacate i, b.total - m⟩) hpos hrestFuel
        ((b.table.scan_vacate_succ i).trans hrest) hleaving (List.replicate m v ++ seen)
      rw [List.filter_cons_of_pos (by exact hdrop)]
      exact ⟨hseen.trans hreverse, hdone⟩
    | false =>
      rw [hdrop, if_neg Bool.false_ne_true] at hleaving
      obtain ⟨hseen, hdone⟩ := ih hpos hrestFuel hrest hleaving (List.replicate m v ++ seen)
      rw [List.filter_cons_of_neg (by simp [hdrop])]
      exact ⟨hseen.trans hreverse, hdone⟩

/-- A cursor's way through a bag comes to all its occurrences and frees the slots of the values
picked. -/
theorem sweep_eq (hb : b.Sound) (drop : Scalar k → Bool) :
    b.sweep drop = (b.toList, b.freed (b.table.entries.filter fun e => drop e.value)) := by
  have hpos : ∀ e ∈ b.table.entries, e.payload ≠ 0 := fun e he =>
    (hb.pos (e.value, e.payload)
      (Table.mem_contents_iff.2 ⟨e.slot, Table.getElem?_of_mem_entries he⟩)).ne'
  have hfuel : (spread b.table.entries).length < b.size + 1 := by
    rw [← toList_eq, length_toList hb]
    exact Nat.lt_succ_self _
  obtain ⟨hseen, hdone⟩ := sweepFrom_eq drop hpos hfuel rfl (Cursor.leaving_of_away b 0 0) []
  exact Prod.ext hseen hdone

/-- Freeing the entries that a test picks leaves a sound bag, whose total counts the others. -/
theorem Sound.filtered_freed (hb : b.Sound) (drop : Entry k ℕ → Bool) :
    b.table.Filtered (b.table.entries.filter fun e => !drop e)
        (b.freed (b.table.entries.filter drop)).table ∧
      (b.freed (b.table.entries.filter drop)).size
        = ((b.table.entries.filter fun e => !drop e).map (·.payload)).sum := by
  have hfiltered := hb.table.filtered_free (fun total count => total - count) b.total drop
  refine ⟨hfiltered, ?_⟩
  have hsound : (b.freed (b.table.entries.filter drop)).Sound :=
    (hb.freed (b.table.pairwise_slot_entries.sublist List.filter_sublist)
      fun e he => Table.getElem?_of_mem_entries (List.mem_filter.1 he).1).1
  rw [size, hsound.total_eq, countSum, ← coe_distinct, distinct, ← hfiltered.entries,
    Multiset.map_coe, Multiset.sum_coe, List.map_map]
  rfl

/-- A filter with any predicate leaves what it accepts, and a cursor that removes all occurrences of
the other values leaves the same bag. -/
theorem exists_retainM_eq (hb : b.Sound) {σ : Type} {keep : Scalar k → ℕ → StateM σ Bool}
    {st st' : σ} {kept : List (Entry k ℕ)}
    (h : (b.table.entries.filterM fun e => keep e.value e.payload).run st = (kept, st')) :
    ∃ b', (b.retainM keep).run st = (b', st') ∧ b.table.Filtered kept b'.table ∧
      b'.distinctSize = kept.length ∧ b'.size = (kept.map (·.payload)).sum ∧
      ∀ drop, (∀ e ∈ b.table.entries, drop e.value = true ↔ e ∉ kept) →
        b.sweep drop = (b.toList, b') := by
  classical
  obtain ⟨hrejected, hkept⟩ := run_rejectedM_eq b.table.nodup_entries h
    (fun e _ => decide_eq_true_iff (p := e ∉ kept))
  obtain ⟨hfiltered, hsize⟩ := hb.filtered_freed fun e => decide (e ∉ kept)
  rw [← hkept] at hfiltered hsize
  refine ⟨b.freed (b.table.entries.filter fun e => decide (e ∉ kept)), ?_, hfiltered,
    hfiltered.live_eq, hsize, fun drop hdrop => ?_⟩
  · rw [retainM_run, hrejected]
  · have hpicked : (b.table.entries.filter fun e => drop e.value)
        = b.table.entries.filter fun e => decide (e ∉ kept) :=
      List.filter_congr fun e he => by rw [Bool.eq_iff_iff, hdrop e he, decide_eq_true_iff]
    rw [sweep_eq hb, hpicked]

/-- With a predicate without effects. -/
theorem retain_eq (b : ScalarBag k) (keep : Scalar k → ℕ → Bool) :
    b.retain keep = b.freed (b.table.entries.filter fun e => !keep e.value e.payload) := by
  rw [retain, retainM, Table.filterM_eq, rejectedM_pure]
  rfl

/-- The count in a slot is the count of its value. -/
theorem occurrencesOf_of_mem_entries (hb : b.Sound) {e : Entry k ℕ} (h : e ∈ b.table.entries) :
    b.occurrencesOf e.value = e.payload :=
  occurrencesOf_eq_of_mem hb
    (Table.mem_contents_iff.2 ⟨e.slot, Table.getElem?_of_mem_entries h⟩) rfl

end ScalarBag

/-! ### Filtering -/

/-- **A filter is in place and does what a cursor does.**  The predicate, which may have effects, is
asked once for each distinct value, in slot order and with its full count.  What it accepts stays,
with its slot, its stored bits and its count; the other slots that were live become tombstones, and
no slot changes besides; the sizes are those of what stays.  A cursor that goes to the end and
removes the values that were not accepted, in a bag all occurrences of them, comes to every element
and leaves the very same container. -/
theorem retain_sweeps (k : Kind) :
    (∀ {s : ScalarSet k}, s.Reachable → ∀ {σ : Type} (keep : Scalar k → StateM σ Bool) (st st' : σ)
      (kept : List (Entry k Unit)),
      (s.table.entries.filterM fun e => keep e.value).run st = (kept, st') →
      ∃ s', (s.retainM keep).run st = (s', st') ∧ s.table.Filtered kept s'.table ∧
        s'.size = kept.length ∧
        ∀ drop, (∀ e ∈ s.table.entries, drop e.value = true ↔ e ∉ kept) →
          s.sweep drop = (s.toList, s')) ∧
    (∀ {b : ScalarBag k}, b.Reachable → ∀ {σ : Type} (keep : Scalar k → ℕ → StateM σ Bool)
      (st st' : σ) (kept : List (Entry k ℕ)),
      (b.table.entries.filterM fun e => keep e.value e.payload).run st = (kept, st') →
      ∃ b', (b.retainM keep).run st = (b', st') ∧ b.table.Filtered kept b'.table ∧
        b'.distinctSize = kept.length ∧ b'.size = (kept.map (·.payload)).sum ∧
        ∀ drop, (∀ e ∈ b.table.entries, drop e.value = true ↔ e ∉ kept) →
          b.sweep drop = (b.toList, b')) ∧
    (∀ {s : ScalarSet k}, s.Reachable → ∀ keep : Scalar k → Bool,
      (s.retain keep).toList = s.toList.filter keep ∧
      s.sweep (fun v => !keep v) = (s.toList, s.retain keep)) ∧
    (∀ {b : ScalarBag k}, b.Reachable → ∀ keep : Scalar k → ℕ → Bool,
      (b.retain keep).distinct = b.distinct.filter (fun c => keep c.1 c.2) ∧
      b.sweep (fun v => !keep v (b.occurrencesOf v)) = (b.toList, b.retain keep)) := by
  refine ⟨fun hs _ _ _ _ _ h => ScalarSet.exists_retainM_eq hs.sound h,
    fun hb _ _ _ _ _ h => ScalarBag.exists_retainM_eq hb.sound h,
    fun {s} hs keep => ⟨?_, ?_⟩, fun {b} hb keep => ⟨?_, ?_⟩⟩
  · have hfiltered := hs.sound.filtered_free (fun () () => ()) () fun e => !keep e.value
    rw [ScalarSet.retain_eq, ScalarSet.toList, ScalarSet.freed, hfiltered.entries,
      ScalarSet.toList, List.filter_map]
    simp only [Bool.not_not]
    rfl
  · rw [ScalarSet.sweep_eq, ScalarSet.retain_eq]
  · have hfiltered := (hb.sound.filtered_freed fun e => !keep e.value e.payload).1
    rw [ScalarBag.retain_eq, ScalarBag.distinct, hfiltered.entries, ScalarBag.distinct,
      List.filter_map]
    simp only [Bool.not_not]
    rfl
  · have hcount : (b.table.entries.filter fun e => !keep e.value (b.occurrencesOf e.value))
        = b.table.entries.filter fun e => !keep e.value e.payload :=
      List.filter_congr fun e he => by rw [ScalarBag.occurrencesOf_of_mem_entries hb.sound he]
    rw [ScalarBag.sweep_eq hb.sound, ScalarBag.retain_eq, hcount]

/-- For example a bag with three, two and one occurrences of three bytes, filtered for odd counts by
a predicate that writes down what it is asked, and a set of three bytes filtered for even ones. -/
theorem retain_sweeps_odd :
    let byte : ℕ → Scalar .u8 := fun n => (Scalar.ofBits? .u8 (UInt64.ofNat n)).getD default
    let b := (((ScalarBag.empty.addOccurrences (byte 5) 3).val.2.addOccurrences
      (byte 7) 2).val.2.addOccurrences (byte 9) 1).val.2
    let odd : Scalar .u8 → ℕ → StateM (List (UInt64 × ℕ)) Bool :=
      fun v n => do modify (· ++ [(v.bits, n)]); pure (n % 2 == 1)
    let s := (ScalarSet.empty.extend ((List.range 3).map byte)).val
    (∃ b', (b.retainM odd).run [] = (b', [(9, 1), (5, 3), (7, 2)]) ∧ b'.size = 4 ∧
      b'.distinctSize = 2 ∧ b'.table.tombstones = 1) ∧
      b.sweep (fun v => !decide (b.occurrencesOf v % 2 = 1))
        = (b.toList, b.retain fun _ n => decide (n % 2 = 1)) ∧
      s.sweep (fun v => !(v.bits % 2 == 0)) = (s.toList, s.retain fun v => v.bits % 2 == 0) := by
  intro byte b odd s
  have hb : b.Reachable :=
    .addOccurrences (byte 9) 1 (.addOccurrences (byte 7) 2 (.addOccurrences (byte 5) 3 .empty))
  have hs : s.Reachable := .extend _ .empty
  obtain ⟨-, hbag, hset, hcounts⟩ := retain_sweeps .u8
  let asked : List (Entry .u8 ℕ) × List (UInt64 × ℕ) :=
    (b.table.entries.filterM fun e => odd e.value e.payload).run []
  obtain ⟨hstate, hlength, hsum, htomb⟩ :
      asked.2 = [(9, 1), (5, 3), (7, 2)] ∧ asked.1.length = 2 ∧
      (asked.1.map (·.payload)).sum = 4 ∧ ((b.retainM odd).run []).1.table.tombstones = 1 := by
    simp only [asked, b, byte, odd]
    decide +kernel
  have hasked : asked = (asked.1, [(9, 1), (5, 3), (7, 2)]) := by
    rw [← hstate, Prod.mk.eta]
  obtain ⟨b', hrun, -, hdistinct, hsize, -⟩ := hbag hb odd [] _ asked.1 hasked
  rw [hrun] at htomb
  exact ⟨⟨b', hrun, hsize.trans hsum, hdistinct.trans hlength, htomb⟩,
    (hcounts hb fun _ n => decide (n % 2 = 1)).2, (hset hs fun v => v.bits % 2 == 0).2⟩

end Slotted
