import Mathlib.Data.Finset.Card
import Slotted.Proofs.Cursor.Script
import Slotted.Proofs.Equality
import Slotted.Proofs.Table.Thinned
import Slotted.Proofs.Traversal.Iterator

/-!
# Editing a set or a bag with a cursor

A cursor over a set or a bag shows the cursor over the list of its elements.  Between two moves it
stands in a live slot or in none.  In a slot of a bag it has come to some of the occurrences and has
the others before it; removing one lowers both the count and the number of those come to, so the
occurrences before the cursor stay the same.  A slot is freed when its last occurrence goes, and the
slots from there on are not touched by that.

## Main definitions

* `ScalarSet.Cursor.Shows`, `ScalarBag.Cursor.Shows` — the list cursor that a cursor shows.
* `ScalarSet.Reduced`, `ScalarBag.Reduced` — a container with a list of elements taken away.

## Main results

* `ScalarSet.shown_cursor`, `ScalarBag.shown_cursor` — the two cursors move as a list cursor does.
* `ScalarSet.cursor_edits`, `ScalarBag.cursor_edits` — what a script does to a container.
* `cursors_edit_reachable` — both, for every reachable container.
-/

namespace Slotted

variable {k : Kind}

/-! ### Cursors over sets -/

namespace ScalarSet

/-- The values of a list of entries. -/
def valuesOf (es : List (Entry k Unit)) : List (Scalar k) := es.map (·.value)

theorem toList_eq (s : ScalarSet k) : s.toList = valuesOf s.table.entries := rfl

/-- The list cursor that a cursor over a set shows. -/
inductive Cursor.Shows : Cursor k → ListCursor (Scalar k) → Prop where
  /-- The cursor stands in no slot. -/
  | away {t : Table k Unit} {next : ℕ} {passed : List (Scalar k)} : t.Sound →
      passed ++ valuesOf (t.scan next t.capacity) = valuesOf t.entries →
      Shows ⟨t, next, none⟩ ⟨passed, none, valuesOf (t.scan next t.capacity), .noCurrentValue⟩
  /-- The cursor stands in a slot. -/
  | inside {t : Table k Unit} {i : ℕ} {v : Scalar k} : t.Sound →
      t.slots[i]? = some (.live v ()) →
      Shows ⟨t, i + 1, some i⟩
        ⟨valuesOf (t.scan 0 i), some v, valuesOf (t.scan (i + 1) t.capacity), .noCurrentValue⟩

/-- The way to the next slot. -/
theorem Cursor.Shows.advance {t : Table k Unit} (ht : t.Sound) {next : ℕ}
    {passed : List (Scalar k)}
    (h : passed ++ valuesOf (t.scan next t.capacity) = valuesOf t.entries) (current : Option ℕ) :
    (step ⟨t, next, current⟩).1 = (valuesOf (t.scan next t.capacity)).head? ∧
      Shows (step ⟨t, next, current⟩).2
        ⟨passed, (valuesOf (t.scan next t.capacity)).head?,
          (valuesOf (t.scan next t.capacity)).tail, .noCurrentValue⟩ := by
  unfold step Walker.advance
  rcases t.nextLive_cases next with ⟨hnone, hscan⟩ | ⟨⟨i, v, ⟨⟩⟩, hsome, hscan⟩
  · -- there is none: the cursor stands behind the last slot
    simp only [hnone, hscan]
    have hend : valuesOf (t.scan t.capacity t.capacity) = [] := by
      rw [Table.scan_capacity]
      rfl
    rw [hscan] at h
    have haway : Shows ⟨t, t.capacity, none⟩ ⟨passed, none, _, .noCurrentValue⟩ :=
      away ht (by rw [hend]; exact h)
    rw [hend] at haway
    exact ⟨rfl, haway⟩
  · simp only [hsome, hscan]
    refine ⟨rfl, ?_⟩
    -- what was passed is what stands before the slot
    have hslot := Table.getElem?_of_nextLive hsome
    have hpassed : passed = valuesOf (t.scan 0 i) := by
      rw [hscan, Table.entries_of_live hslot] at h
      unfold valuesOf at h
      rw [List.map_append] at h
      exact List.append_cancel_right h
    rw [hpassed]
    exact inside ht hslot

/-- A cursor over a set moves as a list cursor does. -/
theorem shown_cursor : EditCursor.Shown (Cursor.Shows (k := k)) := by
  intro c lc hc m
  cases hc with
  | @away t next passed ht h =>
    cases m with
    | next =>
      obtain ⟨hanswer, hshows⟩ := Cursor.Shows.advance ht h none
      refine ⟨congrArg CursorAnswer.item hanswer, ?_⟩
      rw [← List.append_nil passed] at hshows
      exact hshows
    | remove => exact ⟨rfl, .away ht h⟩
  | @inside t i v ht hslot =>
    cases m with
    | next =>
      have h : valuesOf (t.scan 0 i) ++ [v] ++ valuesOf (t.scan (i + 1) t.capacity)
          = valuesOf t.entries := by
        rw [Table.entries_of_live hslot]
        simp [valuesOf]
      obtain ⟨hanswer, hshows⟩ := Cursor.Shows.advance ht h (some i)
      exact ⟨congrArg CursorAnswer.item hanswer, hshows⟩
    | remove =>
      refine ⟨rfl, ?_⟩
      have hbehind : (t.vacate i).scan (i + 1) (t.vacate i).capacity
          = t.scan (i + 1) t.capacity := by
        rw [Table.capacity_vacate, Table.scan_vacate t (Nat.lt_succ_self i)]
      have haway : Cursor.Shows ⟨t.vacate i, i + 1, none⟩
          ⟨valuesOf (t.scan 0 i), none, _, .noCurrentValue⟩ :=
        .away (ht.vacate hslot) (by rw [hbehind, Table.entries_vacate hslot]; simp [valuesOf])
      rw [hbehind] at haway
      exact haway

/-- A cursor shows what its set holds. -/
theorem Cursor.Shows.left_eq {c : Cursor k} {lc : ListCursor (Scalar k)} (h : c.Shows lc) :
    lc.left = c.done.toList := by
  cases h with
  | away ht h =>
    rw [ListCursor.left, Option.toList_none, List.append_nil]
    exact h
  | inside ht hslot =>
    rw [Cursor.done, toList_eq, Table.entries_of_live hslot]
    simp [ListCursor.left, valuesOf]

theorem Cursor.Shows.sound {c : Cursor k} {lc : ListCursor (Scalar k)} (h : c.Shows lc) :
    c.done.table.Sound := by
  cases h with
  | away ht _ => exact ht
  | inside ht _ => exact ht

theorem Cursor.thinned_move (c : Cursor k) (m : CursorMove) :
    c.table.Thinned (· = ·) (EditCursor.move c m).2.table := by
  cases m with
  | next => exact .refl c.table
  | remove =>
    obtain ⟨t, next, current⟩ := c
    cases current with
    | none => exact .refl t
    | some i => exact .vacate t i

/-- `s'` is the set `s` without the elements of a list. -/
structure Reduced (s : ScalarSet k) (gone : List (Scalar k)) (s' : ScalarSet k) : Prop where
  /-- The invariant holds. -/
  sound : s'.table.Sound
  /-- The elements are those that are left and those that are gone, each once. -/
  perm : s.toList.Perm (s'.toList ++ gone)
  /-- Those that are left are in their order. -/
  order : s'.toList.Sublist s.toList
  /-- An element is left if it was there and is not gone. -/
  contains : ∀ v, s'.contains v = true ↔ s.contains v = true ∧ ∀ w ∈ gone, w.key ≠ v.key
  /-- The size has gone down by as many. -/
  size : s.size = s'.size + gone.length
  /-- What is left has its slot. -/
  slots : s.table.Thinned (· = ·) s'.table

theorem Reduced.of_perm {s s' : ScalarSet k} {gone : List (Scalar k)} (hs : s.table.Sound)
    (hs' : s'.table.Sound) (hperm : s.toList.Perm (s'.toList ++ gone))
    (horder : s'.toList.Sublist s.toList) (hslots : s.table.Thinned (· = ·) s'.table) :
    s.Reduced gone s' := by
  have hkeys : (s.toList.map Scalar.key).Perm (s'.toList.map Scalar.key ++ gone.map Scalar.key) := by
    rw [← List.map_append]
    exact hperm.map _
  have hnodup := hkeys.nodup_iff.1 (nodup_map_key_toList hs)
  refine ⟨hs', hperm, horder, fun v => ?_, ?_, hslots⟩
  · rw [contains_eq_true_iff hs, contains_eq_true_iff hs', ← mem_map_key_toList_iff,
      ← mem_map_key_toList_iff, hkeys.mem_iff, List.mem_append]
    constructor
    · intro hv
      refine ⟨Or.inl hv, fun w hw hkey => ?_⟩
      exact List.disjoint_of_nodup_append hnodup hv (hkey ▸ List.mem_map_of_mem hw)
    · rintro ⟨hv | hv, hgone⟩
      · exact hv
      · obtain ⟨w, hw, hkey⟩ := List.mem_map.1 hv
        exact absurd hkey (hgone w hw)
  · rw [← length_toList hs, ← length_toList hs', hperm.length_eq, List.length_append]

/-- A script of moves on a sound set is answered as it has to be, and takes from the set what it
says. -/
theorem cursor_edits {s : ScalarSet k} (hs : s.table.Sound) (ms : List CursorMove) :
    EditCursor.Edits s.cursor ms s.toList .noCurrentValue ∧
      s.Reduced (CursorAnswer.taken (EditCursor.run s.cursor ms).1)
        (EditCursor.run s.cursor ms).2.done ∧
      (CursorAnswer.taken (EditCursor.run s.cursor ms).1).length
        = (EditCursor.run s.cursor ms).1.countP CursorAnswer.isRemoved := by
  have hshows : s.cursor.Shows (.before s.toList .noCurrentValue) := .away hs rfl
  have hafter := (shown_cursor.run hshows ms).2
  obtain ⟨hperm, horder, hlength⟩ := shown_cursor.perm_run Cursor.Shows.left_eq hshows ms
  have hslots := EditCursor.run_invariant (fun c : Cursor k => s.table.Thinned (· = ·) c.table)
    (fun c m h => h.trans (c.thinned_move m)) ms (c := s.cursor) (.refl s.table)
  exact ⟨shown_cursor.edits hshows ms, .of_perm hs hafter.sound hperm horder hslots, hlength⟩

end ScalarSet

/-! ### Cursors over bags -/

namespace ScalarBag

variable {b b' : ScalarBag k}

/-- The occurrences that a list of entries stands for. -/
def spread (es : List (Entry k ℕ)) : List (Scalar k) :=
  occurrences (es.map fun e => (e.value, e.payload))

@[simp] theorem spread_nil : spread ([] : List (Entry k ℕ)) = [] := rfl

@[simp] theorem spread_cons (e : Entry k ℕ) (es : List (Entry k ℕ)) :
    spread (e :: es) = List.replicate e.payload e.value ++ spread es := rfl

@[simp] theorem spread_append (es es' : List (Entry k ℕ)) :
    spread (es ++ es') = spread es ++ spread es' := by
  rw [spread, List.map_append, occurrences_append]
  rfl

theorem toList_eq (b : ScalarBag k) : b.toList = spread b.table.entries := rfl

/-- The list cursor that a cursor over a bag shows. -/
inductive Cursor.Shows : Cursor k → ListCursor (Scalar k) → Prop where
  /-- The cursor stands in no slot. -/
  | away {b : ScalarBag k} {next emitted : ℕ} {passed : List (Scalar k)} : b.Sound →
      passed ++ spread (b.table.scan next b.table.capacity) = b.toList →
      Shows ⟨b, ⟨next, none⟩, emitted, false⟩
        ⟨passed, none, spread (b.table.scan next b.table.capacity), .noCurrentOccurrence⟩
  /-- The cursor stands in a slot, where it came to an occurrence that is still there. -/
  | on {b : ScalarBag k} {i emitted left : ℕ} {v : Scalar k} : b.Sound →
      b.table.slots[i]? = some (.live v (emitted + 1 + left)) →
      Shows ⟨b, ⟨i + 1, some i⟩, emitted + 1, true⟩
        ⟨spread (b.table.scan 0 i) ++ List.replicate emitted v, some v,
          List.replicate left v ++ spread (b.table.scan (i + 1) b.table.capacity),
          .noCurrentOccurrence⟩
  /-- The cursor stands in a slot, and the occurrence it came to last is gone. -/
  | off {b : ScalarBag k} {i emitted left : ℕ} {v : Scalar k} : b.Sound →
      b.table.slots[i]? = some (.live v (emitted + left)) →
      Shows ⟨b, ⟨i + 1, some i⟩, emitted, false⟩
        ⟨spread (b.table.scan 0 i) ++ List.replicate emitted v, none,
          List.replicate left v ++ spread (b.table.scan (i + 1) b.table.capacity),
          .noCurrentOccurrence⟩

/-- The way to the next slot. -/
theorem Cursor.Shows.enter (hb : b.Sound) {next : ℕ} {passed : List (Scalar k)}
    (h : passed ++ spread (b.table.scan next b.table.capacity) = b.toList)
    (current : Option ℕ) (emitted : ℕ) (removable : Bool) :
    (Cursor.enter ⟨b, ⟨next, current⟩, emitted, removable⟩).1
        = (spread (b.table.scan next b.table.capacity)).head? ∧
      Shows (Cursor.enter ⟨b, ⟨next, current⟩, emitted, removable⟩).2
        ⟨passed, (spread (b.table.scan next b.table.capacity)).head?,
          (spread (b.table.scan next b.table.capacity)).tail, .noCurrentOccurrence⟩ := by
  unfold Cursor.enter Walker.advance
  rcases b.table.nextLive_cases next with ⟨hnone, hscan⟩ | ⟨⟨i, v, m⟩, hsome, hscan⟩
  · simp only [hnone, hscan]
    have hend : spread (b.table.scan b.table.capacity b.table.capacity) = [] := by
      rw [Table.scan_capacity]
      rfl
    rw [hscan] at h
    have haway : Shows ⟨b, ⟨b.table.capacity, none⟩, emitted, false⟩
        ⟨passed, none, _, .noCurrentOccurrence⟩ := away hb (by rw [hend]; exact h)
    rw [hend] at haway
    exact ⟨rfl, haway⟩
  · have hslot := Table.getElem?_of_nextLive hsome
    -- the slot holds one occurrence at least
    obtain ⟨n, rfl⟩ : ∃ n, m = n + 1 :=
      Nat.exists_eq_succ_of_ne_zero (hb.pos (v, m) (Table.mem_contents_iff.2 ⟨i, hslot⟩)).ne'
    have hpassed : passed = spread (b.table.scan 0 i) := by
      rw [hscan, toList_eq, Table.entries_of_live hslot, spread_append] at h
      exact List.append_cancel_right h
    have hon : Shows ⟨b, ⟨i + 1, some i⟩, 0 + 1, true⟩
        ⟨_, _, List.replicate n v ++ _, _⟩ :=
      on hb (by rw [Nat.zero_add, Nat.add_comm 1 n]; exact hslot)
    simp only [hsome, hscan, hpassed]
    rw [List.replicate_zero, List.append_nil] at hon
    exact ⟨rfl, hon⟩

/-- The next occurrence in the same slot. -/
theorem Cursor.step_of_lt {i next emitted m : ℕ} {removable : Bool} {v : Scalar k}
    (hslot : b.table.slots[i]? = some (.live v m)) (hlt : emitted < m) :
    Cursor.step ⟨b, ⟨next, some i⟩, emitted, removable⟩
      = (some v, ⟨b, ⟨next, some i⟩, emitted + 1, true⟩) := by
  unfold Cursor.step
  simp only [Option.bind_some, Table.entry?_eq_some_iff.2 hslot, if_pos hlt]

/-- After the last occurrence of a slot the way leads to the next slot. -/
theorem Cursor.step_of_eq {i next m : ℕ} {removable : Bool} {v : Scalar k}
    (hslot : b.table.slots[i]? = some (.live v m)) :
    Cursor.step ⟨b, ⟨next, some i⟩, m, removable⟩
      = Cursor.enter ⟨b, ⟨next, some i⟩, m, removable⟩ := by
  unfold Cursor.step
  simp only [Option.bind_some, Table.entry?_eq_some_iff.2 hslot, if_neg (Nat.lt_irrefl m)]

/-- The last occurrence in a slot removed: the slot is freed. -/
theorem Cursor.remove_of_one {i : ℕ} {v : Scalar k}
    (hslot : b.table.slots[i]? = some (.live v 1)) (next : ℕ) :
    Cursor.remove ⟨b, ⟨next, some i⟩, 1, true⟩
      = .ok ⟨⟨b.table.vacate i, b.total - 1⟩, ⟨next, none⟩, 0, false⟩ := by
  unfold Cursor.remove
  simp only [countAt_eq hslot]
  rfl

/-- One of several occurrences removed: the count is lowered. -/
theorem Cursor.remove_of_more {i m : ℕ} {v : Scalar k}
    (hslot : b.table.slots[i]? = some (.live v (m + 1))) (hm : m ≠ 0) (next emitted : ℕ) :
    Cursor.remove ⟨b, ⟨next, some i⟩, emitted + 1, true⟩
      = .ok ⟨⟨b.table.setPayload i m, b.total - 1⟩, ⟨next, some i⟩, emitted, false⟩ := by
  unfold Cursor.remove
  simp only [countAt_eq hslot, Nat.add_sub_cancel, if_neg hm, if_true]

/-- A call for the next occurrence, in a slot that has `left` of them before the cursor; `passed` is
what the list cursor has behind it then. -/
theorem Cursor.Shows.next_of_live (hb : b.Sound) {i emitted left : ℕ} {v : Scalar k}
    (hslot : b.table.slots[i]? = some (.live v (emitted + left))) (removable : Bool) :
    (Cursor.step ⟨b, ⟨i + 1, some i⟩, emitted, removable⟩).1
        = (List.replicate left v ++ spread (b.table.scan (i + 1) b.table.capacity)).head? ∧
      Shows (Cursor.step ⟨b, ⟨i + 1, some i⟩, emitted, removable⟩).2
        ⟨spread (b.table.scan 0 i) ++ List.replicate emitted v,
          (List.replicate left v ++ spread (b.table.scan (i + 1) b.table.capacity)).head?,
          (List.replicate left v ++ spread (b.table.scan (i + 1) b.table.capacity)).tail,
          .noCurrentOccurrence⟩ := by
  cases left with
  | zero =>
    rw [Nat.add_zero] at hslot
    rw [step_of_eq hslot]
    refine enter hb ?_ (some i) emitted removable
    rw [toList_eq, Table.entries_of_live hslot]
    simp
  | succ left =>
    rw [step_of_lt hslot (by omega)]
    refine ⟨rfl, on hb ?_⟩
    rw [hslot, Nat.add_assoc, Nat.add_comm 1 left]

/-- Removing the occurrence that the cursor came to. -/
theorem Cursor.Shows.removed (hb : b.Sound) {i emitted left : ℕ} {v : Scalar k}
    (hslot : b.table.slots[i]? = some (.live v (emitted + 1 + left))) :
    ∃ c', Cursor.remove ⟨b, ⟨i + 1, some i⟩, emitted + 1, true⟩ = .ok c' ∧
      Shows c' ⟨spread (b.table.scan 0 i) ++ List.replicate emitted v, none,
        List.replicate left v ++ spread (b.table.scan (i + 1) b.table.capacity),
        .noCurrentOccurrence⟩ := by
  rw [Nat.add_right_comm] at hslot
  have hc : Cursor.Sound ⟨b, ⟨i + 1, some i⟩, emitted + 1, true⟩ :=
    ⟨hb, fun j hj => by obtain rfl := Option.some.inj hj; exact ⟨v, _, hslot⟩⟩
  by_cases hm : emitted + left = 0
  · obtain ⟨rfl, rfl⟩ := Nat.add_eq_zero_iff.1 hm
    have hremove := remove_of_one hslot (i + 1)
    refine ⟨_, hremove, ?_⟩
    have hbehind : (b.table.vacate i).scan (i + 1) (b.table.vacate i).capacity
        = b.table.scan (i + 1) b.table.capacity := by
      rw [Table.capacity_vacate, Table.scan_vacate b.table (Nat.lt_succ_self i)]
    have haway : Shows ⟨⟨b.table.vacate i, b.total - 1⟩, ⟨i + 1, none⟩, 0, false⟩
        ⟨spread (b.table.scan 0 i), none, _, .noCurrentOccurrence⟩ :=
      away (Cursor.sound_remove hc hremove).1
        (by rw [hbehind, toList_eq, Table.entries_vacate hslot, spread_append])
    rw [hbehind] at haway
    simpa using haway
  · have hremove := remove_of_more hslot hm (i + 1) emitted
    refine ⟨_, hremove, ?_⟩
    have hoff := off (Cursor.sound_remove hc hremove).1
      (Table.getElem?_setPayload_self hslot (emitted + left))
    simp only [Table.capacity_setPayload, b.table.scan_setPayload (Or.inr le_rfl),
      b.table.scan_setPayload (Or.inl (Nat.lt_succ_self i))] at hoff
    exact hoff

/-- A cursor over a bag moves as a list cursor does. -/
theorem shown_cursor : EditCursor.Shown (Cursor.Shows (k := k)) := by
  intro c lc hc m
  cases hc with
  | @away b next emitted passed hb h =>
    cases m with
    | next =>
      obtain ⟨hanswer, hshows⟩ := Cursor.Shows.enter hb h none emitted false
      rw [← List.append_nil passed] at hshows
      exact ⟨congrArg CursorAnswer.item hanswer, hshows⟩
    | remove => exact ⟨rfl, .away hb h⟩
  | @on b i emitted left v hb hslot =>
    cases m with
    | next =>
      obtain ⟨hanswer, hshows⟩ := Cursor.Shows.next_of_live hb hslot true
      rw [List.replicate_succ', ← List.append_assoc] at hshows
      exact ⟨congrArg CursorAnswer.item hanswer, hshows⟩
    | remove =>
      obtain ⟨c', hremove, hshows⟩ := Cursor.Shows.removed hb hslot
      have hmove : EditCursor.move (K := Cursor k) ⟨b, ⟨i + 1, some i⟩, emitted + 1, true⟩ .remove
          = (.removed, c') := by
        unfold EditCursor.move
        rw [show EditCursor.remove _ = _ from hremove]
      rw [hmove]
      exact ⟨rfl, hshows⟩
  | @off b i emitted left v hb hslot =>
    cases m with
    | next =>
      obtain ⟨hanswer, hshows⟩ := Cursor.Shows.next_of_live hb hslot false
      rw [← List.append_nil (_ ++ List.replicate emitted v)] at hshows
      exact ⟨congrArg CursorAnswer.item hanswer, hshows⟩
    | remove => exact ⟨rfl, .off hb hslot⟩

/-- A cursor shows what its bag holds. -/
theorem Cursor.Shows.left_eq {c : Cursor k} {lc : ListCursor (Scalar k)} (h : c.Shows lc) :
    lc.left = c.done.toList := by
  cases h with
  | away hb h =>
    rw [ListCursor.left, Option.toList_none, List.append_nil]
    exact h
  | on hb hslot =>
    rw [Cursor.done, toList_eq, Table.entries_of_live hslot, spread_append, spread_cons,
      List.replicate_add, List.replicate_succ']
    simp [ListCursor.left]
  | off hb hslot =>
    rw [Cursor.done, toList_eq, Table.entries_of_live hslot, spread_append, spread_cons,
      ListCursor.left, List.replicate_add]
    simp only [Option.toList_none, List.append_nil, List.append_assoc]

theorem Cursor.Shows.sound {c : Cursor k} {lc : ListCursor (Scalar k)} (h : c.Shows lc) :
    c.done.Sound := by
  cases h with
  | away hb _ => exact hb
  | on hb _ => exact hb
  | off hb _ => exact hb

/-- A cursor shows the list cursor before the elements of its bag, at first. -/
theorem shows_cursor (hb : b.Sound) :
    b.cursor.Shows (.before b.toList .noCurrentOccurrence) := .away hb rfl

theorem Cursor.bag_step (c : Cursor k) : c.step.2.bag = c.bag := by
  have henter : c.enter.2.bag = c.bag := by
    unfold enter
    split <;> rfl
  unfold step
  split
  · split
    · rfl
    · exact henter
  · exact henter

theorem Cursor.thinned_move (c : Cursor k) (m : CursorMove) :
    c.bag.table.Thinned (· ≤ ·) (EditCursor.move c m).2.bag.table := by
  cases m with
  | next =>
    show c.bag.table.Thinned (· ≤ ·) c.step.2.bag.table
    rw [c.bag_step]
    exact .refl _
  | remove =>
    unfold EditCursor.move
    cases h : EditCursor.remove c with
    | error e => exact .refl _
    | ok c' =>
      have h : c.remove = .ok c' := h
      unfold remove at h
      split at h
      · next i hi =>
        split at h
        · simp only at h
          split at h
          · rw [← Except.ok.inj h]
            exact .vacate c.bag.table i
          · rw [← Except.ok.inj h]
            refine .setPayload c.bag.table fun v m hslot => ?_
            rw [countAt_eq hslot]
            exact Nat.sub_le m 1
        · exact absurd h (by simp)
      · exact absurd h (by simp)

/-! ### A bag with some occurrences taken away -/

theorem mem_occurrences_iff {α : Type} {es : List (α × ℕ)} {a : α} :
    a ∈ occurrences es ↔ ∃ n, n ≠ 0 ∧ (a, n) ∈ es := by
  unfold occurrences
  rw [List.mem_flatMap]
  constructor
  · rintro ⟨⟨a', n⟩, hmem, ha⟩
    obtain ⟨hn, rfl⟩ := List.mem_replicate.1 ha
    exact ⟨n, hn, hmem⟩
  · rintro ⟨n, hn, hmem⟩
    exact ⟨(a, n), hmem, List.mem_replicate.2 ⟨hn, rfl⟩⟩

/-- The occurrences with a key are as many as its count says. -/
theorem countP_occurrences {es : List (Scalar k × ℕ)} (h : Tally.Proper (keyed es)) (x : UInt64) :
    (occurrences es).countP (fun w => w.key == x) = Tally.countIn x (keyed es) := by
  induction es with
  | nil => rfl
  | cons e es ih =>
    obtain ⟨v, n⟩ := e
    obtain ⟨-, hnew, hrest⟩ := Tally.proper_cons_iff.1 h
    have hnone : Tally.countIn v.key (keyed es) = 0 := Tally.countIn_eq_zero hnew
    show _ = if v.key = x then n else Tally.countIn x (keyed es)
    rw [occurrences_cons, List.countP_append, ih hrest, List.countP_replicate]
    by_cases hkey : v.key = x
    · rw [if_pos hkey, if_pos (by rw [hkey]; exact beq_self_eq_true x), ← hkey, hnone,
        Nat.add_zero]
    · rw [if_neg hkey, if_neg (by simpa using hkey), Nat.zero_add]

theorem countP_toList (hb : b.Sound) (v : Scalar k) :
    b.toList.countP (fun w => w.key == v.key) = b.occurrencesOf v := by
  rw [toList, countP_occurrences hb.proper_keyed, hb.occurrencesOf_eq_countIn]

theorem distinctSize_eq_card_toFinset (hb : b.Sound) :
    b.distinctSize = (b.toList.map Scalar.key).toFinset.card := by
  -- a key occurs if it has an entry, as no count is zero
  have hkeys : (b.toList.map Scalar.key).toFinset
      = ((keyed b.distinct).map Prod.fst).toFinset := by
    ext x
    rw [List.mem_toFinset, List.mem_toFinset, map_fst_keyed, List.mem_map, List.mem_map]
    constructor
    · rintro ⟨v, hv, rfl⟩
      obtain ⟨n, -, hmem⟩ := mem_occurrences_iff.1 hv
      exact ⟨(v, n), hmem, rfl⟩
    · rintro ⟨⟨v, n⟩, hmem, rfl⟩
      exact ⟨v, mem_occurrences_iff.2 ⟨n, (hb.pos _ (mem_distinct_iff.1 hmem)).ne', hmem⟩, rfl⟩
  rw [hkeys, List.toFinset_card_of_nodup hb.proper_keyed.nodup, List.length_map,
    hb.distinctSize_eq_length]

/-- `b'` is the bag `b` without the occurrences in a list. -/
structure Reduced (b : ScalarBag k) (gone : List (Scalar k)) (b' : ScalarBag k) : Prop where
  /-- The invariant holds. -/
  sound : b'.Sound
  /-- The occurrences are those that are left and those that are gone, each once. -/
  perm : b.toList.Perm (b'.toList ++ gone)
  /-- Those that are left are in their order. -/
  order : b'.toList.Sublist b.toList
  /-- Every value occurs less often by the occurrences of it that are gone. -/
  occurrencesOf : ∀ v, b.occurrencesOf v
    = b'.occurrencesOf v + gone.countP fun w => w.key == v.key
  /-- No count is zero. -/
  count_ne : ∀ c ∈ b'.distinct, c.2 ≠ 0
  /-- The size has gone down by as many, and is the number of occurrences. -/
  size : b.size = b'.size + gone.length ∧ b'.size = b'.toList.length
  /-- The number of distinct values is that of the keys of the occurrences. -/
  distinctSize : b'.distinctSize = (b'.toList.map Scalar.key).toFinset.card
  /-- What is left has its slot, with no greater count. -/
  slots : b.table.Thinned (· ≤ ·) b'.table

theorem Reduced.of_perm {gone : List (Scalar k)} (hb : b.Sound) (hb' : b'.Sound)
    (hperm : b.toList.Perm (b'.toList ++ gone)) (horder : b'.toList.Sublist b.toList)
    (hslots : b.table.Thinned (· ≤ ·) b'.table) : b.Reduced gone b' := by
  refine ⟨hb', hperm, horder, fun v => ?_, fun c hc => ?_, ?_, ?_, hslots⟩
  · rw [← countP_toList hb, ← countP_toList hb', hperm.countP_eq, List.countP_append]
  · exact (hb'.pos c (mem_distinct_iff.1 hc)).ne'
  · rw [← length_toList hb, ← length_toList hb', hperm.length_eq, List.length_append]
    exact ⟨rfl, rfl⟩
  · exact distinctSize_eq_card_toFinset hb'

/-- A script of moves on a sound bag is answered as it has to be, and takes from the bag what it
says. -/
theorem cursor_edits (hb : b.Sound) (ms : List CursorMove) :
    EditCursor.Edits b.cursor ms b.toList .noCurrentOccurrence ∧
      b.Reduced (CursorAnswer.taken (EditCursor.run b.cursor ms).1)
        (EditCursor.run b.cursor ms).2.done ∧
      (CursorAnswer.taken (EditCursor.run b.cursor ms).1).length
        = (EditCursor.run b.cursor ms).1.countP CursorAnswer.isRemoved := by
  have hshows := shows_cursor hb
  have hafter := (shown_cursor.run hshows ms).2
  obtain ⟨hperm, horder, hlength⟩ := shown_cursor.perm_run Cursor.Shows.left_eq hshows ms
  have hslots := EditCursor.run_invariant (fun c : Cursor k => b.table.Thinned (· ≤ ·) c.bag.table)
    (fun c m h => h.trans (c.thinned_move m)) ms (c := b.cursor) (.refl b.table)
  exact ⟨shown_cursor.edits hshows ms, .of_perm hb hafter.sound hperm horder hslots, hlength⟩

end ScalarBag

/-! ### Reachable containers -/

/-- **A cursor edits every reachable set and every reachable bag as it would a list.**  The calls
for the next element come to the elements in order, each once and whatever was removed, and after
the last one to none; a removal takes the element that the last call came to, once, and any other is
refused and changes nothing.  Afterwards the container is what it was but for the elements taken, of
which there is one for each removal: what it says of its size and counts is right, and what is left
stands in its slot. -/
theorem cursors_edit_reachable :
    (∀ s : ScalarSet k, s.Reachable → ∀ ms,
      EditCursor.Edits s.cursor ms s.toList .noCurrentValue ∧
        s.Reduced (CursorAnswer.taken (EditCursor.run s.cursor ms).1)
          (EditCursor.run s.cursor ms).2.done ∧
        (CursorAnswer.taken (EditCursor.run s.cursor ms).1).length
          = (EditCursor.run s.cursor ms).1.countP CursorAnswer.isRemoved) ∧
      ∀ b : ScalarBag k, b.Reachable → ∀ ms,
        EditCursor.Edits b.cursor ms b.toList .noCurrentOccurrence ∧
          b.Reduced (CursorAnswer.taken (EditCursor.run b.cursor ms).1)
            (EditCursor.run b.cursor ms).2.done ∧
          (CursorAnswer.taken (EditCursor.run b.cursor ms).1).length
            = (EditCursor.run b.cursor ms).1.countP CursorAnswer.isRemoved :=
  ⟨fun _ hs => ScalarSet.cursor_edits hs.sound, fun _ hb => ScalarBag.cursor_edits hb.sound⟩

/-- For example one element of a set, and two of four occurrences of a character. -/
theorem cursors_edit_reachable_partly :
    let s := ((ScalarSet.empty.add (⟨5, by decide⟩ : Scalar .u8)).val.2.add ⟨9, by decide⟩).val.2
    let x : Scalar .char := ⟨120, by decide⟩
    let b := (ScalarBag.empty.addOccurrences x 4).val.2
    let moves : List CursorMove := [.next, .remove, .next, .next, .remove, .next, .next, .remove]
    s.Reachable ∧ EditCursor.Edits s.cursor [.next, .remove, .remove] s.toList .noCurrentValue ∧
      b.Reachable ∧ EditCursor.Edits b.cursor moves b.toList .noCurrentOccurrence ∧
      (EditCursor.run b.cursor moves).2.done.occurrencesOf x = 2 := by
  intro s x b moves
  have hs : s.Reachable := .add _ (.add _ .empty)
  have hb : b.Reachable := .addOccurrences x 4 .empty
  obtain ⟨hset, -⟩ := cursors_edit_reachable.1 s hs [.next, .remove, .remove]
  obtain ⟨hbag, hreduced, -⟩ := cursors_edit_reachable.2 b hb moves
  -- there were four, and two are gone
  have hcount := hreduced.occurrencesOf x
  obtain ⟨hfour, hgone⟩ : b.occurrencesOf x = 4 ∧
      (CursorAnswer.taken (EditCursor.run b.cursor moves).1).countP
        (fun w => w.key == x.key) = 2 := by
    simp only [b, x, moves]
    decide +kernel
  exact ⟨hs, hset, hb, hbag, by omega⟩

end Slotted
