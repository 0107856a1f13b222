import Slotted.Collection
import Slotted.Proofs.ScalarBag.Operations
import Slotted.Proofs.ScalarSet.Operations
import Slotted.ScalarBag.Iter

/-!
# The containers that operations lead to

A container is *reachable* when some sequence of operations leads to it from a new one.  An
operation that fails may have done a part of its work: a list of values is added up to the first
that overflows, and a filter whose predicate gives up in the middle has passed some of the slots.
What an operation keeps, every reachable container has.

## Main definitions

* `ScalarSet.Reachable`, `ScalarBag.Reachable`, `BoolBag.Reachable` — the reachable containers.
* `ScalarSet.retainPart`, `ScalarBag.retainPart` — a filter that is cut short.
* `Table.InUse` — the tables of reachable containers.

## Main results

* `ScalarSet.Reachable.sound`, `ScalarBag.Reachable.sound` — reachable containers are sound.
* `Table.InUse.keeps_invariant` — what that means for their tables: the invariant holds, there is
  an empty slot, and no search for a place to put a value ends without one.
-/

namespace Slotted

variable {k : Kind} {P σ : Type}

/-- The next live slot is live. -/
theorem Table.getElem?_of_nextLive {t : Table k P} {i : ℕ} {e : Entry k P}
    (h : t.nextLive i = some e) : t.slots[e.slot]? = some (.live e.value e.payload) := by
  have hfrom : ∀ fuel i, t.nextLiveFrom fuel i = some e →
      t.slots[e.slot]? = some (.live e.value e.payload) := by
    intro fuel
    induction fuel with
    | zero => exact fun i h => absurd h (by simp [nextLiveFrom])
    | succ fuel ih =>
      intro i h
      rw [nextLiveFrom] at h
      split at h
      · next v p hs =>
        rw [← Option.some.inj h]
        exact hs
      · exact ih (i + 1) h
  exact hfrom _ i h

/-- A cursor stands on a live slot, if it stands on one. -/
def Walker.OnLive (w : Walker) (t : Table k P) : Prop :=
  ∀ i, w.current = some i → ∃ v p, t.slots[i]? = some (.live v p)

theorem Walker.onLive_advance (w : Walker) (t : Table k P) : (w.advance t).2.OnLive t := by
  intro i hi
  rw [advance] at hi
  split at hi
  · next e he =>
    rw [← Option.some.inj hi]
    exact ⟨e.value, e.payload, Table.getElem?_of_nextLive he⟩
  · exact absurd hi (by simp)

theorem Walker.onLive_release (w : Walker) (t : Table k P) : w.release.OnLive t :=
  fun _ hi => absurd hi (by simp [release])

/-- What every move of a cursor keeps, a script of moves keeps. -/
theorem EditCursor.run_invariant {K α : Type} [EditCursor K α] (inv : K → Prop)
    (hmove : ∀ c m, inv c → inv (move c m).2) (ms : List CursorMove) {c : K} (hc : inv c) :
    inv (run c ms).2 := by
  induction ms generalizing c with
  | nil => exact hc
  | cons m ms ih => exact ih (hmove c m hc)

/-! ### Sets -/

namespace ScalarSet

/-- A set after the first `n` slots were filtered. -/
def retainPart (s : ScalarSet k) (keep : Scalar k → StateM σ Bool) (start : σ) (n : ℕ) :
    ScalarSet k :=
  ⟨((Table.filterFromM (fun () () => ()) (fun v () => keep v) n 0 s.table ()).run start).1.1⟩

theorem retainPart_capacity (s : ScalarSet k) (keep : Scalar k → StateM σ Bool) (start : σ) :
    s.retainPart keep start s.capacity = ((s.retainM keep).run start).1 := rfl

/-- The sets that some sequence of operations leads to. -/
inductive Reachable : ScalarSet k → Prop where
  /-- A new set. -/
  | empty : Reachable .empty
  /-- A new set with room. -/
  | withCapacity {n : ℕ} {s : ScalarSet k} : tryWithCapacity n = .ok s → Reachable s
  /-- A value was added. -/
  | add {s : ScalarSet k} (v : Scalar k) : Reachable s → Reachable (s.add v).val.2
  /-- A value was removed. -/
  | remove {s : ScalarSet k} (v : Scalar k) : Reachable s → Reachable (s.remove v).2
  /-- The first `n` slots were filtered, be they all or some of them. -/
  | retain {s : ScalarSet k} {σ : Type} (keep : Scalar k → StateM σ Bool) (start : σ) (n : ℕ) :
      Reachable s → Reachable (s.retainPart keep start n)
  /-- Every element was removed. -/
  | clear {s : ScalarSet k} : Reachable s → Reachable s.clear
  /-- Room was made. -/
  | reserve {s : ScalarSet k} {n : ℕ} {r : Traced (ScalarSet k)} :
      s.reserve n = .ok r → Reachable s → Reachable r.val
  /-- A list of values was added. -/
  | extend {s : ScalarSet k} (vs : List (Scalar k)) : Reachable s → Reachable (s.extend vs).val
  /-- A cursor made some moves. -/
  | cursor {s : ScalarSet k} (moves : List CursorMove) :
      Reachable s → Reachable (EditCursor.run s.cursor moves).2.done

variable {s : ScalarSet k}

theorem sound_add (hs : s.table.Sound) (v : Scalar k) : (s.add v).val.2.table.Sound := by
  by_cases hmem : v.key ∈ s.table.keys
  · rw [add_of_mem hs hmem]
    exact hs
  · obtain ⟨s', hadd, hsound, -⟩ := exists_add_of_notMem hs hmem
    rw [hadd]
    exact hsound

theorem sound_remove (hs : s.table.Sound) (v : Scalar k) : (s.remove v).2.table.Sound := by
  by_cases hmem : v.key ∈ s.table.keys
  · obtain ⟨w, s', hremove, -, hsound, -⟩ := exists_remove_of_mem hs hmem
    rw [hremove]
    exact hsound
  · rw [remove_of_notMem hs hmem]
    exact hs

theorem sound_extend (hs : s.table.Sound) (vs : List (Scalar k)) :
    (s.extend vs).val.table.Sound := by
  induction vs generalizing s with
  | nil => exact hs
  | cons v vs ih =>
    rw [val_extend_cons]
    exact ih (sound_add hs v)

theorem sound_retainPart (hs : s.table.Sound) (keep : Scalar k → StateM σ Bool) (start : σ)
    (n : ℕ) : (s.retainPart keep start n).table.Sound := by
  -- the slots looked at are a part of the table, and those freed a part of them
  have hsub := sublist_rejectedM (fun e : Entry k Unit => keep e.value)
    (s.table.scan 0 (0 + n)) start
  rw [retainPart, Table.filterFromM_eq]
  exact (hs.free (fun () () => ()) () ((s.table.pairwise_slot_scan 0 (0 + n)).sublist hsub)
    fun e he => Table.getElem?_of_mem_scan (hsub.subset he)).1

/-- What holds of a cursor at all times. -/
def Cursor.Sound (c : Cursor k) : Prop := c.table.Sound ∧ c.walker.OnLive c.table

theorem Cursor.sound_remove {c c' : Cursor k} (hc : c.Sound) (h : c.remove = .ok c') :
    c'.Sound := by
  obtain ⟨hs, hlive⟩ := hc
  rw [remove] at h
  split at h
  · next i hi =>
    obtain ⟨v, p, hslot⟩ := hlive i hi
    rw [← Except.ok.inj h]
    exact ⟨hs.vacate hslot, c.walker.onLive_release _⟩
  · exact absurd h (by simp)

theorem Cursor.sound_move (c : Cursor k) (m : CursorMove) (hc : c.Sound) :
    (EditCursor.move c m).2.Sound := by
  cases m with
  | next => exact ⟨hc.1, c.walker.onLive_advance c.table⟩
  | remove =>
    rw [EditCursor.move]
    cases h : EditCursor.remove c with
    | error e => exact hc
    | ok c' => exact sound_remove hc h

theorem sound_cursor (hs : s.table.Sound) (moves : List CursorMove) :
    (EditCursor.run s.cursor moves).2.done.table.Sound :=
  (EditCursor.run_invariant Cursor.Sound Cursor.sound_move moves (c := s.cursor)
    ⟨hs, fun i hi => absurd hi (by simp [cursor])⟩).1

theorem Reachable.sound (h : s.Reachable) : s.table.Sound := by
  induction h with
  | empty => exact Table.sound_empty
  | withCapacity hok => exact (sound_withCapacity hok).1
  | add v _ ih => exact sound_add ih v
  | remove v _ ih => exact sound_remove ih v
  | retain keep start n _ ih => exact sound_retainPart ih keep start n
  | clear _ ih => exact ih.clear
  | reserve hok _ ih => exact (sound_reserve ih hok).1
  | extend vs _ ih => exact sound_extend ih vs
  | cursor moves _ ih => exact sound_cursor ih moves

theorem reachable_ofList (vs : List (Scalar k)) : (ofList vs).val.Reachable := .extend vs .empty

end ScalarSet

/-! ### Bags -/

namespace ScalarBag

/-- A bag after the first `n` slots were filtered. -/
def retainPart (b : ScalarBag k) (keep : Scalar k → ℕ → StateM σ Bool) (start : σ) (n : ℕ) :
    ScalarBag k :=
  let (t, total) :=
    ((Table.filterFromM (fun total count => total - count) keep n 0 b.table b.total).run start).1
  ⟨t, total⟩

theorem retainPart_capacity (b : ScalarBag k) (keep : Scalar k → ℕ → StateM σ Bool) (start : σ) :
    b.retainPart keep start b.capacity = ((b.retainM keep).run start).1 := rfl

/-- The bags that some sequence of operations leads to.  Additions that overflow are among them. -/
inductive Reachable : ScalarBag k → Prop where
  /-- A new bag. -/
  | empty : Reachable .empty
  /-- A new bag with room. -/
  | withCapacity {n : ℕ} {b : ScalarBag k} : tryWithCapacity n = .ok b → Reachable b
  /-- An occurrence was added, or was one too many. -/
  | add {b : ScalarBag k} (v : Scalar k) : Reachable b → Reachable (b.add v).val.2
  /-- Some occurrences were added, or were too many. -/
  | addOccurrences {b : ScalarBag k} (v : Scalar k) (n : ℕ) :
      Reachable b → Reachable (b.addOccurrences v n).val.2
  /-- An occurrence was removed. -/
  | remove {b : ScalarBag k} (v : Scalar k) : Reachable b → Reachable (b.remove v).2
  /-- Some occurrences were removed. -/
  | removeOccurrences {b : ScalarBag k} (v : Scalar k) (n : ℕ) :
      Reachable b → Reachable (b.removeOccurrences v n).2
  /-- A count was set, or was too large. -/
  | setOccurrences {b : ScalarBag k} (v : Scalar k) (n : ℕ) :
      Reachable b → Reachable (b.setOccurrences v n).val.2
  /-- The first `n` slots were filtered, be they all or some of them. -/
  | retain {b : ScalarBag k} {σ : Type} (keep : Scalar k → ℕ → StateM σ Bool) (start : σ)
      (n : ℕ) : Reachable b → Reachable (b.retainPart keep start n)
  /-- Every occurrence was removed. -/
  | clear {b : ScalarBag k} : Reachable b → Reachable b.clear
  /-- Room was made. -/
  | reserve {b : ScalarBag k} {n : ℕ} {r : Traced (ScalarBag k)} :
      b.reserve n = .ok r → Reachable b → Reachable r.val
  /-- A list of values was added, up to the first that was one too many. -/
  | extend {b : ScalarBag k} (vs : List (Scalar k)) :
      Reachable b → Reachable (b.extend vs).val.2
  /-- A cursor made some moves. -/
  | cursor {b : ScalarBag k} (moves : List CursorMove) :
      Reachable b → Reachable (EditCursor.run b.cursor moves).2.done

variable {b : ScalarBag k}

theorem sound_addOccurrences (hb : b.Sound) (v : Scalar k) (n : ℕ) :
    (b.addOccurrences v n).val.2.Sound := by
  obtain ⟨w, m, R, hs⟩ := hb.exists_splits v
  by_cases hle : b.total + n ≤ maxWord
  · obtain ⟨b', hval, hsound, -⟩ := hs.exists_addOccurrences hb hle
    rw [hval]
    exact hsound
  · rw [addOccurrences_of_overflow hb v (Nat.lt_of_not_le hle)]
    exact hb

theorem sound_add (hb : b.Sound) (v : Scalar k) : (b.add v).val.2.Sound :=
  sound_addOccurrences hb v 1

theorem sound_removeOccurrences (hb : b.Sound) (v : Scalar k) (n : ℕ) :
    (b.removeOccurrences v n).2.Sound := by
  obtain ⟨w, m, R, hs⟩ := hb.exists_splits v
  obtain ⟨b', w', hval, hsound, -, -⟩ := hs.exists_removeOccurrences hb n
  rw [hval]
  exact hsound

theorem sound_setOccurrences (hb : b.Sound) (v : Scalar k) (n : ℕ) :
    (b.setOccurrences v n).val.2.Sound := by
  obtain ⟨w, m, R, hs⟩ := hb.exists_splits v
  by_cases hle : countSum R + n ≤ maxWord
  · obtain ⟨b', w', hval, hsound, -, -⟩ := hs.exists_setOccurrences hb hle
    rw [hval]
    exact hsound
  · rw [setOccurrences_of_overflow hs hb (Nat.lt_of_not_le hle)]
    exact hb

theorem sound_extend (hb : b.Sound) (vs : List (Scalar k)) : (b.extend vs).val.2.Sound := by
  induction vs generalizing b with
  | nil => exact hb
  | cons v vs ih =>
    have hnext := sound_add hb v
    rw [extend, Traced.val_bind]
    rcases hadd : (b.add v).val with ⟨r, b'⟩
    rw [hadd] at hnext
    cases r with
    | ok fresh => exact ih hnext
    | error a => exact hnext

theorem sound_retainPart (hb : b.Sound) (keep : Scalar k → ℕ → StateM σ Bool) (start : σ)
    (n : ℕ) : (b.retainPart keep start n).Sound := by
  have hsub := sublist_rejectedM (fun e : Entry k ℕ => keep e.value e.payload)
    (b.table.scan 0 (0 + n)) start
  rw [retainPart, Table.filterFromM_eq]
  exact (hb.freed ((b.table.pairwise_slot_scan 0 (0 + n)).sublist hsub)
    fun e he => Table.getElem?_of_mem_scan (hsub.subset he)).1

/-- What holds of a cursor at all times. -/
def Cursor.Sound (c : Cursor k) : Prop := c.bag.Sound ∧ c.walker.OnLive c.bag.table

theorem Cursor.sound_step (c : Cursor k) (hc : c.Sound) : c.step.2.Sound := by
  obtain ⟨hb, hlive⟩ := hc
  have henter : c.enter.2.Sound := by
    have hadvance := c.walker.onLive_advance c.bag.table
    rw [enter]
    split
    · next e w hw =>
      rw [hw] at hadvance
      exact ⟨hb, hadvance⟩
    · next w hw =>
      rw [hw] at hadvance
      exact ⟨hb, hadvance⟩
  rw [step]
  split
  · split
    · exact ⟨hb, hlive⟩
    · exact henter
  · exact henter

theorem Cursor.sound_remove {c c' : Cursor k} (hc : c.Sound) (h : c.remove = .ok c') :
    c'.Sound := by
  obtain ⟨hb, hlive⟩ := hc
  rw [remove] at h
  split at h
  · next i hi =>
    obtain ⟨v, m, hslot⟩ := hlive i hi
    have hs := hb.splits_of_live hslot rfl
    have htotal := hs.total_eq hb
    have hle := hb.total_le
    have hm : m ≠ 0 := (hb.pos (v, m) (Table.mem_contents_iff.2 ⟨i, hslot⟩)).ne'
    split at h
    · simp only [countAt_eq hslot] at h
      split at h
      · next hone =>
        -- the last occurrence: the slot is freed, and the cursor stands nowhere
        rw [← Except.ok.inj h]
        have hs' := hs.vacate rfl (c.bag.total - 1)
        refine ⟨hs'.sound (hb.table.vacate hslot) (hs.pos hb) ?_ ?_, c.walker.onLive_release _⟩
        · show c.bag.total - 1 = _
          omega
        · exact le_trans (Nat.sub_le _ _) hle
      · next hmore =>
        -- one of several: the slot stays live under the cursor
        rw [← Except.ok.inj h]
        have hs' := hs.setPayload hm hslot hmore (c.bag.total - 1)
        refine ⟨hs'.sound (hb.table.setPayload i _) (hs.pos hb) ?_ ?_, fun j hj => ?_⟩
        · show c.bag.total - 1 = _
          omega
        · exact le_trans (Nat.sub_le _ _) hle
        · rw [hi] at hj
          rw [← Option.some.inj hj, Table.setPayload_eq hslot]
          exact ⟨v, m - 1, Table.getElem?_update_self (Table.lt_capacity_of_getElem? hslot) _ _ _⟩
    · exact absurd h (by simp)
  · exact absurd h (by simp)

theorem Cursor.sound_move (c : Cursor k) (m : CursorMove) (hc : c.Sound) :
    (EditCursor.move c m).2.Sound := by
  cases m with
  | next => exact c.sound_step hc
  | remove =>
    rw [EditCursor.move]
    cases h : EditCursor.remove c with
    | error e => exact hc
    | ok c' => exact sound_remove hc h

theorem sound_cursor (hb : b.Sound) (moves : List CursorMove) :
    (EditCursor.run b.cursor moves).2.done.Sound :=
  (EditCursor.run_invariant Cursor.Sound Cursor.sound_move moves (c := b.cursor)
    ⟨hb, fun i hi => absurd hi (by simp [cursor])⟩).1

theorem Reachable.sound (h : b.Reachable) : b.Sound := by
  induction h with
  | empty => exact sound_empty
  | withCapacity hok => exact (sound_withCapacity hok).1
  | add v _ ih => exact sound_add ih v
  | addOccurrences v n _ ih => exact sound_addOccurrences ih v n
  | remove v _ ih => exact sound_removeOccurrences ih v 1
  | removeOccurrences v n _ ih => exact sound_removeOccurrences ih v n
  | setOccurrences v n _ ih => exact sound_setOccurrences ih v n
  | retain keep start n _ ih => exact sound_retainPart ih keep start n
  | clear _ ih => exact ih.clear
  | reserve hok _ ih => exact (sound_reserve ih hok).1
  | extend vs _ ih => exact sound_extend ih vs
  | cursor moves _ ih => exact sound_cursor ih moves

theorem reachable_ofList (vs : List (Scalar k)) : (ofList vs).val.2.Reachable := .extend vs .empty

end ScalarBag

/-! ### Tables of reachable containers -/

/-- A table in use: that of a reachable set or of a reachable bag. -/
inductive Table.InUse : {P : Type} → Table k P → Prop where
  /-- The table of a set. -/
  | set {s : ScalarSet k} : s.Reachable → InUse s.table
  /-- The table of a bag. -/
  | bag {b : ScalarBag k} : b.Reachable → InUse b.table

theorem Table.InUse.sound {t : Table k P} (h : t.InUse) : t.Sound := by
  cases h with
  | set hs => exact hs.sound
  | bag hb => exact hb.sound.table

/-- **The table of every reachable container keeps the invariant.**  So a table that has slots has
an empty one, and a search in it never passes all slots without an answer.  `entry` finds the value
and leaves the table alone, or answers with a slot that is free, in a table that is sound again and
holds the same; it is never answered with a slot that is taken. -/
theorem Table.InUse.keeps_invariant {t : Table k P} (h : t.InUse) :
    t.Sound ∧ (t.capacity ≠ 0 → ∃ i : ℕ, t.slots[i]? = some .empty) ∧
      (t.capacity ≠ 0 → ∀ v, t.locate v ≠ .exhausted) ∧
      ∀ v, (∃ i w p, t.entry v = pure (t, .found i) ∧ t.slots[i]? = some (.live w p) ∧
          w.key = v.key) ∨
        ∃ t' i, (t.entry v).val = (t', .vacant i) ∧
          (t'.slots[i]? = some .tombstone ∨ t'.slots[i]? = some .empty) ∧
          t'.Sound ∧ t'.contents = t.contents := by
  have ht := h.sound
  refine ⟨ht, ht.exists_empty, fun hcap v hexhausted => ?_, fun v => ?_⟩
  · rcases ht.locate_cases hcap v with ⟨i, w, q, hfound, -, -⟩ | ⟨i, hvacant, -⟩
    · exact absurd (hexhausted.symm.trans hfound) (by simp)
    · exact absurd (hexhausted.symm.trans hvacant) (by simp)
  · rcases ht.entry_cases v with hfound | ⟨t', i, hval, hsound, hcontents, hready⟩
    · exact Or.inl hfound
    · exact Or.inr ⟨t', i, hval, hready.free, hsound, hcontents⟩

/-- For example the table of a set whose only element was removed again, leaving a tombstone. -/
theorem Table.InUse.keeps_invariant_after_removal :
    let five : Scalar .u8 := ⟨5, by decide⟩
    let t := ((ScalarSet.empty.add five).val.2.remove five).2.table
    t.InUse ∧ t.capacity = 8 ∧ t.tombstones = 1 ∧ t.Sound ∧
      (∃ i : ℕ, t.slots[i]? = some .empty) ∧ t.locate five ≠ .exhausted := by
  intro five t
  have huse : t.InUse := .set (.remove five (.add five .empty))
  obtain ⟨hcap, htomb⟩ : t.capacity = 8 ∧ t.tombstones = 1 := by
    simp only [t, five]
    decide +kernel
  obtain ⟨hsound, hempty, hlocate, -⟩ := Table.InUse.keeps_invariant huse
  have hne : t.capacity ≠ 0 := by omega
  exact ⟨huse, hcap, htomb, hsound, hempty hne, hlocate hne five⟩

/-! ### Bags of truth values -/

namespace BoolBag

/-- The bags of truth values that some sequence of operations leads to. -/
inductive Reachable : BoolBag → Prop where
  /-- A new bag. -/
  | empty : Reachable .empty
  /-- An occurrence was added, or was one too many. -/
  | add {b : BoolBag} (v : Bool) : Reachable b → Reachable (b.add v).2
  /-- Some occurrences were added, or were too many. -/
  | addOccurrences {b : BoolBag} (v : Bool) (n : ℕ) :
      Reachable b → Reachable (b.addOccurrences v n).2
  /-- An occurrence was removed. -/
  | remove {b : BoolBag} (v : Bool) : Reachable b → Reachable (b.remove v).2
  /-- Some occurrences were removed. -/
  | removeOccurrences {b : BoolBag} (v : Bool) (n : ℕ) :
      Reachable b → Reachable (b.removeOccurrences v n).2
  /-- A count was set, or was too large. -/
  | setOccurrences {b : BoolBag} (v : Bool) (n : ℕ) :
      Reachable b → Reachable (b.setOccurrences v n).2
  /-- Every occurrence was removed. -/
  | clear {b : BoolBag} : Reachable b → Reachable (Collection.clear b)
  /-- A list of truth values was added, up to the first that was one too many. -/
  | extend {b : BoolBag} (vs : List Bool) : Reachable b → Reachable (b.extend vs).2

variable {b : BoolBag}

theorem size_eq (b : BoolBag) (v : Bool) : b.size = b.occurrencesOf v + b.occurrencesOf !v := by
  cases v
  · rfl
  · exact Nat.add_comm _ _

theorem size_withCount (b : BoolBag) (v : Bool) (n : ℕ) :
    (b.withCount v n).size = n + b.occurrencesOf !v := by
  cases v
  · rfl
  · exact Nat.add_comm _ _

theorem size_addOccurrences_le (hb : b.size ≤ maxWord) (v : Bool) (n : ℕ) :
    (b.addOccurrences v n).2.size ≤ maxWord := by
  rw [addOccurrences, addCount?]
  by_cases hle : b.size + n ≤ maxWord
  · have hsize := b.size_eq v
    simp only [if_pos hle, size_withCount]
    omega
  · simpa only [if_neg hle] using hb

theorem size_removeOccurrences_le (hb : b.size ≤ maxWord) (v : Bool) (n : ℕ) :
    (b.removeOccurrences v n).2.size ≤ maxWord := by
  rw [removeOccurrences]
  split
  · exact hb
  · have hsize := b.size_eq v
    simp only [size_withCount]
    omega

theorem size_setOccurrences_le (hb : b.size ≤ maxWord) (v : Bool) (n : ℕ) :
    (b.setOccurrences v n).2.size ≤ maxWord := by
  rw [setOccurrences, addCount?]
  by_cases hle : (b.occurrencesOf !v) + n ≤ maxWord
  · simp only [if_pos hle, size_withCount]
    omega
  · simpa only [if_neg hle] using hb

theorem size_extend_le (hb : b.size ≤ maxWord) (vs : List Bool) :
    (b.extend vs).2.size ≤ maxWord := by
  induction vs generalizing b with
  | nil => exact hb
  | cons v vs ih =>
    have hnext : (b.add v).2.size ≤ maxWord := size_addOccurrences_le hb v 1
    rw [extend]
    rcases hadd : b.add v with ⟨r, b'⟩
    rw [hadd] at hnext
    cases r with
    | ok fresh => exact ih hnext
    | error a => exact hnext

/-- The number of occurrences in a reachable bag is a machine word. -/
theorem Reachable.size_le (h : b.Reachable) : b.size ≤ maxWord := by
  induction h with
  | empty => exact Nat.zero_le _
  | add v _ ih => exact size_addOccurrences_le ih v 1
  | addOccurrences v n _ ih => exact size_addOccurrences_le ih v n
  | remove v _ ih => exact size_removeOccurrences_le ih v 1
  | removeOccurrences v n _ ih => exact size_removeOccurrences_le ih v n
  | setOccurrences v n _ ih => exact size_setOccurrences_le ih v n
  | clear _ _ => exact Nat.zero_le _
  | extend vs _ ih => exact size_extend_le ih vs

end BoolBag

end Slotted
