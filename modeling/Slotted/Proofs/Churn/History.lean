import Slotted.Proofs.Churn.Stages
import Slotted.Proofs.Cursor.Editing
import Slotted.Proofs.Reachable

/-!
# What a run of edits does to a table

A program changes a set or a bag by a list of edits, each of them an operation with its arguments.
The history of such a run is the list of the stages that the table of the container passes through:
one for each edit, but for a list of values, which are added one by one, one for each value.

## Main definitions

* `SetEdit`, `BagEdit` — the operations that change a set, and a bag.
* `ScalarSet.edited`, `ScalarBag.edited` — what an edit leaves.
* `ScalarSet.history`, `ScalarBag.history` — the stages of a run of edits.
* `Table.Undergoes` — the table of a reachable container in some run of edits.

## Main results

* `ScalarSet.Reachable.edited`, `ScalarBag.Reachable.edited` — an edit leads from a reachable
  container to another.
* `ScalarSet.Reachable.passesAll`, `ScalarBag.Reachable.passesAll` — an edit is one of the changes
  that a table may undergo, or some of them.
* `Table.Undergoes.passesAll` — and so is a run.
* `ScalarSet.flatMap_rebuilds_extendStages`, `ScalarBag.flatMap_rebuilds_extendStages` — the stages
  of a list of additions tell all the rebuilds that the operation reports.
-/

namespace Slotted

variable {k : Kind} {P : Type}

/-! ### Edits -/

/-- An operation that changes a set. -/
inductive SetEdit (k : Kind) : Type 1 where
  /-- A value is added. -/
  | add (v : Scalar k)
  /-- A value is removed. -/
  | remove (v : Scalar k)
  /-- The first `n` slots are filtered, be they all or some of them. -/
  | retain {σ : Type} (keep : Scalar k → StateM σ Bool) (start : σ) (n : ℕ)
  /-- Every element is removed. -/
  | clear
  /-- Room is asked for. -/
  | reserve (n : ℕ)
  /-- A list of values is added. -/
  | extend (vs : List (Scalar k))
  /-- A cursor makes some moves. -/
  | cursor (moves : List CursorMove)

/-- An operation that changes a bag. -/
inductive BagEdit (k : Kind) : Type 1 where
  /-- An occurrence is added. -/
  | add (v : Scalar k)
  /-- Some occurrences are added. -/
  | addOccurrences (v : Scalar k) (n : ℕ)
  /-- An occurrence is removed. -/
  | remove (v : Scalar k)
  /-- Some occurrences are removed. -/
  | removeOccurrences (v : Scalar k) (n : ℕ)
  /-- A count is set. -/
  | setOccurrences (v : Scalar k) (n : ℕ)
  /-- The first `n` slots are filtered, be they all or some of them. -/
  | retain {σ : Type} (keep : Scalar k → ℕ → StateM σ Bool) (start : σ) (n : ℕ)
  /-- Every occurrence is removed. -/
  | clear
  /-- Room is asked for. -/
  | reserve (n : ℕ)
  /-- A list of values is added. -/
  | extend (vs : List (Scalar k))
  /-- A cursor makes some moves. -/
  | cursor (moves : List CursorMove)

/-- The stages of a list of edits, by the stages and the outcome of each. -/
def historyOf {C : Type} {E : Type 1} (stages : C → E → List (Stage k P)) (edited : C → E → C) :
    C → List E → List (Stage k P)
  | _, [] => []
  | c, e :: es => stages c e ++ historyOf stages edited (edited c e) es

/-- If each edit is made of changes, so is a list of them. -/
theorem exists_passesAll_historyOf {C : Type} {E : Type 1} {table : C → Table k P}
    {stages : C → E → List (Stage k P)} {edited : C → E → C} {good : C → Prop}
    (hpass : ∀ c e, good c → (table c).PassesAll (stages c e) (table (edited c e)))
    (hedited : ∀ c e, good c → good (edited c e)) (es : List E) {c : C} (hc : good c) :
    ∃ t', (table c).PassesAll (historyOf stages edited c es) t' := by
  induction es generalizing c with
  | nil => exact ⟨_, .nil _⟩
  | cons e es ih =>
    obtain ⟨t', h⟩ := ih (hedited c e hc)
    exact ⟨t', (hpass c e hc).append h⟩

/-! ### Sets -/

namespace ScalarSet

variable {s : ScalarSet k}

/-- What an edit leaves.  If room is refused, that is the set as it was. -/
def edited (s : ScalarSet k) : SetEdit k → ScalarSet k
  | .add v => (s.add v).val.2
  | .remove v => (s.remove v).2
  | .retain keep start n => s.retainPart keep start n
  | .clear => s.clear
  | .reserve n =>
    match s.reserve n with
    | .ok r => r.val
    | .error _ => s
  | .extend vs => (s.extend vs).val
  | .cursor moves => (EditCursor.run s.cursor moves).2.done

/-- The stage after a value was added. -/
def addStage (s : ScalarSet k) (v : Scalar k) : Stage k Unit :=
  .adding s.table v ((fun r => r.2.table) <$> s.add v)

/-- The stages after each of a list of values was added. -/
def extendStages : ScalarSet k → List (Scalar k) → List (Stage k Unit)
  | _, [] => []
  | s, v :: vs => s.addStage v :: extendStages (s.add v).val.2 vs

/-- The stages of an edit. -/
def stages (s : ScalarSet k) : SetEdit k → List (Stage k Unit)
  | .add v => [s.addStage v]
  | .reserve n => [.reserving s.table ((table <$> ·) <$> s.reserve n)]
  | .extend vs => s.extendStages vs
  | e => [.easing (s.edited e).table]

/-- The stages of a list of edits. -/
def history (s : ScalarSet k) (es : List (SetEdit k)) : List (Stage k Unit) :=
  historyOf stages edited s es

/-- An edit leads from a reachable set to another. -/
theorem Reachable.edited (h : s.Reachable) (e : SetEdit k) : (s.edited e).Reachable := by
  cases e with
  | add v => exact h.add v
  | remove v => exact h.remove v
  | retain keep start n => exact h.retain keep start n
  | clear => exact h.clear
  | reserve n =>
    rw [ScalarSet.edited]
    split
    · next hok => exact h.reserve hok
    · exact h
  | extend vs => exact h.extend vs
  | cursor moves => exact h.cursor moves

theorem passes_addStage (hs : s.table.Sound) (v : Scalar k) : s.table.Passes (s.addStage v) := by
  by_cases hmem : v.key ∈ s.table.keys
  · rw [addStage, add_of_mem hs hmem, map_pure, Stage.adding_self]
    exact .easing (.refl hs)
  · obtain ⟨r, i, hentry, hpass⟩ := Table.exists_passes_adding hs hmem
    have hadd : (fun r => r.2.table) <$> s.add v = (fun t' => t'.occupy i v ()) <$> r := by
      rw [add, hentry, map_bind, bind_map_left]
      exact (map_eq_pure_bind _ r).symm
    rw [addStage, hadd]
    exact hpass ()

theorem passesAll_extendStages (hs : s.table.Sound) (vs : List (Scalar k)) :
    s.table.PassesAll (s.extendStages vs) (s.extend vs).val.table := by
  induction vs generalizing s with
  | nil => exact .nil _
  | cons v vs ih => exact .cons (passes_addStage hs v) (ih (sound_add hs v))

/-- An addition of a list asks for no room. -/
theorem asked_extendStages (s : ScalarSet k) (vs : List (Scalar k)) :
    ∀ x ∈ s.extendStages vs, x.asked = false := by
  induction vs generalizing s with
  | nil => exact fun x hx => absurd hx List.not_mem_nil
  | cons v vs ih => exact List.forall_mem_cons.2 ⟨rfl, ih _⟩

theorem length_extendStages (s : ScalarSet k) (vs : List (Scalar k)) :
    (s.extendStages vs).length = vs.length := by
  induction vs generalizing s with
  | nil => rfl
  | cons v vs ih => rw [extendStages, List.length_cons, List.length_cons, ih]

theorem rebuilds_addStage (s : ScalarSet k) (v : Scalar k) :
    (s.addStage v).rebuilds = (s.add v).rebuilds := by
  rw [addStage, Stage.adding, Traced.rebuilds_map]

/-- The stages of an addition of a list tell all the rebuilds that it makes. -/
theorem flatMap_rebuilds_extendStages (s : ScalarSet k) (vs : List (Scalar k)) :
    (s.extendStages vs).flatMap Stage.rebuilds = (s.extend vs).rebuilds := by
  induction vs generalizing s with
  | nil => rfl
  | cons v vs ih =>
    have hextend : s.extend (v :: vs) = (·.2) <$> s.add v >>= fun s' => s'.extend vs := rfl
    rw [extendStages, List.flatMap_cons, ih, rebuilds_addStage, hextend, Traced.rebuilds_bind,
      Traced.rebuilds_map, Traced.val_map]

theorem eases_remove (hs : s.table.Sound) (v : Scalar k) :
    s.table.Eases (s.remove v).2.table := by
  rw [remove]
  split
  · next i hfind =>
    obtain ⟨w, q, hslot, -⟩ := Table.exists_live_of_find hfind
    exact .vacate hs hslot
  · exact .refl hs

theorem Cursor.eases_move {c : Cursor k} (hc : c.Sound) (m : CursorMove) :
    c.table.Eases (EditCursor.move c m).2.table := by
  obtain ⟨hs, hlive⟩ := hc
  cases m with
  | next => exact .refl hs
  | remove =>
    obtain ⟨t, next, current⟩ := c
    cases current with
    | none => exact .refl hs
    | some i =>
      obtain ⟨v, p, hslot⟩ := hlive i rfl
      exact .vacate hs hslot

theorem eases_cursor (hs : s.table.Sound) (moves : List CursorMove) :
    s.table.Eases (EditCursor.run s.cursor moves).2.done.table := by
  refine (EditCursor.run_invariant (fun c : Cursor k => c.Sound ∧ s.table.Eases c.table)
    (fun c m hc => ⟨c.sound_move m hc.1, hc.2.trans (Cursor.eases_move hc.1 m)⟩) moves
    (c := s.cursor) ⟨⟨hs, fun i hi => ?_⟩, .refl hs⟩).2
  exact absurd hi (by simp [cursor])

/-- Room for a set is room in its table. -/
theorem map_table_reserve (s : ScalarSet k) (n : ℕ) :
    (table <$> ·) <$> s.reserve n = s.table.reserve n := by
  rw [reserve]
  cases s.table.reserve n with
  | error e => rfl
  | ok r => exact congrArg Except.ok (Traced.ext rfl (by simp only [Traced.rebuilds_map]))

theorem table_reserve {n : ℕ} {r : Traced (ScalarSet k)} (h : s.reserve n = .ok r) :
    s.table.reserve n = .ok (table <$> r) := by
  rw [← map_table_reserve, h]
  rfl

theorem table_edited_reserve (s : ScalarSet k) (n : ℕ) :
    (s.edited (.reserve n)).table
      = (Stage.reserving s.table ((table <$> ·) <$> s.reserve n)).table := by
  rw [edited]
  cases s.reserve n <;> rfl

/-- An edit is one of the changes that a table may undergo, or some of them. -/
theorem Reachable.passesAll (h : s.Reachable) (e : SetEdit k) :
    s.table.PassesAll (s.stages e) (s.edited e).table := by
  have hs := h.sound
  have heased : ∀ {t' : Table k Unit}, s.table.Eases t' →
      s.table.PassesAll [.easing t'] t' := fun h => .single (.easing h)
  cases e with
  | add v => exact .single (passes_addStage hs v)
  | remove v => exact heased (eases_remove hs v)
  | retain keep start n => exact heased (.filterFromM hs _ _ n () start)
  | clear => exact heased (.clear hs)
  | reserve n =>
    rw [stages, table_edited_reserve, map_table_reserve]
    exact .single (Table.passes_reserving hs n)
  | extend vs => exact passesAll_extendStages hs vs
  | cursor moves => exact heased (eases_cursor hs moves)

end ScalarSet

/-! ### Bags -/

namespace ScalarBag

variable {b : ScalarBag k}

/-- What an edit leaves.  If room is refused, that is the bag as it was. -/
def edited (b : ScalarBag k) : BagEdit k → ScalarBag k
  | .add v => (b.add v).val.2
  | .addOccurrences v n => (b.addOccurrences v n).val.2
  | .remove v => (b.remove v).2
  | .removeOccurrences v n => (b.removeOccurrences v n).2
  | .setOccurrences v n => (b.setOccurrences v n).val.2
  | .retain keep start n => b.retainPart keep start n
  | .clear => b.clear
  | .reserve n =>
    match b.reserve n with
    | .ok r => r.val
    | .error _ => b
  | .extend vs => (b.extend vs).val.2
  | .cursor moves => (EditCursor.run b.cursor moves).2.done

/-- The stage after a value was added, or was one too many. -/
def addStage (b : ScalarBag k) (v : Scalar k) : Stage k ℕ :=
  .adding b.table v ((fun r => r.2.table) <$> b.add v)

/-- The stages after each of a list of values was added, up to the first that was one too many. -/
def extendStages : ScalarBag k → List (Scalar k) → List (Stage k ℕ)
  | _, [] => []
  | b, v :: vs => b.addStage v ::
    match (b.add v).val with
    | (.ok _, b') => extendStages b' vs
    | (.error _, _) => []

/-- The stages of an edit. -/
def stages (b : ScalarBag k) : BagEdit k → List (Stage k ℕ)
  | .add v => [b.addStage v]
  | .addOccurrences v n => [.adding b.table v ((fun r => r.2.table) <$> b.addOccurrences v n)]
  | .setOccurrences v n => [.adding b.table v ((fun r => r.2.table) <$> b.setOccurrences v n)]
  | .reserve n => [.reserving b.table ((table <$> ·) <$> b.reserve n)]
  | .extend vs => b.extendStages vs
  | e => [.easing (b.edited e).table]

/-- The stages of a list of edits. -/
def history (b : ScalarBag k) (es : List (BagEdit k)) : List (Stage k ℕ) :=
  historyOf stages edited b es

/-- An edit leads from a reachable bag to another. -/
theorem Reachable.edited (h : b.Reachable) (e : BagEdit k) : (b.edited e).Reachable := by
  cases e with
  | add v => exact h.add v
  | addOccurrences v n => exact h.addOccurrences v n
  | remove v => exact h.remove v
  | removeOccurrences v n => exact h.removeOccurrences v n
  | setOccurrences v n => exact h.setOccurrences v n
  | retain keep start n => exact h.retain keep start n
  | clear => exact h.clear
  | reserve n =>
    rw [ScalarBag.edited]
    split
    · next hok => exact h.reserve hok
    · exact h
  | extend vs => exact h.extend vs
  | cursor moves => exact h.cursor moves

theorem passes_adding_self (hb : b.Sound) (v : Scalar k) :
    b.table.Passes (.adding b.table v (pure b.table)) := by
  rw [Stage.adding_self]
  exact .easing (.refl hb.table)

theorem passes_addOccurrences (hb : b.Sound) (v : Scalar k) (n : ℕ) :
    b.table.Passes (.adding b.table v ((fun r => r.2.table) <$> b.addOccurrences v n)) := by
  by_cases hn : n = 0
  · subst hn
    exact passes_adding_self hb v
  by_cases hle : b.total + n ≤ maxWord
  · rw [addOccurrences, if_neg hn, addCount?_eq_some hle]
    simp only [map_bind]
    by_cases hmem : v.key ∈ b.table.keys
    · rcases hb.table.entry_cases v with ⟨i, w, q, hentry, hslot, hkey⟩ | ⟨t', i, -, -, hc, hready⟩
      · -- the count of a value that occurs
        have hfound := hb.table.find_eq_some_iff.2 ⟨w, q, hslot, hkey⟩
        rw [hentry, pure_bind, map_pure, Stage.adding_of_found (by rw [hfound, Option.isSome_some])]
        exact .easing (.setPayload hb.table i _)
      · exact absurd (Table.keys_congr hc ▸ hmem) hready.absent
    · obtain ⟨r, i, hentry, hpass⟩ := Table.exists_passes_adding hb.table hmem
      rw [hentry, bind_map_left]
      simp only [map_pure]
      rw [← map_eq_pure_bind]
      exact hpass n
  · rw [addOccurrences_of_overflow hb v (Nat.lt_of_not_le hle)]
    exact passes_adding_self hb v

/-- Another answer, and the same table. -/
theorem map_table_bind_pure {α β : Type} (x : Traced (α × ScalarBag k))
    (f : α × ScalarBag k → β) :
    (fun r => r.2.table) <$> (x >>= fun r => pure (f r, r.2)) = (fun r => r.2.table) <$> x := by
  rw [map_bind, map_eq_pure_bind]
  simp only [map_pure]

theorem passes_addStage (hb : b.Sound) (v : Scalar k) : b.table.Passes (b.addStage v) := by
  have hadd := map_table_bind_pure (b.addOccurrences v 1) fun r => r.1.map (· == 1)
  have hpass := passes_addOccurrences hb v 1
  rw [← hadd] at hpass
  exact hpass

theorem passesAll_extendStages (hb : b.Sound) (vs : List (Scalar k)) :
    b.table.PassesAll (b.extendStages vs) (b.extend vs).val.2.table := by
  induction vs generalizing b with
  | nil => exact .nil _
  | cons v vs ih =>
    have hnext := sound_add hb v
    rw [extendStages, extend, Traced.val_bind]
    refine .cons (passes_addStage hb v) ?_
    show Table.PassesAll (b.add v).val.2.table _ _
    rcases hadd : (b.add v).val with ⟨r, b'⟩
    rw [hadd] at hnext
    cases r with
    | ok fresh => exact ih hnext
    | error a => exact .nil _

/-- An addition of a list asks for no room. -/
theorem asked_extendStages (b : ScalarBag k) (vs : List (Scalar k)) :
    ∀ x ∈ b.extendStages vs, x.asked = false := by
  induction vs generalizing b with
  | nil => exact fun x hx => absurd hx List.not_mem_nil
  | cons v vs ih =>
    rw [extendStages]
    refine List.forall_mem_cons.2 ⟨rfl, ?_⟩
    split
    · exact ih _
    · exact fun x hx => absurd hx List.not_mem_nil

theorem length_extendStages_le (b : ScalarBag k) (vs : List (Scalar k)) :
    (b.extendStages vs).length ≤ vs.length := by
  induction vs generalizing b with
  | nil => exact le_rfl
  | cons v vs ih =>
    rw [extendStages, List.length_cons, List.length_cons]
    refine Nat.succ_le_succ ?_
    split
    · exact ih _
    · exact Nat.zero_le _

theorem rebuilds_addStage (b : ScalarBag k) (v : Scalar k) :
    (b.addStage v).rebuilds = (b.add v).rebuilds := by
  rw [addStage, Stage.adding, Traced.rebuilds_map]

/-- The stages of an addition of a list tell all the rebuilds that it makes. -/
theorem flatMap_rebuilds_extendStages (b : ScalarBag k) (vs : List (Scalar k)) :
    (b.extendStages vs).flatMap Stage.rebuilds = (b.extend vs).rebuilds := by
  induction vs generalizing b with
  | nil => rfl
  | cons v vs ih =>
    rw [extendStages, List.flatMap_cons, rebuilds_addStage, extend, Traced.rebuilds_bind]
    rcases (b.add v).val with ⟨r, b'⟩
    cases r with
    | ok fresh => rw [ih]
    | error a => rfl

theorem eases_removeOccurrences (hb : b.Sound) (v : Scalar k) (n : ℕ) :
    b.table.Eases (b.removeOccurrences v n).2.table := by
  rw [removeOccurrences]
  split
  · exact .refl hb.table
  · split
    · exact .refl hb.table
    · next i hfind =>
      obtain ⟨w, m, hslot, -⟩ := Table.exists_live_of_find hfind
      simp only
      split
      · exact .vacate hb.table hslot
      · exact .setPayload hb.table i _

theorem passes_setOccurrences (hb : b.Sound) (v : Scalar k) (n : ℕ) :
    b.table.Passes (.adding b.table v ((fun r => r.2.table) <$> b.setOccurrences v n)) := by
  rw [setOccurrences]
  simp only
  split
  · have hset := map_table_bind_pure (b.addOccurrences v (n - b.occurrencesOf v)) fun r =>
      r.1.map fun _ => b.occurrencesOf v
    rw [hset]
    exact passes_addOccurrences hb v _
  · split
    · next hlt =>
      -- a value whose count is lowered occurs
      have hfound : (b.table.find v).isSome = true := by
        rw [occurrencesOf] at hlt
        cases hfind : b.table.find v with
        | none => simp [hfind] at hlt
        | some i => rfl
      rw [map_pure, Stage.adding_of_found hfound]
      exact .easing (eases_removeOccurrences hb v _)
    · exact passes_adding_self hb v

theorem Cursor.eases_remove {c c' : Cursor k} (hc : c.Sound) (h : c.remove = .ok c') :
    c.bag.table.Eases c'.bag.table := by
  obtain ⟨hb, hlive⟩ := hc
  rw [remove] at h
  split at h
  · next i hi =>
    split at h
    · simp only at h
      split at h
      · obtain ⟨v, m, hslot⟩ := hlive i hi
        rw [← Except.ok.inj h]
        exact .vacate hb.table hslot
      · rw [← Except.ok.inj h]
        exact .setPayload hb.table i _
    · exact absurd h (by simp)
  · exact absurd h (by simp)

theorem Cursor.eases_move {c : Cursor k} (hc : c.Sound) (m : CursorMove) :
    c.bag.table.Eases (EditCursor.move c m).2.bag.table := by
  cases m with
  | next =>
    show c.bag.table.Eases c.step.2.bag.table
    rw [c.bag_step]
    exact .refl hc.1.table
  | remove =>
    rw [EditCursor.move]
    cases h : EditCursor.remove c with
    | error e => exact .refl hc.1.table
    | ok c' => exact eases_remove hc h

theorem eases_cursor (hb : b.Sound) (moves : List CursorMove) :
    b.table.Eases (EditCursor.run b.cursor moves).2.done.table := by
  refine (EditCursor.run_invariant (fun c : Cursor k => c.Sound ∧ b.table.Eases c.bag.table)
    (fun c m hc => ⟨c.sound_move m hc.1, hc.2.trans (Cursor.eases_move hc.1 m)⟩) moves
    (c := b.cursor) ⟨⟨hb, fun i hi => ?_⟩, .refl hb.table⟩).2
  exact absurd hi (by simp [cursor])

/-- Room for a bag is room in its table. -/
theorem map_table_reserve (b : ScalarBag k) (n : ℕ) :
    (table <$> ·) <$> b.reserve n = b.table.reserve n := by
  rw [reserve]
  cases b.table.reserve n with
  | error e => rfl
  | ok r => exact congrArg Except.ok (Traced.ext rfl (by simp only [Traced.rebuilds_map]))

theorem table_reserve {n : ℕ} {r : Traced (ScalarBag k)} (h : b.reserve n = .ok r) :
    b.table.reserve n = .ok (table <$> r) := by
  rw [← map_table_reserve, h]
  rfl

theorem table_edited_reserve (b : ScalarBag k) (n : ℕ) :
    (b.edited (.reserve n)).table
      = (Stage.reserving b.table ((table <$> ·) <$> b.reserve n)).table := by
  rw [edited]
  cases b.reserve n <;> rfl

/-- An edit is one of the changes that a table may undergo, or some of them. -/
theorem Reachable.passesAll (h : b.Reachable) (e : BagEdit k) :
    b.table.PassesAll (b.stages e) (b.edited e).table := by
  have hb := h.sound
  have heased : ∀ {t' : Table k ℕ}, b.table.Eases t' →
      b.table.PassesAll [.easing t'] t' := fun h => .single (.easing h)
  cases e with
  | add v => exact .single (passes_addStage hb v)
  | addOccurrences v n => exact .single (passes_addOccurrences hb v n)
  | remove v => exact heased (eases_removeOccurrences hb v 1)
  | removeOccurrences v n => exact heased (eases_removeOccurrences hb v n)
  | setOccurrences v n => exact .single (passes_setOccurrences hb v n)
  | retain keep start n => exact heased (.filterFromM hb.table _ keep n b.total start)
  | clear => exact heased (.clear hb.table)
  | reserve n =>
    rw [stages, table_edited_reserve, map_table_reserve]
    exact .single (Table.passes_reserving hb.table n)
  | extend vs => exact passesAll_extendStages hb vs
  | cursor moves => exact heased (eases_cursor hb moves)

end ScalarBag

/-! ### The tables of reachable containers -/

/-- The table of a reachable container, and the stages that it passes through in a run of edits. -/
inductive Table.Undergoes : {P : Type} → Table k P → List (Stage k P) → Prop where
  /-- The table of a set. -/
  | set {s : ScalarSet k} (h : s.Reachable) (es : List (SetEdit k)) :
      Undergoes s.table (s.history es)
  /-- The table of a bag. -/
  | bag {b : ScalarBag k} (h : b.Reachable) (es : List (BagEdit k)) :
      Undergoes b.table (b.history es)

variable {t : Table k P} {l : List (Stage k P)}

theorem Table.Undergoes.sound (h : t.Undergoes l) : t.Sound := by
  cases h with
  | set hs _ => exact hs.sound
  | bag hb _ => exact hb.sound.table

/-- A run is made of changes that a table may undergo. -/
theorem Table.Undergoes.passesAll (h : t.Undergoes l) : ∃ t', t.PassesAll l t' := by
  cases h with
  | set hs es =>
    exact exists_passesAll_historyOf (fun _ e hs => hs.passesAll e) (fun _ e hs => hs.edited e) es hs
  | bag hb es =>
    exact exists_passesAll_historyOf (fun _ e hb => hb.passesAll e) (fun _ e hb => hb.edited e) es hb

end Slotted
