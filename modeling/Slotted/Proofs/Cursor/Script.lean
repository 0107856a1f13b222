import Mathlib.Data.List.Induction
import Mathlib.Data.List.Perm.Basic
import Slotted.Proofs.Reachable

/-!
# Scripts of cursor moves, on lists

What a cursor does is told by the cursor over a list: it stands on an element or on none, with the
elements it passed and kept behind it and those still to come before it.  A move to the next
element depends only on how many such moves there were before, and a removal only on the answers so
far.  A cursor over a container that *shows* a list cursor at every move gives its answers.

## Main definitions

* `ListCursor` — a cursor over a list.
* `CursorAnswer.Standing` — answers after which there is an element to remove.
* `CursorAnswer.taken` — the elements that were removed, read off the answers.
* `EditCursor.Edits` — what a script of moves on a list has to answer.
* `EditCursor.Shown` — a cursor that moves as a list cursor does.

## Main results

* `EditCursor.getElem?_run`, `take_run` — the answers of a script, one by one.
* `CursorAnswer.standing_iff` — standing, by going through the answers.
* `ListCursor.perm_run` — what is left of a list and what was taken are the list.
* `EditCursor.Shown.edits`, `Shown.perm_run` — a cursor that shows a list cursor answers as it has
  to, and takes what it says.
-/

namespace Slotted

variable {K α : Type}

/-! ### Scripts in general -/

namespace EditCursor

variable [EditCursor K α]

theorem run_cons (c : K) (m : CursorMove) (ms : List CursorMove) :
    run c (m :: ms) = ((move c m).1 :: (run (move c m).2 ms).1, (run (move c m).2 ms).2) := rfl

theorem run_append (c : K) (ms ms' : List CursorMove) :
    run c (ms ++ ms') = ((run c ms).1 ++ (run (run c ms).2 ms').1, (run (run c ms).2 ms').2) := by
  induction ms generalizing c with
  | nil => rfl
  | cons m ms ih => rw [List.cons_append, run_cons, ih, run_cons, List.cons_append]

/-- The first answers are those of the first moves. -/
theorem take_run (c : K) (ms : List CursorMove) (i : ℕ) :
    (run c ms).1.take i = (run c (ms.take i)).1 := by
  induction ms generalizing c i with
  | nil => rw [List.take_nil, run, List.take_nil]
  | cons m ms ih =>
    cases i with
    | zero => rfl
    | succ i => rw [run_cons, List.take_succ_cons, List.take_succ_cons, ih, run_cons]

/-- Each answer is that of its move, made after the moves before it. -/
theorem getElem?_run (c : K) {ms : List CursorMove} {i : ℕ} {m : CursorMove}
    (h : ms[i]? = some m) : (run c ms).1[i]? = some (move (run c (ms.take i)).2 m).1 := by
  induction ms generalizing c i with
  | nil => exact absurd h (by simp)
  | cons m' ms ih =>
    cases i with
    | zero =>
      obtain rfl := Option.some.inj h
      rfl
    | succ i =>
      rw [run_cons, List.getElem?_cons_succ, ih _ h, List.take_succ_cons, run_cons]

/-- A move that is refused leaves the cursor as it was. -/
theorem move_of_refused {c : K} {m : CursorMove} {e : Error} (h : (move c m).1 = .refused e) :
    (move c m).2 = c := by
  cases m with
  | next => exact absurd h (by simp [move])
  | remove =>
    unfold move at h ⊢
    cases hr : remove c with
    | error e' => rfl
    | ok c' =>
      rw [hr] at h
      exact absurd h (by simp)

theorem run_take_succ (c : K) {ms : List CursorMove} {i : ℕ} {m : CursorMove}
    (h : ms[i]? = some m) :
    (run c (ms.take (i + 1))).2 = (move (run c (ms.take i)).2 m).2 := by
  rw [List.take_add_one, h, Option.toList_some, run_append]
  rfl

end EditCursor

/-! ### Reading answers -/

namespace CursorAnswer

/-- The element there is to remove after an answer, given the one before it. -/
def after (current : Option α) : CursorAnswer α → Option α
  | .item a => a
  | .removed => none
  | .refused _ => current

/-- The element was removed. -/
def isRemoved : CursorAnswer α → Bool
  | .removed => true
  | _ => false

/-- There is an element to remove: the last call for one came to it, and every removal since was
refused. -/
def Standing (as : List (CursorAnswer α)) : Prop :=
  ∃ earlier v since, as = earlier ++ .item (some v) :: since ∧ ∀ a ∈ since, ∃ e, a = .refused e

/-- The elements that were removed, beginning with `current` to remove. -/
def takenFrom : (current : Option α) → List (CursorAnswer α) → List α
  | _, [] => []
  | current, .removed :: as => current.toList ++ takenFrom none as
  | current, a :: as => takenFrom (a.after current) as

/-- The elements that were removed. -/
def taken (as : List (CursorAnswer α)) : List α := takenFrom none as

/-- The last answer decides, or it is a refusal and those before it do. -/
theorem standing_concat_iff (as : List (CursorAnswer α)) (a : CursorAnswer α) :
    Standing (as ++ [a]) ↔
      (∃ v, a = .item (some v)) ∨ (∃ e, a = .refused e) ∧ Standing as := by
  constructor
  · rintro ⟨earlier, v, since, heq, hsince⟩
    rcases List.eq_nil_or_concat since with rfl | ⟨since, b, rfl⟩
    · exact Or.inl ⟨v, (List.cons.inj (List.append_inj_right' heq rfl)).1⟩
    · rw [List.concat_eq_append, ← List.cons_append, ← List.append_assoc] at heq
      obtain rfl := List.append_inj_left' heq rfl
      obtain ⟨rfl, -⟩ := List.cons.inj (List.append_inj_right' heq rfl)
      exact Or.inr ⟨hsince a (by simp), earlier, v, since, rfl, fun a ha => hsince a (by simp [ha])⟩
  · rintro (⟨v, rfl⟩ | ⟨⟨e, rfl⟩, earlier, v, since, rfl, hsince⟩)
    · exact ⟨as, v, [], rfl, by simp⟩
    · refine ⟨earlier, v, since ++ [.refused e], by simp, fun a ha => ?_⟩
      rcases List.mem_append.1 ha with ha | ha
      · exact hsince a ha
      · exact ⟨e, List.mem_singleton.1 ha⟩

/-- Standing is what comes of going through the answers. -/
theorem standing_iff (as : List (CursorAnswer α)) :
    Standing as ↔ (as.foldl after none).isSome = true := by
  induction as using List.reverseRecOn with
  | nil => simp [Standing]
  | append_singleton as a ih =>
    rw [standing_concat_iff, List.foldl_concat, ih]
    cases a with
    | item x => cases x <;> simp [after]
    | removed => simp [after]
    | refused e => simp [after]

end CursorAnswer

/-! ### Cursors over lists -/

/-- A cursor over a list. -/
structure ListCursor (α : Type) where
  /-- The elements passed and kept. -/
  passed : List α
  /-- The element that the cursor stands on, unless it was removed. -/
  current : Option α
  /-- The elements still to come. -/
  rest : List α
  /-- What is reported when there is nothing to remove. -/
  fault : StateFault

namespace ListCursor

/-- A cursor before the first element of a list. -/
def before (l : List α) (fault : StateFault) : ListCursor α := ⟨[], none, l, fault⟩

/-- The list, as far as it was not removed. -/
def left (c : ListCursor α) : List α := c.passed ++ c.current.toList ++ c.rest

/-- Moves to the next element. -/
def step (c : ListCursor α) : Option α × ListCursor α :=
  (c.rest.head?, ⟨c.passed ++ c.current.toList, c.rest.head?, c.rest.tail, c.fault⟩)

/-- Removes the element that the cursor stands on. -/
def remove (c : ListCursor α) : Except Error (ListCursor α) :=
  match c.current with
  | some _ => .ok { c with current := none }
  | none => .error (.illegalState c.fault)

instance : EditCursor (ListCursor α) α := ⟨step, remove⟩

variable {c : ListCursor α}

theorem left_step (c : ListCursor α) : c.step.2.left = c.left := by
  obtain ⟨passed, current, rest, fault⟩ := c
  cases rest <;> simp [step, left]

theorem move_next (c : ListCursor α) : EditCursor.move c .next = (.item c.rest.head?, c.step.2) :=
  rfl

theorem move_remove_of_some {v : α} (h : c.current = some v) :
    EditCursor.move c .remove = (.removed, { c with current := none }) := by
  have hremove : EditCursor.remove c = .ok { c with current := none } := by
    show c.remove = _
    unfold remove
    rw [h]
  unfold EditCursor.move
  rw [hremove]

theorem move_remove_of_none (h : c.current = none) :
    EditCursor.move c .remove = (.refused (.illegalState c.fault), c) := by
  have hremove : EditCursor.remove c = .error (.illegalState c.fault) := by
    show c.remove = _
    unfold remove
    rw [h]
  unfold EditCursor.move
  rw [hremove]

theorem current_move (c : ListCursor α) (m : CursorMove) :
    (EditCursor.move c m).2.current = (EditCursor.move c m).1.after c.current := by
  cases m with
  | next => rfl
  | remove =>
    cases hc : c.current with
    | none =>
      rw [move_remove_of_none hc]
      exact hc
    | some v =>
      rw [move_remove_of_some hc]
      rfl

theorem fault_move (c : ListCursor α) (m : CursorMove) :
    (EditCursor.move c m).2.fault = c.fault := by
  cases m with
  | next => rfl
  | remove =>
    cases hc : c.current with
    | none => rw [move_remove_of_none hc]
    | some v => rw [move_remove_of_some hc]

theorem rest_move (c : ListCursor α) (m : CursorMove) :
    (EditCursor.move c m).2.rest = c.rest.drop ([m].count .next) := by
  cases m with
  | next => exact List.drop_one.symm
  | remove =>
    cases hc : c.current with
    | none =>
      rw [move_remove_of_none hc]
      rfl
    | some v =>
      rw [move_remove_of_some hc]
      rfl

/-! ### Scripts on lists -/

/-- Where the cursor stands is read off the answers. -/
theorem current_run (c : ListCursor α) (ms : List CursorMove) :
    (EditCursor.run c ms).2.current = (EditCursor.run c ms).1.foldl CursorAnswer.after c.current := by
  induction ms generalizing c with
  | nil => rfl
  | cons m ms ih => rw [EditCursor.run_cons, ih, List.foldl_cons, current_move]

theorem fault_run (c : ListCursor α) (ms : List CursorMove) :
    (EditCursor.run c ms).2.fault = c.fault :=
  EditCursor.run_invariant (fun c' : ListCursor α => c'.fault = c.fault)
    (fun c' m h => (c'.fault_move m).trans h) ms rfl

/-- The elements still to come depend only on the number of calls for one. -/
theorem rest_run (c : ListCursor α) (ms : List CursorMove) :
    (EditCursor.run c ms).2.rest = c.rest.drop (ms.count .next) := by
  induction ms generalizing c with
  | nil => rfl
  | cons m ms ih =>
    rw [EditCursor.run_cons, ih, rest_move, List.drop_drop, ← List.count_append,
      List.singleton_append]

/-- A move takes from the list what its answer says, and nothing else. -/
theorem perm_move (c : ListCursor α) (m : CursorMove) (as : List (CursorAnswer α)) :
    ∃ gone, c.left.Perm ((EditCursor.move c m).2.left ++ gone) ∧
      (EditCursor.move c m).2.left.Sublist c.left ∧
      gone.length = [(EditCursor.move c m).1].countP CursorAnswer.isRemoved ∧
      CursorAnswer.takenFrom c.current ((EditCursor.move c m).1 :: as)
        = gone ++ CursorAnswer.takenFrom (EditCursor.move c m).2.current as := by
  cases m with
  | next =>
    refine ⟨[], ?_, ?_, rfl, rfl⟩
    · rw [move_next, left_step, List.append_nil]
    · rw [move_next, left_step]
  | remove =>
    cases hc : c.current with
    | none =>
      rw [move_remove_of_none hc, hc]
      exact ⟨[], by rw [List.append_nil], List.Sublist.refl _, rfl, rfl⟩
    | some v =>
      rw [move_remove_of_some hc]
      have hleft : c.left = c.passed ++ v :: c.rest := by
        rw [left, hc, Option.toList_some, List.append_assoc, List.singleton_append]
      have hkept : ListCursor.left { c with current := none } = c.passed ++ c.rest := by
        rw [left, Option.toList_none, List.append_nil]
      refine ⟨[v], ?_, ?_, rfl, rfl⟩
      · rw [hleft, hkept]
        exact List.perm_middle.trans (List.perm_append_singleton v _).symm
      · rw [hleft, hkept]
        exact (List.sublist_cons_self v c.rest).append_left c.passed

/-- **What is left of a list and what the answers say was taken are the list.** -/
theorem perm_run (c : ListCursor α) (ms : List CursorMove) :
    c.left.Perm ((EditCursor.run c ms).2.left ++
        CursorAnswer.takenFrom c.current (EditCursor.run c ms).1) ∧
      (EditCursor.run c ms).2.left.Sublist c.left ∧
      (CursorAnswer.takenFrom c.current (EditCursor.run c ms).1).length
        = (EditCursor.run c ms).1.countP CursorAnswer.isRemoved := by
  induction ms generalizing c with
  | nil => exact ⟨by simp [EditCursor.run, CursorAnswer.takenFrom], List.Sublist.refl _, rfl⟩
  | cons m ms ih =>
    obtain ⟨hperm, hsub, hlength⟩ := ih (EditCursor.move c m).2
    obtain ⟨gone, hperm', hsub', hlength', htaken⟩ :=
      perm_move c m (EditCursor.run (EditCursor.move c m).2 ms).1
    rw [EditCursor.run_cons, htaken]
    refine ⟨?_, hsub.trans hsub', ?_⟩
    · refine hperm'.trans ((hperm.append_right gone).trans ?_)
      rw [List.append_assoc]
      exact List.perm_append_comm.append_left _
    · rw [List.length_append, hlength, hlength', ← List.countP_append, List.singleton_append]

end ListCursor

/-! ### Cursors that show a list cursor -/

namespace EditCursor

variable [EditCursor K α]

/-- A script of moves, made by a cursor over the elements of a list, is answered as it has to be.
A call for the next element comes to the one that as many calls before came to, or to none; removal
is done if there is an element to remove, and else refused, which leaves the cursor as it was. -/
structure Edits (c : K) (ms : List CursorMove) (l : List α) (fault : StateFault) : Prop where
  /-- A call for the next element. -/
  next : ∀ i : ℕ, ms[i]? = some .next →
    (run c ms).1[i]? = some (.item l[(ms.take i).count .next]?)
  /-- A removal of the element that the last call came to. -/
  removed : ∀ i : ℕ, ms[i]? = some .remove → CursorAnswer.Standing ((run c ms).1.take i) →
    (run c ms).1[i]? = some .removed
  /-- A removal of nothing. -/
  refused : ∀ i : ℕ, ms[i]? = some .remove → ¬ CursorAnswer.Standing ((run c ms).1.take i) →
    (run c ms).1[i]? = some (.refused (.illegalState fault)) ∧
      (run c (ms.take (i + 1))).2 = (run c (ms.take i)).2

/-- A cursor over a list answers as it has to. -/
theorem edits_before (l : List α) (fault : StateFault) (ms : List CursorMove) :
    Edits (ListCursor.before l fault) ms l fault := by
  have hstanding : ∀ i : ℕ, CursorAnswer.Standing ((run (ListCursor.before l fault) ms).1.take i) ↔
      (run (ListCursor.before l fault) (ms.take i)).2.current.isSome = true := by
    intro i
    rw [CursorAnswer.standing_iff, take_run, ListCursor.current_run]
    rfl
  refine ⟨fun i hi => ?_, fun i hi hs => ?_, fun i hi hs => ?_⟩
  · rw [getElem?_run _ hi, ListCursor.move_next, ListCursor.rest_run, List.head?_drop]
    rfl
  · obtain ⟨v, hv⟩ := Option.isSome_iff_exists.1 ((hstanding i).1 hs)
    rw [getElem?_run _ hi, ListCursor.move_remove_of_some hv]
  · rw [hstanding, Bool.not_eq_true, Option.isSome_eq_false_iff, Option.isNone_iff_eq_none] at hs
    rw [getElem?_run _ hi, run_take_succ _ hi, ListCursor.move_remove_of_none hs,
      ListCursor.fault_run]
    exact ⟨rfl, rfl⟩

/-- A cursor that shows a list cursor answers a move as that one does, and then shows what that one
has become. -/
def Shown (shows : K → ListCursor α → Prop) : Prop :=
  ∀ c lc, shows c lc → ∀ m, (move c m).1 = (move lc m).1 ∧ shows (move c m).2 (move lc m).2

variable {shows : K → ListCursor α → Prop}

theorem Shown.run (h : Shown shows) {c : K} {lc : ListCursor α} (hc : shows c lc)
    (ms : List CursorMove) :
    (EditCursor.run c ms).1 = (EditCursor.run lc ms).1 ∧
      shows (EditCursor.run c ms).2 (EditCursor.run lc ms).2 := by
  induction ms generalizing c lc with
  | nil => exact ⟨rfl, hc⟩
  | cons m ms ih =>
    obtain ⟨hanswer, hnext⟩ := h c lc hc m
    obtain ⟨hanswers, hshows⟩ := ih hnext
    rw [run_cons, run_cons, hanswer, hanswers]
    exact ⟨rfl, hshows⟩

/-- What it leaves of the list and what its answers say was taken are the list. -/
theorem Shown.perm_run {elements : K → List α} (h : Shown shows)
    (hleft : ∀ {c lc}, shows c lc → lc.left = elements c) {c : K} {l : List α} {fault : StateFault}
    (hc : shows c (.before l fault)) (ms : List CursorMove) :
    l.Perm (elements (EditCursor.run c ms).2 ++ CursorAnswer.taken (EditCursor.run c ms).1) ∧
      (elements (EditCursor.run c ms).2).Sublist l ∧
      (CursorAnswer.taken (EditCursor.run c ms).1).length
        = (EditCursor.run c ms).1.countP CursorAnswer.isRemoved := by
  obtain ⟨hanswers, hafter⟩ := h.run hc ms
  have hlist := (ListCursor.before l fault).perm_run ms
  rw [← hanswers, hleft hafter] at hlist
  exact hlist

/-- A cursor that shows a list cursor answers as it has to. -/
theorem Shown.edits (h : Shown shows) {c : K} {l : List α} {fault : StateFault}
    (hc : shows c (.before l fault)) (ms : List CursorMove) : Edits c ms l fault := by
  have hlist := edits_before l fault ms
  have hanswers := (h.run hc ms).1
  refine ⟨fun i hi => ?_, fun i hi hs => ?_, fun i hi hs => ?_⟩
  · rw [hanswers]
    exact hlist.next i hi
  · rw [hanswers] at hs ⊢
    exact hlist.removed i hi hs
  · rw [hanswers] at hs
    have hrefused : (EditCursor.run c ms).1[i]? = some (.refused (.illegalState fault)) := by
      rw [hanswers]
      exact (hlist.refused i hi hs).1
    refine ⟨hrefused, ?_⟩
    rw [getElem?_run _ hi] at hrefused
    rw [run_take_succ _ hi, move_of_refused (Option.some.inj hrefused)]

end EditCursor
end Slotted
