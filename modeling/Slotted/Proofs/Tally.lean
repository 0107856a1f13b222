import Mathlib.Algebra.Order.BigOperators.Group.List
import Mathlib.Algebra.Order.Ring.Nat
import Mathlib.Data.List.Nodup
import Slotted.Tally

/-!
# Tallies, whatever the order of their entries

The entries of a tally are *proper*: no element has two of them, and no count is zero.  Then the
counts determine the entries up to order, and to compare two tallies it is enough to look up the
entries of one in the other.

A tally that has been used keeps its entries in no particular order, so among the tallies that
operations lead to are all those with the same entries in another order.

## Main definitions

* `Tally.Proper` — entries without repetition and without zero counts.
* `Tally.Sound` — the entries are proper, and the total is the sum of their counts.
* `Tally.Reachable` — the tallies that operations lead to.

## Main results

* `Tally.Proper.perm_iff` — proper entries are determined by the counts, up to order.
* `Tally.Proper.perm_of_countIn` — one scan is enough to compare.
* `Tally.Reachable.sound` — the tallies that operations lead to are sound.
* `Tally.eqv_iff_occurrencesOf` — equal tallies count all elements alike.
-/

namespace Slotted
namespace Tally

variable {α : Type} {es es' : List (α × ℕ)}

/-- No element has two entries, and no count is zero. -/
structure Proper (es : List (α × ℕ)) : Prop where
  /-- No element has two entries. -/
  nodup : (es.map Prod.fst).Nodup
  /-- No count is zero. -/
  count_ne : ∀ e ∈ es, e.2 ≠ 0

theorem proper_nil : Proper ([] : List (α × ℕ)) :=
  ⟨List.nodup_nil, fun _ he => absurd he List.not_mem_nil⟩

theorem proper_cons_iff {a : α} {n : ℕ} :
    Proper ((a, n) :: es) ↔ n ≠ 0 ∧ a ∉ es.map Prod.fst ∧ Proper es := by
  constructor
  · intro h
    obtain ⟨hnodup, hcount⟩ := h
    rw [List.map_cons, List.nodup_cons] at hnodup
    exact ⟨hcount _ List.mem_cons_self, hnodup.1, hnodup.2,
      fun e he => hcount e (List.mem_cons_of_mem _ he)⟩
  · rintro ⟨hn, ha, h⟩
    refine ⟨List.nodup_cons.2 ⟨ha, h.nodup⟩, fun e he => ?_⟩
    rcases List.mem_cons.1 he with rfl | he
    · exact hn
    · exact h.count_ne e he

theorem Proper.perm (h : Proper es) (hperm : es'.Perm es) : Proper es' :=
  ⟨(hperm.map Prod.fst).nodup_iff.2 h.nodup, fun e he => h.count_ne e (hperm.mem_iff.1 he)⟩

theorem Proper.entries_nodup (h : Proper es) : es.Nodup := h.nodup.of_map Prod.fst

/-- The invariant of tallies. -/
structure Sound (t : Tally α) : Prop where
  /-- The entries are proper. -/
  proper : Proper t.entries
  /-- The total is the sum of the counts. -/
  total_eq : t.total = (t.entries.map Prod.snd).sum
  /-- The total is a machine word. -/
  total_le : t.total ≤ maxWord

theorem sound_empty : (empty : Tally α).Sound := ⟨proper_nil, rfl, Nat.zero_le _⟩

theorem Sound.reorder {t : Tally α} (h : t.Sound) (hperm : es.Perm t.entries) : Sound ⟨es, t.total⟩ := by
  refine ⟨h.proper.perm hperm, ?_, h.total_le⟩
  show t.total = (es.map Prod.snd).sum
  rw [h.total_eq, (hperm.map Prod.snd).sum_eq]

/-! ### Looking up a count -/

variable [DecidableEq α] {a : α} {n : ℕ}

theorem countIn_eq_zero (h : a ∉ es.map Prod.fst) : countIn a es = 0 := by
  induction es with
  | nil => rfl
  | cons e es ih =>
    rw [List.map_cons, List.mem_cons, not_or] at h
    rw [countIn, if_neg (Ne.symm h.1), ih h.2]

/-- The entries are the elements with a count, each with its count. -/
theorem Proper.mem_iff (h : Proper es) : (a, n) ∈ es ↔ n ≠ 0 ∧ countIn a es = n := by
  induction es with
  | nil => exact ⟨fun hmem => absurd hmem List.not_mem_nil, fun ⟨hn, hzero⟩ => absurd hzero.symm hn⟩
  | cons e es ih =>
    obtain ⟨b, m⟩ := e
    obtain ⟨hm, hb, hes⟩ := proper_cons_iff.1 h
    rw [List.mem_cons, countIn]
    by_cases hba : b = a
    · subst hba
      have hnone : (b, n) ∉ es := fun hmem => hb (List.mem_map_of_mem hmem)
      rw [if_pos rfl, Prod.mk.injEq]
      constructor
      · rintro (⟨-, rfl⟩ | hmem)
        · exact ⟨hm, rfl⟩
        · exact absurd hmem hnone
      · rintro ⟨-, rfl⟩
        exact Or.inl ⟨rfl, rfl⟩
    · rw [if_neg hba, Prod.mk.injEq, ← ih hes]
      exact or_iff_right fun heq => hba heq.1.symm

theorem Proper.countIn_ne_zero_iff (h : Proper es) : countIn a es ≠ 0 ↔ a ∈ es.map Prod.fst := by
  constructor
  · intro hne
    by_contra hmem
    exact hne (countIn_eq_zero hmem)
  · intro hmem
    obtain ⟨⟨b, n⟩, hb, rfl⟩ := List.mem_map.1 hmem
    obtain ⟨hn, hcount⟩ := h.mem_iff.1 hb
    rwa [hcount]

/-- To look up a count is to add up the counts of all entries of the element. -/
theorem countIn_eq_sum (h : (es.map Prod.fst).Nodup) (a : α) :
    countIn a es = (es.map fun e => if a = e.1 then e.2 else 0).sum := by
  induction es with
  | nil => rfl
  | cons e es ih =>
    rw [List.map_cons, List.nodup_cons] at h
    rw [countIn, List.map_cons, List.sum_cons, ← ih h.2]
    by_cases hea : e.1 = a
    · rw [if_pos hea, if_pos hea.symm, countIn_eq_zero (hea ▸ h.1), Nat.add_zero]
    · rw [if_neg hea, if_neg (Ne.symm hea), Nat.zero_add]

/-- Entries are the same up to order if all counts are. -/
theorem Proper.perm_iff (h : Proper es) (h' : Proper es') :
    es.Perm es' ↔ ∀ a, countIn a es = countIn a es' := by
  rw [List.perm_ext_iff_of_nodup h.entries_nodup h'.entries_nodup]
  constructor
  · intro hmem a
    by_cases hzero : countIn a es = 0
    · by_contra hne
      have hentry : (a, countIn a es') ∈ es' := h'.mem_iff.2 ⟨fun h0 => hne (hzero.trans h0.symm), rfl⟩
      exact hne (h.mem_iff.1 ((hmem _).2 hentry)).2
    · have hentry : (a, countIn a es) ∈ es := h.mem_iff.2 ⟨hzero, rfl⟩
      exact (h'.mem_iff.1 ((hmem _).1 hentry)).2.symm
  · rintro hcount ⟨a, n⟩
    rw [h.mem_iff, h'.mem_iff, hcount]

/-- Entries that are as many as others, and all found among them, are the same up to order. -/
theorem Proper.perm_of_countIn (h : Proper es) (h' : Proper es') (hlength : es.length = es'.length)
    (hcount : ∀ e ∈ es, countIn e.1 es' = e.2) : es.Perm es' := by
  have hsub : es ⊆ es' := fun e he => h'.mem_iff.2 ⟨h.count_ne e he, hcount e he⟩
  exact (List.subperm_of_subset h.entries_nodup hsub).perm_of_length_le hlength.ge

/-! ### Changing a count -/

theorem map_fst_raiseIn (a : α) (n : ℕ) (es : List (α × ℕ)) :
    (raiseIn a n es).map Prod.fst = es.map Prod.fst := by
  induction es with
  | nil => rfl
  | cons e es ih =>
    obtain ⟨b, m⟩ := e
    rw [raiseIn]
    split
    · rfl
    · rw [List.map_cons, ih, List.map_cons]

theorem Proper.raiseIn (h : Proper es) (a : α) (n : ℕ) : Proper (raiseIn a n es) := by
  induction es with
  | nil => exact proper_nil
  | cons e es ih =>
    obtain ⟨b, m⟩ := e
    obtain ⟨hm, hb, hes⟩ := proper_cons_iff.1 h
    rw [Tally.raiseIn]
    split
    · exact proper_cons_iff.2 ⟨by omega, hb, hes⟩
    · exact proper_cons_iff.2 ⟨hm, by rwa [map_fst_raiseIn], ih hes⟩

theorem sum_raiseIn (h : countIn a es ≠ 0) (n : ℕ) :
    ((raiseIn a n es).map Prod.snd).sum = (es.map Prod.snd).sum + n := by
  induction es with
  | nil => exact absurd rfl h
  | cons e es ih =>
    obtain ⟨b, m⟩ := e
    rw [countIn] at h
    rw [raiseIn]
    split
    · rw [List.map_cons, List.map_cons, List.sum_cons, List.sum_cons]
      omega
    · next hba =>
      rw [if_neg hba] at h
      rw [List.map_cons, List.map_cons, List.sum_cons, List.sum_cons, ih h, Nat.add_assoc]

theorem Proper.addIn (h : Proper es) (a : α) (hn : n ≠ 0) : Proper (addIn a n es) := by
  rw [Tally.addIn]
  split
  · next hzero => exact proper_cons_iff.2 ⟨hn, fun hmem => h.countIn_ne_zero_iff.2 hmem hzero, h⟩
  · exact h.raiseIn a n

theorem sum_addIn (a : α) (n : ℕ) (es : List (α × ℕ)) :
    ((addIn a n es).map Prod.snd).sum = (es.map Prod.snd).sum + n := by
  rw [addIn]
  split
  · rw [List.map_cons, List.sum_cons, Nat.add_comm]
  · next hne => exact sum_raiseIn hne n

theorem sublist_map_fst_removeIn (a : α) (es : List (α × ℕ)) :
    ((removeIn a es).map Prod.fst).Sublist (es.map Prod.fst) := by
  induction es with
  | nil => exact List.Sublist.refl _
  | cons e es ih =>
    obtain ⟨b, m⟩ := e
    rw [removeIn]
    split
    · split
      · exact List.Sublist.refl _
      · exact List.sublist_cons_self b _
    · exact ih.cons_cons b

theorem Proper.removeIn (h : Proper es) (a : α) : Proper (removeIn a es) := by
  induction es with
  | nil => exact proper_nil
  | cons e es ih =>
    obtain ⟨b, m⟩ := e
    obtain ⟨hm, hb, hes⟩ := proper_cons_iff.1 h
    rw [Tally.removeIn]
    split
    · split
      · exact proper_cons_iff.2 ⟨by omega, hb, hes⟩
      · exact hes
    · exact proper_cons_iff.2
        ⟨hm, fun hmem => hb ((sublist_map_fst_removeIn a es).subset hmem), ih hes⟩

/-- The count of the element becomes one less, and no other count changes. -/
theorem Proper.countIn_removeIn (h : Proper es) (a b : α) :
    countIn b (Tally.removeIn a es) = if b = a then countIn a es - 1 else countIn b es := by
  induction es with
  | nil => exact (ite_self 0).symm
  | cons e es ih =>
    obtain ⟨x, m⟩ := e
    obtain ⟨hm, hx, hes⟩ := proper_cons_iff.1 h
    rw [Tally.removeIn]
    by_cases hxa : x = a
    · subst hxa
      by_cases hbx : b = x
      · -- no other entry takes the place of one that goes
        subst hbx
        have hnone := countIn_eq_zero hx
        rw [if_pos rfl, if_pos rfl, countIn, if_pos rfl]
        split
        · rw [countIn, if_pos rfl]
        · omega
      · rw [if_pos rfl, if_neg hbx, countIn, if_neg (Ne.symm hbx)]
        split
        · rw [countIn, if_neg (Ne.symm hbx)]
        · rfl
    · rw [if_neg hxa, countIn, countIn, countIn, if_neg hxa, ih hes]
      split
      · next hxb => rw [if_neg (fun hba => hxa (hxb.trans hba))]
      · rfl

theorem sum_removeIn (h : Proper es) (ha : a ∈ es.map Prod.fst) :
    ((removeIn a es).map Prod.snd).sum + 1 = (es.map Prod.snd).sum := by
  induction es with
  | nil => exact absurd ha List.not_mem_nil
  | cons e es ih =>
    obtain ⟨b, m⟩ := e
    obtain ⟨hm, hb, hes⟩ := proper_cons_iff.1 h
    rw [removeIn, List.map_cons, List.sum_cons]
    split
    · split
      · rw [List.map_cons, List.sum_cons]
        omega
      · -- the last occurrence takes its entry with it
        have hone : m = 1 := by omega
        rw [hone, Nat.add_comm]
    · next hba =>
      rw [List.map_cons, List.mem_cons] at ha
      have hrest := ih hes (ha.resolve_left (Ne.symm hba))
      rw [List.map_cons, List.sum_cons]
      omega

/-! ### Tallies -/

/-- The tallies that some sequence of operations leads to.  Additions that overflow are among them,
and what they leave behind. -/
inductive Reachable : Tally α → Prop where
  /-- A new tally. -/
  | empty : Reachable .empty
  /-- An occurrence was added, or was one too many. -/
  | add {t : Tally α} (a : α) : Reachable t → Reachable (t.add a).2
  /-- Some occurrences were added, or were too many. -/
  | addOccurrences {t : Tally α} (a : α) (n : ℕ) :
      Reachable t → Reachable (t.addOccurrences a n).2
  /-- An occurrence was removed. -/
  | remove {t : Tally α} (a : α) : Reachable t → Reachable (t.remove a).2
  /-- Every occurrence was removed. -/
  | clear {t : Tally α} : Reachable t → Reachable t.clear
  /-- A list of elements was added, up to the first that was one too many. -/
  | extend {t : Tally α} (as : List α) : Reachable t → Reachable (t.extend as).2
  /-- Another tally was added, up to the first entry that was too much. -/
  | merge {t t' : Tally α} : Reachable t → Reachable t' → Reachable (t.merge t').2
  /-- The entries came to stand in another order. -/
  | reorder {t : Tally α} {es : List (α × ℕ)} :
      es.Perm t.entries → Reachable t → Reachable ⟨es, t.total⟩

variable {t : Tally α}

theorem contains_eq_true_iff : t.contains a = true ↔ a ∈ t.entries.map Prod.fst := by
  rw [contains, List.any_eq_true, List.mem_map]
  simp only [decide_eq_true_eq]

theorem Sound.addOccurrences (h : t.Sound) (a : α) (n : ℕ) : (t.addOccurrences a n).2.Sound := by
  rw [Tally.addOccurrences]
  by_cases hn : n = 0
  · rwa [if_pos hn]
  rw [if_neg hn, addCount?]
  by_cases hle : t.total + n ≤ maxWord
  · rw [if_pos hle]
    refine ⟨h.proper.addIn a hn, ?_, hle⟩
    rw [sum_addIn, h.total_eq]
  · rwa [if_neg hle]

theorem Sound.add (h : t.Sound) (a : α) : (t.add a).2.Sound := h.addOccurrences a 1

theorem Sound.remove (h : t.Sound) (a : α) : (t.remove a).2.Sound := by
  rw [Tally.remove]
  split
  · next ha =>
    have hsum := sum_removeIn h.proper (contains_eq_true_iff.1 ha)
    have htotal := h.total_eq
    refine ⟨h.proper.removeIn a, ?_, (Nat.sub_le _ _).trans h.total_le⟩
    show t.total - 1 = ((removeIn a t.entries).map Prod.snd).sum
    omega
  · exact h

theorem Sound.extend (h : t.Sound) (as : List α) : (t.extend as).2.Sound := by
  induction as generalizing t with
  | nil => exact h
  | cons a as ih =>
    have hnext := h.add a
    rw [Tally.extend]
    rcases hadd : t.add a with ⟨r, t'⟩
    rw [hadd] at hnext
    cases r with
    | ok fresh => exact ih hnext
    | error e => exact hnext

theorem Sound.mergeEntries (h : t.Sound) (es : List (α × ℕ)) : (t.mergeEntries es).2.Sound := by
  induction es generalizing t with
  | nil => exact h
  | cons e es ih =>
    obtain ⟨a, n⟩ := e
    have hnext := h.addOccurrences a n
    rw [Tally.mergeEntries]
    rcases hadd : t.addOccurrences a n with ⟨r, t'⟩
    rw [hadd] at hnext
    cases r with
    | ok count => exact ih hnext
    | error e => exact hnext

theorem Reachable.sound (h : t.Reachable) : t.Sound := by
  induction h with
  | empty => exact sound_empty
  | add a _ ih => exact ih.add a
  | addOccurrences a n _ ih => exact ih.addOccurrences a n
  | remove a _ ih => exact ih.remove a
  | clear _ _ => exact sound_empty
  | extend as _ ih => exact ih.extend as
  | merge _ _ ih _ => exact ih.mergeEntries _
  | reorder hperm _ ih => exact ih.reorder hperm

/-- Equal tallies count all elements alike. -/
theorem eqv_iff_occurrencesOf {t t' : Tally α} (h : t.Sound) (h' : t'.Sound) :
    t.eqv t' = true ↔ ∀ a, t.occurrencesOf a = t'.occurrencesOf a := by
  have hperm : t.entries.Perm t'.entries ↔ ∀ a, t.occurrencesOf a = t'.occurrencesOf a :=
    h.proper.perm_iff h'.proper
  rw [← hperm, eqv]
  simp only [Bool.and_eq_true, beq_iff_eq, List.all_eq_true]
  constructor
  · rintro ⟨⟨-, hlength⟩, hall⟩
    exact h.proper.perm_of_countIn h'.proper hlength fun e he => (hall e he).2
  · intro hentries
    refine ⟨⟨?_, hentries.length_eq⟩, fun e he => ?_⟩
    · rw [h.total_eq, h'.total_eq, (hentries.map Prod.snd).sum_eq]
    · have hmem := hentries.mem_iff.1 he
      exact ⟨contains_eq_true_iff.2 (List.mem_map_of_mem hmem), (h'.proper.mem_iff.1 hmem).2⟩

end Tally
end Slotted
