import Mathlib.Data.List.Permutation
import Slotted.Proofs.Json.Summing
import Slotted.Proofs.Lockstep.Tally

/-!
# Merging tallies that are too many together

Tallies are merged by adding the entries of one to the other, one after the other.  If all their
occurrences together are not a machine word, then one of these additions overflows, in whatever
order they are made.  That one changes nothing, but those before it stay: a merge that fails is a
merge with the entries up to the first that is too much.  So it leaves the tally as it was if that
is the very first, and to be sure of this in every order, each entry must be too much by itself.

## Main definitions

* `Tally.CutShort` — a tally to which a part of a list of entries was added.

## Main results

* `Tally.Sound.exists_cutShort` — additions that are too many end at the first that overflows.
* `merge_cut_short` — what a merge that fails leaves, and when that is what was there before.
* `merge_cut_short_partway` — it need not be.
-/

namespace Slotted

namespace Tally

variable {α : Type} {es added : List (α × ℕ)}

theorem Proper.of_append (h : Proper (added ++ es)) : Proper added := by
  constructor
  · have hnodup := h.nodup
    rw [List.map_append] at hnodup
    exact hnodup.of_append_left
  · intro e he
    exact h.count_ne e (List.mem_append_left es he)

/-- Entries without zero counts are none if their counts are nothing together. -/
theorem Proper.eq_nil_of_sum_eq_zero (h : Proper es) (hsum : (es.map Prod.snd).sum = 0) :
    es = [] := by
  cases es with
  | nil => rfl
  | cons e es =>
    rw [List.map_cons, List.sum_cons, Nat.add_eq_zero_iff] at hsum
    exact absurd hsum.1 (h.count_ne e List.mem_cons_self)

variable [DecidableEq α] {t t' m : Tally α} {n : ℕ}

/-- Entries of a list were added to a tally, up to the first that is too much. -/
structure CutShort (t : Tally α) (es added : List (α × ℕ)) (m : Tally α) : Prop where
  /-- There is one that is too much for what the tally has become. -/
  exists_overflowing : ∃ a n rest, es = added ++ (a, n) :: rest ∧ maxWord < m.total + n
  /-- The counts of those before it are in the total, -/
  total_eq : m.total = t.total + (added.map Prod.snd).sum
  /-- which is a machine word, -/
  total_le : m.total ≤ maxWord
  /-- and in the counts. -/
  occurrencesOf_eq : ∀ b, m.occurrencesOf b = t.occurrencesOf b + countIn b added
  /-- The tally is the same only if there are none. -/
  eq_iff : m = t ↔ added = []

/-- Adding a list of entries in two parts, of which the first goes through. -/
theorem mergeEntries_append (h : t.mergeEntries added = (.ok (), m)) (es : List (α × ℕ)) :
    t.mergeEntries (added ++ es) = m.mergeEntries es := by
  induction added generalizing t with
  | nil =>
    cases h
    rfl
  | cons e added ih =>
    obtain ⟨a, n⟩ := e
    rw [List.cons_append, mergeEntries]
    rw [mergeEntries] at h
    rcases hadd : t.addOccurrences a n with ⟨r, t₁⟩
    rw [hadd] at h
    cases r with
    | ok count => exact ih h
    | error abort => cases h

/-- An entry that is too much is the end, and adds nothing. -/
theorem Sound.mergeEntries_cons_of_overflow (ht : t.Sound) (a : α) (h : maxWord < t.total + n)
    (es : List (α × ℕ)) : t.mergeEntries ((a, n) :: es) = (.error .countOverflow, t) := by
  have hadd : t.addOccurrences a n = (.error .countOverflow, t) :=
    bagGrowth_tally.addOccurrences_overflow ht a h
  rw [Tally.mergeEntries, hadd]

/-- **Additions that are too many end at the first that overflows.** -/
theorem Sound.exists_cutShort (ht : t.Sound) (hes : Proper es)
    (hover : maxWord < t.total + (es.map Prod.snd).sum) :
    ∃ added m, t.mergeEntries es = (.error .countOverflow, m) ∧ CutShort t es added m := by
  obtain ⟨added, a, n, rest, rfl, hfits, hover⟩ := Counted.exists_overflowing ht.total_le hover
  obtain ⟨m, hm, htotal, hcount⟩ := ht.exists_mergeEntries hfits
  have hadded := hes.of_append
  have hsound : m.Sound := by
    have hrun := ht.mergeEntries added
    rwa [hm] at hrun
  rw [← htotal] at hfits hover
  refine ⟨added, m, ?_, ⟨a, n, rest, rfl, hover⟩, htotal, hfits, fun b => ?_, fun heq => ?_,
    fun hnil => ?_⟩
  · rw [mergeEntries_append hm]
    exact hsound.mergeEntries_cons_of_overflow a hover rest
  · rw [hcount, countIn_eq_sum hadded.nodup]
  · apply hadded.eq_nil_of_sum_eq_zero
    rw [heq] at htotal
    omega
  · rw [hnil] at hm
    cases hm
    rfl

/-- If the tally is the same, then already the first entry was too much. -/
theorem CutShort.overflow_of_eq {e : α × ℕ} (h : CutShort t (e :: es) added m) (heq : m = t) :
    maxWord < t.total + e.2 := by
  obtain ⟨a, n, rest, hes, hover⟩ := h.exists_overflowing
  rw [h.eq_iff.1 heq, List.nil_append, List.cons.injEq] at hes
  rwa [hes.1, ← heq]

/-- Entries that are all too much by themselves leave the tally the same. -/
theorem CutShort.eq_of_overflow (h : CutShort t es added m)
    (hall : ∀ e ∈ es, maxWord < t.total + e.2) : m = t := by
  apply h.eq_iff.2
  cases hadded : added with
  | nil => rfl
  | cons e rest =>
    obtain ⟨a, n, rest', hes, -⟩ := h.exists_overflowing
    have he : e ∈ es := by
      rw [hes, hadded]
      exact List.mem_append_left _ List.mem_cons_self
    have htotal := h.total_eq
    rw [hadded, List.map_cons, List.sum_cons] at htotal
    have hle := h.total_le
    have hover := hall e he
    omega

/-- A merge ends in this way, in whatever order the other tally is gone through. -/
theorem Sound.exists_merge_cutShort (ht : t.Sound) (ht' : t'.Sound)
    (hover : maxWord < t.total + t'.total) (hperm : es.Perm t'.entries) :
    ∃ added m, t.merge ⟨es, t'.total⟩ = (.error .countOverflow, m) ∧ CutShort t es added m := by
  apply ht.exists_cutShort (ht'.proper.perm hperm)
  rwa [(hperm.map Prod.snd).sum_eq, ← ht'.total_eq]

end Tally

/-- **A merge that fails has added a part of the other tally.**  If two tallies that operations lead
to have more occurrences together than a machine word can count, then merging them overflows, in
whatever order the other is gone through; and the entries before the first that is too much have
been added, and nothing else.  The tally is as it was just if there are no such entries, and so in
every order just if each entry of the other is too much by itself. -/
theorem merge_cut_short {α : Type} [DecidableEq α] {t t' : Tally α} (ht : t.Reachable)
    (ht' : t'.Reachable) (hover : maxWord < t.total + t'.total) :
    (∀ es : List (α × ℕ), es.Perm t'.entries → ∃ added m,
      t.merge ⟨es, t'.total⟩ = (.error .countOverflow, m) ∧ Tally.CutShort t es added m) ∧
    ((∀ es : List (α × ℕ), es.Perm t'.entries → (t.merge ⟨es, t'.total⟩).2 = t) ↔
      ∀ e ∈ t'.entries, maxWord < t.total + e.2) := by
  have hcut : ∀ es : List (α × ℕ), es.Perm t'.entries → ∃ added m,
      t.merge ⟨es, t'.total⟩ = (.error .countOverflow, m) ∧ Tally.CutShort t es added m :=
    fun es hperm => ht.sound.exists_merge_cutShort ht'.sound hover hperm
  refine ⟨hcut, fun hsame e he => ?_, fun hall es hperm => ?_⟩
  · -- let the entry be the first
    obtain ⟨before, after, hentries⟩ := List.append_of_mem he
    have hperm : (e :: (before ++ after)).Perm t'.entries := by
      rw [hentries]
      exact List.perm_middle.symm
    obtain ⟨added, m, hmerge, hm⟩ := hcut _ hperm
    have heq := hsame _ hperm
    rw [hmerge] at heq
    exact hm.overflow_of_eq heq
  · obtain ⟨added, m, hmerge, hm⟩ := hcut es hperm
    rw [hmerge]
    apply hm.eq_of_overflow
    intro e he
    exact hall e (hperm.mem_iff.1 he)

/-- For example a tally with room for one more occurrence, and another that has two occurrences of
one element. -/
theorem merge_cut_short_first :
    let full := (Tally.empty.addOccurrences 'a' (maxWord - 1)).2
    let two := (Tally.empty.addOccurrences 'b' 2).2
    full.Reachable ∧ two.Reachable ∧ maxWord < full.total + two.total ∧
      (∃ added m, full.merge two = (.error .countOverflow, m) ∧
        Tally.CutShort full two.entries added m) ∧
      ∀ es : List (Char × ℕ), es.Perm two.entries → (full.merge ⟨es, two.total⟩).2 = full := by
  intro full two
  have hfull : full.Reachable := .addOccurrences _ _ .empty
  have htwo : two.Reachable := .addOccurrences _ _ .empty
  have hover : maxWord < full.total + two.total := by decide +kernel
  have hall : ∀ e ∈ two.entries, maxWord < full.total + e.2 := by decide +kernel
  obtain ⟨hcut, hsame⟩ := merge_cut_short hfull htwo hover
  exact ⟨hfull, htwo, hover, hcut _ (.refl _), hsame.2 hall⟩

/-- A merge that fails need not leave the tally as it was, and in no order if there is room for each
single entry: here one of two elements is added before the other overflows. -/
theorem merge_cut_short_partway :
    let full := (Tally.empty.addOccurrences 'a' (maxWord - 1)).2
    let two := (Tally.empty.extend ['b', 'c']).2
    full.Reachable ∧ two.Reachable ∧ maxWord < full.total + two.total ∧
      ∀ es : List (Char × ℕ), es.Perm two.entries →
        (full.merge ⟨es, two.total⟩).1 = .error .countOverflow ∧
        (full.merge ⟨es, two.total⟩).2.total = full.total + 1 ∧
        (full.merge ⟨es, two.total⟩).2.distinctSize = full.distinctSize + 1 := by
  intro full two
  refine ⟨.addOccurrences _ _ .empty, .extend _ .empty, by decide +kernel, fun es hperm => ?_⟩
  rw [← List.mem_permutations'] at hperm
  revert es
  simp only [full, two]
  decide +kernel

end Slotted
