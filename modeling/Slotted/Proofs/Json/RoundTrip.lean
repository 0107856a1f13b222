import Slotted.Guarded.Calls
import Slotted.Proofs.Growth
import Slotted.Proofs.Guarded.Scope
import Slotted.Proofs.Json.Listing

/-!
# Containers come back from their documents

The document of a container lists its elements in the order of their slots; to read it is to add
them one by one to a new container, which may put them elsewhere.  What can be looked up afterwards
does not depend on the order, so the container is equal to the one that was written.  The counts of
a bag are together a machine word, so that no sum of them on the way is too large.

A guarded collection is written under a shared hold, and what is read is behind a lock of its own.

## Main definitions

* `Enumerated` — a bag holds its distinct elements, as often as the counts beside them say.
* `Restored` — the document of a collection gives back an equal one, also if it is guarded.

## Main results

* `SetGrowth.exists_setOfDocument`, `BagGrowth.exists_bagOfDocument` — containers are read back.
* `documents_restore` — all containers but those of floats.
-/

namespace Slotted

open Collection Counted Json

variable {C α κ : Type} [DecidableEq κ] {sound : C → Prop} {key : α → κ}

/-! ### Sets and bags -/

/-- The set of the document of a set contains the same, if its elements are read back. -/
theorem SetGrowth.exists_setOfDocument_of_readAs [Collection C α] [Element α]
    (growth : SetGrowth C sound key) (laws : SetLaws C sound key) {c : C} (hc : sound c)
    (hread : ∀ a ∈ toList c, ReadAs Element.read (Element.write a) a) :
    ∃ d, (setOfDocument (setDocument c) : Traced (Except Fault C)).val = .ok d ∧
      SameElements sound d c := by
  obtain ⟨d, hd, hsound, hcontains⟩ := growth.exists_extend growth.sound_empty (toList c)
  refine ⟨d, ?_, hsound, hc, fun a => ?_⟩
  · rw [setOfDocument, setDocument, Listing.elements_writeList hread, Traced.val_map, hd]
    rfl
  · rw [hcontains, growth.contains_empty, Bool.or_false, Bool.eq_iff_iff, decide_eq_true_iff]
    exact (laws.contains_iff hc).symm

/-- The set of the document of a set contains the same. -/
theorem SetGrowth.exists_setOfDocument [Collection C α] [Element α]
    (growth : SetGrowth C sound key) (laws : SetLaws C sound key) (hread : ReadBack α) {c : C}
    (hc : sound c) :
    ∃ d, (setOfDocument (setDocument c) : Traced (Except Fault C)).val = .ok d ∧
      SameElements sound d c :=
  growth.exists_setOfDocument_of_readAs laws hc fun a _ => hread a

/-- A bag holds its distinct elements, as often as the counts beside them say, and nothing else. -/
structure Enumerated [Counted C α] (key : α → κ) (c : C) : Prop where
  /-- No two distinct elements have one key. -/
  nodup : ((distinct c).map fun e => key e.1).Nodup
  /-- The counts are together a machine word. -/
  sum_le : ((distinct c).map Prod.snd).sum ≤ maxWord
  /-- The counts are the numbers of occurrences. -/
  occurrencesOf_eq : ∀ a, occurrencesOf c a
    = Tally.countIn (key a) ((distinct c).map fun e => (key e.1, e.2))

theorem BagLaws.enumerated [Bag C α] (laws : BagLaws C sound key) {c : C} (hc : sound c) :
    Enumerated key c where
  nodup := laws.nodup hc
  sum_le := laws.size_eq hc ▸ laws.size_le hc
  occurrencesOf_eq := by
    intro a
    have hproper : Tally.Proper ((distinct c).map fun e => (key e.1, e.2)) := by
      refine ⟨?_, fun e he => ?_⟩
      · rw [List.map_map]
        exact laws.nodup hc
      · obtain ⟨e', he', rfl⟩ := List.mem_map.1 he
        exact (laws.occurrencesOf_eq hc he').1
    by_cases ha : key a ∈ (distinct c).map fun e => key e.1
    · obtain ⟨e, he, hkey⟩ := List.mem_map.1 ha
      have hentry : (key a, e.2) ∈ (distinct c).map fun e => (key e.1, e.2) :=
        List.mem_map.2 ⟨e, he, by rw [hkey]⟩
      rw [laws.occurrencesOf_congr hc hkey.symm, (laws.occurrencesOf_eq hc he).2,
        (hproper.mem_iff.1 hentry).2]
    · rw [laws.occurrencesOf_eq_zero hc ha, Tally.countIn_eq_zero]
      rwa [List.map_map]

theorem Tally.Sound.enumerated [DecidableEq α] {t : Tally α} (ht : t.Sound) :
    Enumerated (id : α → α) t where
  nodup := ht.proper.nodup
  sum_le := ht.total_eq ▸ ht.total_le
  occurrencesOf_eq := by
    intro a
    show Tally.countIn a t.entries = Tally.countIn a (t.entries.map fun e => (e.1, e.2))
    rw [List.map_id']

theorem Enumerated.le_maxWord [Counted C α] {c : C} (h : Enumerated key c) {e : α × ℕ}
    (he : e ∈ distinct c) : e.2 ≤ maxWord :=
  (List.single_le_sum (fun _ _ => Nat.zero_le _) _ (List.mem_map_of_mem he)).trans h.sum_le

/-- The bag of the document of a bag counts alike, if its values are read back. -/
theorem BagGrowth.exists_bagOfDocument_of_readAs [Counted C α] [Element α]
    (growth : BagGrowth C sound key) {c : C} (hc : sound c) (h : Enumerated key c)
    (hread : ∀ e ∈ distinct c, ReadAs Element.read (Element.write e.1) e.1) :
    ∃ d, (bagOfDocument (bagDocument c) : Traced (Except Fault C)).val = .ok d ∧
      SameCounts sound d c := by
  obtain ⟨d, hd, hsound, -, hocc⟩ := growth.exists_absorb growth.sound_empty (distinct c) (by
    rw [growth.size_empty, Nat.zero_add]
    exact h.sum_le)
  refine ⟨d, ?_, hsound, hc, fun a => ?_⟩
  · rw [bagOfDocument, bagDocument, Listing.entries_writeList hread fun e => h.le_maxWord,
      Traced.val_map, Counted.ofEntries, hd]
    rfl
  · have hnodup : (((distinct c).map fun e => (key e.1, e.2)).map Prod.fst).Nodup := by
      rw [List.map_map]
      exact h.nodup
    rw [hocc, growth.occurrencesOf_empty, Nat.zero_add, h.occurrencesOf_eq,
      Tally.countIn_eq_sum hnodup, List.map_map]
    rfl

/-- The bag of the document of a bag counts alike. -/
theorem BagGrowth.exists_bagOfDocument [Counted C α] [Element α]
    (growth : BagGrowth C sound key) (hread : ReadBack α) {c : C} (hc : sound c)
    (h : Enumerated key c) :
    ∃ d, (bagOfDocument (bagDocument c) : Traced (Except Fault C)).val = .ok d ∧
      SameCounts sound d c :=
  growth.exists_bagOfDocument_of_readAs hc h fun e _ => hread e.1

/-! ### Guarded collections -/

/-- The document of a collection gives back a collection that is the same in the sense given, also
if the collection is behind a lock. -/
structure Restored [Documented C] (same : C → C → Prop) (c : C) : Prop where
  /-- The collection alone. -/
  alone : ∃ d, (ofDocument (document c) : Traced (Except Fault C)).val = .ok d ∧ same d c
  /-- Behind a lock it is written whenever the thread gets a shared hold.  Of that nothing remains,
  and what is read is behind a lock that nobody holds. -/
  guarded : ∀ {α : Type} (p : GuardPost C) (i : ℕ) (innermost : Option ℕ), p.delegate i = c →
    (p.acquire i .shared).1 = .ok () → ∃ text d,
      (Command.document i document : Command C (Reply α)).run innermost p
        = (.ok (.value (.document text)), p) ∧
      (Guarded.ofDocument text : Traced (Except Fault (Guarded C))).val = .ok ⟨d, .free⟩ ∧ same d c

theorem restored_of_exists [Documented C] {same : C → C → Prop} {c : C}
    (h : ∃ d, (ofDocument (document c) : Traced (Except Fault C)).val = .ok d ∧ same d c) :
    Restored same c where
  alone := h
  guarded := by
    rintro α p i innermost rfl hhold
    obtain ⟨d, hd, hsame⟩ := h
    refine ⟨document (p.delegate i), d, ?_, ?_, hsame⟩
    · exact GuardPost.run_read hhold innermost _
    · rw [Guarded.ofDocument, Traced.val_map, hd]
      rfl

/-! ### The containers that there are -/

theorem Tally.Sound.restored [DecidableEq α] [Element α] (hread : ReadBack α) {t : Tally α}
    (ht : t.Sound) : Restored (fun d t => d.eqv t = true) t := by
  obtain ⟨d, hd, hsame⟩ := bagGrowth_tally.exists_bagOfDocument hread ht ht.enumerated
  exact restored_of_exists ⟨d, hd, (Tally.eqv_iff_occurrencesOf hsame.1 hsame.2.1).2 hsame.2.2⟩

/-- **Documents restore containers.**  To write a container that operations lead to, and to read
what was written, makes an equal container, whatever the values and the counts are.  So it does with
a container behind a lock. -/
theorem documents_restore :
    (∀ {k : Kind}, k.isFloat = false →
      (∀ s : ScalarSet k, s.Reachable → Restored (fun d s => d.eqv s = true) s) ∧
      (∀ b : ScalarBag k, b.Reachable → Restored (fun d b => d.eqv b = true) b) ∧
      ∀ t : Tally (Scalar k), t.Reachable → Restored (fun d t => d.eqv t = true) t) ∧
    (∀ t : Tally String, t.Reachable → Restored (fun d t => d.eqv t = true) t) ∧
    (∀ s : BoolSet, Restored Eq s) ∧
    ∀ b : BoolBag, b.Reachable → Restored Eq b := by
  refine ⟨fun {k} hk => ⟨fun s hs => ?_, fun b hb => ?_, fun t ht => ?_⟩, fun t ht => ?_,
    fun s => ?_, fun b hb => ?_⟩
  · obtain ⟨d, hd, hsame⟩ := (setGrowth_scalarSet k).exists_setOfDocument (setLaws_scalarSet k)
      (readBack_scalar hk) hs.sound
    exact restored_of_exists
      ⟨d, hd, (ScalarSet.eqv_iff_contains hsame.1 hsame.2.1).2 hsame.2.2⟩
  · obtain ⟨d, hd, hsame⟩ := (bagGrowth_scalarBag k).exists_bagOfDocument (readBack_scalar hk)
      hb.sound ((bagLaws_scalarBag k).enumerated hb.sound)
    exact restored_of_exists
      ⟨d, hd, (ScalarBag.eqv_iff_occurrencesOf hsame.1 hsame.2.1).2 hsame.2.2⟩
  · exact ht.sound.restored (readBack_scalar hk)
  · exact ht.sound.restored readBack_string
  · obtain ⟨d, hd, hsame⟩ := setGrowth_boolSet.exists_setOfDocument setLaws_boolSet readBack_bool
      (c := s) trivial
    exact restored_of_exists ⟨d, hd, BoolSet.eq_of_contains hsame.2.2⟩
  · obtain ⟨d, hd, hsame⟩ := bagGrowth_boolBag.exists_bagOfDocument readBack_bool hb.size_le
      (bagLaws_boolBag.enumerated hb.size_le)
    exact restored_of_exists ⟨d, hd, BoolBag.eq_of_occurrencesOf hsame.2.2⟩

/-- For example the least number of eight bytes with sign and the greatest without, and a guarded
string with a quote, a backslash, two control characters and one beyond ASCII, the latter two as
often as a machine word can count. -/
theorem documents_restore_extremes :
    let s := (ScalarSet.empty.add (⟨0x8000000000000000, by decide⟩ : Scalar .i64)).val.2
    let b := (ScalarBag.empty.addOccurrences (⟨0xffffffffffffffff, by decide⟩ : Scalar .u64)
      maxWord).val.2
    let t := (Tally.empty.addOccurrences "\"\\\x01\n\u00e4" maxWord).2
    let p : GuardPost (Tally String) := { values := fun _ => { delegate := t } }
    let written := "[[\"\\\"\\\\\\u0001\\n\u00e4\",18446744073709551615]]"
    Kind.i64.isFloat = false ∧ s.Reachable ∧ document s = "[-9223372036854775808]" ∧
      (∃ d : ScalarSet .i64, (ofDocument "[-9223372036854775808]").val = .ok d ∧
        d.eqv s = true) ∧
      Kind.u64.isFloat = false ∧ b.Reachable ∧ b.size = maxWord ∧
      Restored (fun d b => d.eqv b = true) b ∧
      t.Reachable ∧ (p.acquire 0 .shared).1 = .ok () ∧
      ((Command.document 0 document : Command (Tally String) (Reply String)).run none p).1
        = .ok (.value (.document written)) ∧
      ∃ d : Tally String, (Guarded.ofDocument written).val = .ok ⟨d, .free⟩ ∧ d.eqv t = true := by
  intro s b t p written
  obtain ⟨hscalars, hstrings, -, -⟩ := documents_restore
  have hs : s.Reachable := .add _ .empty
  have hb : b.Reachable := .addOccurrences _ _ .empty
  have ht : t.Reachable := .addOccurrences _ _ .empty
  have hhold : (p.acquire 0 .shared).1 = .ok () :=
    GuardPost.acquire_shared_ok_iff.2 ⟨rfl, by decide, by decide⟩
  have hdocument : document s = "[-9223372036854775808]" := by
    simp only [s]
    decide +kernel
  have hsize : b.size = maxWord := by
    simp only [b]
    decide +kernel
  have hwritten : document t = written := by
    simp only [t, written]
    decide +kernel
  obtain ⟨d, hd, heqv⟩ := ((hscalars rfl).1 s hs).alone
  obtain ⟨text, d', hrun, hd', heqv'⟩ := (hstrings t ht).guarded (α := String) p 0 none rfl hhold
  obtain rfl : text = written := by
    have hread := hrun.symm.trans (GuardPost.run_read hhold none _)
    simp only [Prod.mk.injEq, Except.ok.injEq, Answer.value.injEq, Reply.document.injEq] at hread
    exact hread.1.trans hwritten
  exact ⟨rfl, hs, hdocument, ⟨d, hdocument ▸ hd, heqv⟩, rfl, hb, hsize, (hscalars rfl).2.1 b hb, ht,
    hhold, congrArg Prod.fst hrun, d', hd', heqv'⟩

end Slotted
