import Slotted.Proofs.Bytes.RoundTrip
import Slotted.Proofs.Tally
import Slotted.Proofs.Traversal.Iterator

/-!
# Iterators that know how many items are left

An iterator keeps the number of items that are left beside the place where it stands, and lowers it
with each item.  That the number is right therefore depends on the container: the sizes have to be
those of what there is to hand out, and no count may be zero, for a value whose count is zero would
be handed out once.  If the number is right at first, it is right after any number of calls, also
when the iterator has come to its end.

## Main definitions

* `Iterator.CountsDown` — an iterator that lowers its number with each item.
* `Iterator.Exact` — an iterator whose number is right at all times, and that stays at its end.
* `InRuns` — a list of all elements of a container, each as often as it occurs and in one place.

## Main results

* `Iterator.HandsOut.exact` — a number that is right at first stays right.
* `BoolSet.handsOut_iter`, `BoolBag.handsOut_iter`, `Tally.handsOut_iter`,
  `ScalarBag.handsOut_distinctIter` — what the other iterators hand out.
* `iterators_exact` — all iterators are exact, and come to everything.
-/

namespace Slotted

variable {k : Kind} {C I α κ : Type}

/-! ### Numbers that stay right -/

namespace Iterator

variable [Iterator I α] {it : I} {l : List α}

/-- With each item that is handed out the number of those left goes down by one, else it stays. -/
def CountsDown (I : Type) {α : Type} [Iterator I α] : Prop :=
  ∀ it : I, remaining (step it).2 = remaining it - (step it).1.toList.length

/-- An iterator over the items of a list that tells at all times how many of them are left. -/
structure Exact (it : I) (l : List α) : Prop where
  /-- After any number of calls, the rest of the list is handed out, and then nothing. -/
  handsOut : ∀ n, HandsOut (take it n).2 (l.drop n)
  /-- The number is that of the items to come. -/
  remaining : ∀ n, remaining (take it n).2 = (l.drop n).length
  /-- It is never lowered below nothing. -/
  positive : ∀ n a it', step (take it n).2 = (some a, it') →
    Iterator.remaining (take it n).2 = Iterator.remaining it' + 1

theorem take_succ (it : I) (n : ℕ) :
    take it (n + 1) = ((step it).1 :: (take (step it).2 n).1, (take (step it).2 n).2) := rfl

/-- The first call hands out the head, and the rest is left. -/
theorem HandsOut.step (h : HandsOut it l) :
    (Iterator.step it).1 = l.head? ∧ HandsOut (Iterator.step it).2 l.tail := by
  refine ⟨?_, fun n => ?_⟩
  · have hone := h 1
    rw [take_succ] at hone
    cases l with
    | nil => exact (List.cons.inj hone).1
    | cons a l => exact (List.cons.inj hone).1
  · have hmore := h (n + 1)
    rw [take_succ] at hmore
    cases l with
    | nil =>
      rw [List.length_nil, Nat.sub_zero, List.replicate_succ] at hmore
      rw [(List.cons.inj hmore).2, List.tail_nil, List.take_nil]
      rfl
    | cons a l =>
      rw [List.take_succ_cons, List.map_cons, List.cons_append, List.length_cons,
        Nat.add_sub_add_right] at hmore
      exact (List.cons.inj hmore).2

/-- If the number is right at first, it stays right. -/
theorem HandsOut.exact (h : HandsOut it l) (hcount : CountsDown I)
    (hremaining : Iterator.remaining it = l.length) : Exact it l := by
  -- one call leaves the tail, and the number of its items
  have hall : ∀ n (it : I) (l : List α), HandsOut it l → Iterator.remaining it = l.length →
      HandsOut (take it n).2 (l.drop n) ∧ Iterator.remaining (take it n).2 = (l.drop n).length := by
    intro n
    induction n with
    | zero => exact fun it l h hremaining => ⟨h, hremaining⟩
    | succ n ih =>
      intro it l h hremaining
      obtain ⟨hhead, htail⟩ := h.step
      have hnext : Iterator.remaining (Iterator.step it).2 = l.tail.length := by
        rw [hcount, hhead, hremaining]
        cases l <;> rfl
      rw [take_succ, ← List.drop_tail]
      exact ih _ _ htail hnext
  refine ⟨fun n => (hall n it l h hremaining).1, fun n => (hall n it l h hremaining).2,
    fun n a it' hstep => ?_⟩
  obtain ⟨hrest, hlength⟩ := hall n it l h hremaining
  have hhead := hrest.step.1
  have hnext := hcount (take it n).2
  rw [hstep] at hhead hnext
  rw [hlength] at hnext ⊢
  rw [hnext]
  cases hdrop : l.drop n with
  | nil => simp [hdrop] at hhead
  | cons b rest => rfl

end Iterator

/-! ### Everything, in runs -/

/-- The list has all elements of a container, each as often as it is counted and in one place.
Elements are compared by a key. -/
structure InRuns (key : α → κ) (count : α → ℕ) (l : List α) (runs : List (α × ℕ)) : Prop where
  /-- The list is made of runs of one element each. -/
  eq_occurrences : l = occurrences runs
  /-- No element has two runs. -/
  nodup : (runs.map fun e => key e.1).Nodup
  /-- Each run is as long as its element is counted, and not empty. -/
  count_eq : ∀ e ∈ runs, e.2 ≠ 0 ∧ count e.1 = e.2
  /-- Every element that is counted has a run. -/
  complete : ∀ a, count a ≠ 0 → key a ∈ runs.map fun e => key e.1

open Collection Counted in
theorem SetLaws.inRuns [Collection C α] {sound : C → Prop} {key : α → κ}
    (laws : SetLaws C sound key) {c : C} (hc : sound c) :
    InRuns key (fun a => (contains c a).toNat) (toList c) ((toList c).map fun a => (a, 1)) where
  eq_occurrences := by
    rw [occurrences_map_one (fun a => a), List.map_id']
  nodup := by
    rw [List.map_map]
    exact laws.nodup hc
  count_eq := by
    intro e he
    obtain ⟨a, ha, rfl⟩ := List.mem_map.1 he
    exact ⟨Nat.one_ne_zero, by rw [(laws.contains_iff hc).2 (List.mem_map_of_mem ha)]; rfl⟩
  complete := by
    intro a ha
    rw [List.map_map]
    refine (laws.contains_iff hc).1 ?_
    cases hcontains : contains c a
    · exact absurd (by rw [hcontains]; rfl) ha
    · rfl

open Counted in
theorem BagLaws.inRuns [Bag C α] [DecidableEq κ] {sound : C → Prop} {key : α → κ}
    (laws : BagLaws C sound key) {c : C} (hc : sound c) :
    InRuns key (occurrencesOf c) (occurrences (distinct c)) (distinct c) where
  eq_occurrences := rfl
  nodup := laws.nodup hc
  count_eq := fun e he => laws.occurrencesOf_eq hc he
  complete := by
    intro a ha
    by_contra hno
    exact ha (laws.occurrencesOf_eq_zero hc hno)

/-! ### Sets and bags of scalars -/

namespace ScalarSet

theorem countsDown_iter : Iterator.CountsDown (Iter k) := by
  intro it
  show (it.step.2).remaining = it.remaining - it.step.1.toList.length
  rw [Iter.step]
  cases it.table.nextLive it.next <;> rfl

end ScalarSet

namespace ScalarBag

theorem countsDown_iter : Iterator.CountsDown (Iter k) := by
  intro it
  show (it.step.2).remaining = it.remaining - it.step.1.toList.length
  rw [Iter.step]
  split
  · rfl
  · cases it.table.nextLive it.next <;> rfl

theorem countsDown_distinct : Iterator.CountsDown (Distinct k) := by
  intro it
  show (it.step.2).remaining = it.remaining - it.step.1.toList.length
  rw [Distinct.step]
  cases it.table.nextLive it.next <;> rfl

theorem handsOut_distinctIter (b : ScalarBag k) : Iterator.HandsOut b.distinctIter b.distinct := by
  refine Iterator.handsOut_of_nextLive Distinct.table Distinct.next
    (fun e => (e.value, e.payload)) ?_ ?_ b.distinctIter
  · intro it hnone
    refine ⟨{ it with next := it.table.capacity }, ?_, rfl, rfl⟩
    show it.step = _
    rw [Distinct.step, hnone]
  · intro it e hsome
    refine ⟨{ it with next := e.slot + 1, remaining := it.remaining - 1 }, ?_, rfl, rfl⟩
    show it.step = _
    rw [Distinct.step, hsome]

end ScalarBag

/-! ### Truth values -/

namespace BoolSet

theorem handsOut_iter (s : BoolSet) : Iterator.HandsOut s.iter s.toList := by
  refine Iterator.handsOut_of_left (fun it l => it.rest.toList = l) ?_ ?_ rfl
  · rintro ⟨rest⟩ hrest
    cases rest with
    | empty => exact ⟨⟨empty⟩, rfl, rfl⟩
    | falseOnly | trueOnly | both => cases hrest
  · rintro ⟨rest⟩ v l hrest
    cases rest with
    | empty => cases hrest
    | falseOnly =>
      obtain ⟨rfl, rfl⟩ := List.cons.inj hrest
      exact ⟨⟨empty⟩, rfl, rfl⟩
    | trueOnly =>
      obtain ⟨rfl, rfl⟩ := List.cons.inj hrest
      exact ⟨⟨empty⟩, rfl, rfl⟩
    | both =>
      obtain ⟨rfl, rfl⟩ := List.cons.inj hrest
      exact ⟨⟨trueOnly⟩, rfl, rfl⟩

theorem countsDown_iter : Iterator.CountsDown Iter := by
  rintro ⟨rest⟩
  cases rest <;> rfl

end BoolSet

namespace BoolBag

theorem toList_eq (b : BoolBag) :
    b.toList = List.replicate b.falses false ++ List.replicate b.trues true := by
  obtain ⟨falses, trues⟩ := b
  cases falses <;> cases trues <;> simp [toList, distinct]

theorem length_toList (b : BoolBag) : b.toList.length = b.size := by
  rw [toList_eq, List.length_append, List.length_replicate, List.length_replicate, size]

theorem handsOut_iter (b : BoolBag) : Iterator.HandsOut b.iter b.toList := by
  refine Iterator.handsOut_of_left (fun it l => it.rest.toList = l) ?_ ?_ rfl
  · rintro ⟨falses, trues⟩ hrest
    rw [toList_eq] at hrest
    cases falses with
    | succ falses => cases hrest
    | zero =>
      cases trues with
      | succ trues => cases hrest
      | zero => exact ⟨⟨⟨0, 0⟩⟩, rfl, rfl⟩
  · rintro ⟨falses, trues⟩ v l hrest
    rw [toList_eq] at hrest
    cases falses with
    | succ falses =>
      obtain ⟨rfl, rfl⟩ := List.cons.inj hrest
      exact ⟨⟨⟨falses, trues⟩⟩, rfl, toList_eq _⟩
    | zero =>
      cases trues with
      | zero => cases hrest
      | succ trues =>
        obtain ⟨rfl, rfl⟩ := List.cons.inj hrest
        exact ⟨⟨⟨0, trues⟩⟩, rfl, toList_eq _⟩

theorem countsDown_iter : Iterator.CountsDown Iter := by
  rintro ⟨falses, trues⟩
  rcases falses with _ | falses
  · cases trues <;> rfl
  · show falses + trues = falses + 1 + trues - 1
    omega

end BoolBag

/-! ### Tallies -/

namespace Tally

theorem Iter.step_of_looking {it : Iter α} (h : ∀ a n, it.current ≠ some (a, n + 1)) :
    it.step =
      match it.entries with
      | (a, n) :: rest => (some a, ⟨rest, some (a, n - 1), it.remaining - 1⟩)
      | [] => (none, it) := by
  rw [step]
  split
  · next a n hcurrent => exact absurd hcurrent (h a n)
  · rfl

/-- An iterator over a tally has the occurrences of one element at hand, and a run for each entry
not yet begun. -/
theorem Iter.byRuns : Iterator.ByRuns (Iter α) Iter.current Iter.entries where
  more := by
    intro it a n hcurrent
    refine ⟨{ it with current := some (a, n), remaining := it.remaining - 1 }, ?_, rfl, rfl⟩
    show it.step = _
    rw [step, hcurrent]
  begun := by
    intro it a n rest hlooking hentries
    refine ⟨⟨rest, some (a, n - 1), it.remaining - 1⟩, (step_of_looking hlooking).trans ?_,
      rfl, rfl⟩
    rw [hentries]
  ended := by
    intro it hlooking hentries
    refine ⟨it, (step_of_looking hlooking).trans ?_, rfl, hentries⟩
    rw [hentries]

variable {t : Tally α}

theorem handsOut_iter (ht : t.Sound) : Iterator.HandsOut t.iter t.toList :=
  Iter.byRuns.handsOut ht.proper.count_ne

theorem countsDown_iter : Iterator.CountsDown (Iter α) := by
  intro it
  show (it.step.2).remaining = it.remaining - it.step.1.toList.length
  obtain ⟨entries, current, remaining⟩ := it
  rcases current with _ | ⟨a, _ | n⟩ <;> cases entries <;> rfl

theorem length_toList (ht : t.Sound) : t.toList.length = t.size := by
  rw [toList, length_occurrences, size, ht.total_eq]

theorem Sound.inRuns [DecidableEq α] (ht : t.Sound) :
    InRuns id t.occurrencesOf t.toList t.distinct where
  eq_occurrences := rfl
  nodup := ht.proper.nodup
  count_eq := fun _ he => ht.proper.mem_iff.1 he
  complete := fun _ ha => ht.proper.countIn_ne_zero_iff.1 ha

end Tally

/-! ### All iterators -/

/-- **Iterators tell exactly how many items are left, and hand out everything.**  An iterator over a
container that operations lead to says at all times how many items are left: as many calls as that
hand out the rest of the elements, and all further ones nothing.  Altogether it hands out each
element as often as it occurs, one time right after the other, and an iterator over the distinct
values of a bag hands out each of them once, with its count. -/
theorem iterators_exact :
    (∀ (k : Kind) (s : ScalarSet k), s.Reachable → Iterator.Exact s.iter s.toList ∧
      InRuns Scalar.key (fun v => (s.contains v).toNat) s.toList
        (s.toList.map fun v => (v, 1))) ∧
    (∀ (k : Kind) (b : ScalarBag k), b.Reachable → Iterator.Exact b.iter b.toList ∧
      Iterator.Exact b.distinctIter b.distinct ∧
      InRuns Scalar.key b.occurrencesOf b.toList b.distinct) ∧
    (∀ s : BoolSet, Iterator.Exact s.iter s.toList ∧
      InRuns id (fun v => (s.contains v).toNat) s.toList (s.toList.map fun v => (v, 1))) ∧
    (∀ b : BoolBag, b.Reachable → Iterator.Exact b.iter b.toList ∧
      InRuns id b.occurrencesOf b.toList b.distinct) ∧
    (∀ (α : Type) [DecidableEq α] (t : Tally α), t.Reachable → Iterator.Exact t.iter t.toList ∧
      InRuns id t.occurrencesOf t.toList t.distinct) := by
  refine ⟨fun k s hs => ⟨?_, ?_⟩, fun k b hb => ⟨?_, ?_, ?_⟩, fun s => ⟨?_, ?_⟩,
    fun b hb => ⟨?_, ?_⟩, fun α _ t ht => ⟨?_, ht.sound.inRuns⟩⟩
  · exact s.handsOut_iter.exact ScalarSet.countsDown_iter
      (ScalarSet.length_toList hs.sound).symm
  · exact (setLaws_scalarSet k).inRuns hs.sound
  · exact (ScalarBag.handsOut_iter hb.sound).exact ScalarBag.countsDown_iter
      (ScalarBag.length_toList hb.sound).symm
  · exact b.handsOut_distinctIter.exact ScalarBag.countsDown_distinct
      (ScalarBag.length_distinct hb.sound).symm
  · exact (bagLaws_scalarBag k).inRuns hb.sound
  · exact s.handsOut_iter.exact BoolSet.countsDown_iter (by cases s <;> rfl)
  · exact setLaws_boolSet.inRuns trivial
  · exact b.handsOut_iter.exact BoolBag.countsDown_iter b.length_toList.symm
  · exact bagLaws_boolBag.inRuns hb.size_le
  · exact (Tally.handsOut_iter ht.sound).exact Tally.countsDown_iter
      (Tally.length_toList ht.sound).symm

/-- For example a bag from which the second of three bytes was taken away: after three calls two
occurrences are left, after five none, and after seven still none. -/
theorem iterators_exact_removed :
    let byte : ℕ → Scalar .u8 := fun n => (Scalar.ofBits? .u8 (UInt64.ofNat n)).getD default
    let b := ((((ScalarBag.empty.addOccurrences (byte 5) 3).val.2.addOccurrences
      (byte 7) 2).val.2.addOccurrences (byte 9) 2).val.2.removeOccurrences (byte 7) 4).2
    b.table.tombstones = 1 ∧ b.toList.map Scalar.bits = [9, 9, 5, 5, 5] ∧
      Iterator.remaining (Iterator.take b.iter 3).2 = 2 ∧
      Iterator.remaining (Iterator.take b.iter 5).2 = 0 ∧
      Iterator.remaining (Iterator.take b.iter 7).2 = 0 ∧
      Iterator.HandsOut (Iterator.take b.iter 7).2 [] ∧
      Iterator.remaining (Iterator.take b.distinctIter 1).2 = 1 := by
  intro byte b
  have hb : b.Reachable :=
    .removeOccurrences (byte 7) 4
      (.addOccurrences (byte 9) 2 (.addOccurrences (byte 7) 2 (.addOccurrences (byte 5) 3 .empty)))
  obtain ⟨-, hbag, -⟩ := iterators_exact
  obtain ⟨hiter, hdistinct, -⟩ := hbag .u8 b hb
  obtain ⟨htomb, hbits, hlength, htwo⟩ : b.table.tombstones = 1 ∧
      b.toList.map Scalar.bits = [9, 9, 5, 5, 5] ∧ b.toList.length = 5 ∧ b.distinct.length = 2 := by
    simp only [b, byte]
    decide +kernel
  have hend : b.toList.drop 7 = [] := List.drop_eq_nil_of_le (by omega)
  refine ⟨htomb, hbits, ?_, ?_, ?_, hend ▸ hiter.handsOut 7, ?_⟩
  · rw [hiter.remaining, List.length_drop, hlength]
  · rw [hiter.remaining, List.length_drop, hlength]
  · rw [hiter.remaining, List.length_drop, hlength]
  · rw [hdistinct.remaining, List.length_drop, htwo]

end Slotted
