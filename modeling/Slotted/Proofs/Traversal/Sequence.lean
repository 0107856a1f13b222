import Slotted.Proofs.Guarded.Scope
import Slotted.Proofs.Traversal.Iterator
import Slotted.Proofs.Traversal.Ranges

/-!
# One sequence for all traversals

A set or a bag can be gone through by an iterator, range by range, in pieces that threads consume on
their own, and from outside of a lock.  All of these come to the same elements in the same order.
Where a piece is consumed only in part, that is a beginning of it; and a result that can be put
together from those of the pieces does not depend on where the cuts are.

## Main definitions

* `Consumer.ConsumedTo` — what comes of elements of which a full result may leave the last ones.
* `Consumer.Lawful` — the result of a list can be put together from those of two parts of it.
* `TraversedAs` — every way through a collection comes to the elements of one list.

## Main results

* `Consumer.consumedTo_feed` — what is consumed is a beginning.
* `Consumer.Lawful.drive_eq` — a lawful consumer consumes all elements, wherever the cuts are.
* `GuardPost.run_visit` — visiting a guarded collection, in ranges of any positions.
* `traversals_agree` — sets and bags.
-/

namespace Slotted

/-! ### Consuming elements -/

namespace Consumer

variable {α ρ : Type} {f : Consumer α ρ}

/-- The second result comes from the first by consuming the elements of a beginning of the list, and
of all of it unless the second is full. -/
def ConsumedTo (f : Consumer α ρ) (l : List α) (r r' : ρ) : Prop :=
  ∃ l', l' <+: l ∧ r' = l'.foldl f.consume r ∧ (l' = l ∨ f.full r' = true)

theorem ConsumedTo.append_of_full {l : List α} {r r' : ρ} (h : f.ConsumedTo l r r')
    (hfull : f.full r' = true) (rest : List α) : f.ConsumedTo (l ++ rest) r r' := by
  obtain ⟨l', hpre, hr', -⟩ := h
  exact ⟨l', hpre.trans (List.prefix_append l rest), hr', Or.inr hfull⟩

theorem ConsumedTo.append_of_not_full {l rest : List α} {r r' r'' : ρ} (h : f.ConsumedTo l r r')
    (hfull : f.full r' = false) (hrest : f.ConsumedTo rest r' r'') :
    f.ConsumedTo (l ++ rest) r r'' := by
  obtain ⟨l', -, rfl, rfl | hfull'⟩ := h
  · obtain ⟨l'', hpre, rfl, hall⟩ := hrest
    refine ⟨l' ++ l'', (List.prefix_append_right_inj l').2 hpre, List.foldl_append.symm, ?_⟩
    exact hall.imp (congrArg (l' ++ ·)) id
  · rw [hfull] at hfull'
    cases hfull'

theorem consumedTo_nil (r : ρ) : f.ConsumedTo [] r r := ⟨[], List.prefix_rfl, rfl, Or.inl rfl⟩

theorem consumedTo_singleton (a : α) (r : ρ) : f.ConsumedTo [a] r (f.consume r a) :=
  ⟨[a], List.prefix_rfl, rfl, Or.inl rfl⟩

theorem consumedTo_feedRun (a : α) (n : ℕ) (r : ρ) :
    f.ConsumedTo (List.replicate n a) r (f.feedRun a n r) := by
  induction n generalizing r with
  | zero => exact consumedTo_nil r
  | succ n ih =>
    rw [feedRun, List.replicate_succ, ← List.singleton_append]
    split
    · next hfull => exact (consumedTo_singleton a r).append_of_full hfull _
    · next hfull =>
      exact (consumedTo_singleton a r).append_of_not_full (Bool.eq_false_iff.2 hfull) (ih _)

/-- What is consumed of some elements is a beginning, and all of them unless the result is full. -/
theorem consumedTo_feed (runs : List (α × ℕ)) (r : ρ) :
    f.ConsumedTo (occurrences runs) r (f.feed runs r) := by
  induction runs generalizing r with
  | nil => exact consumedTo_nil r
  | cons run rest ih =>
    obtain ⟨a, n⟩ := run
    have hrun := consumedTo_feedRun (f := f) a n r
    rw [occurrences_cons]
    show f.ConsumedTo _ r
      (if f.full (f.feedRun a n r) then f.feedRun a n r else f.feed rest (f.feedRun a n r))
    split
    · next hfull => exact hrun.append_of_full hfull _
    · next hfull => exact hrun.append_of_not_full (Bool.eq_false_iff.2 hfull) (ih _)

/-- The result of a list can be put together from those of two parts of it, and a full result does
not change any more. -/
structure Lawful (f : Consumer α ρ) : Prop where
  /-- Putting together the results of two lists. -/
  combine_foldl : ∀ l l' : List α, f.combine (l.foldl f.consume f.init) (l'.foldl f.consume f.init)
    = (l ++ l').foldl f.consume f.init
  /-- Nothing changes a full result. -/
  consume_full : ∀ r a, f.full r = true → f.consume r a = r

theorem Lawful.foldl_full (h : f.Lawful) {r : ρ} (hfull : f.full r = true) (l : List α) :
    l.foldl f.consume r = r := by
  induction l with
  | nil => rfl
  | cons a l ih => rw [List.foldl_cons, h.consume_full r a hfull, ih]

theorem Lawful.feed_eq (h : f.Lawful) (runs : List (α × ℕ)) (r : ρ) :
    f.feed runs r = (occurrences runs).foldl f.consume r := by
  obtain ⟨l, ⟨rest, hrest⟩, hfeed, hall | hfull⟩ := consumedTo_feed (f := f) runs r
  · rw [hfeed, hall]
  · rw [← hrest, List.foldl_append, ← hfeed, h.foldl_full hfull]

/-- The result of a traversal is that of all elements at once. -/
theorem Lawful.driveSpan_eq {C : Type} [Positioned C α] {c : C} (h : f.Lawful) (hc : Pointwise c)
    (cuts : Cuts) {s : Span} (hle : s.start ≤ s.stop) :
    f.driveSpan c cuts s = (visit c s.start s.stop).foldl f.consume f.init := by
  induction cuts generalizing s with
  | none => exact h.feed_eq _ _
  | halves left right ihl ihr =>
    rw [driveSpan]
    split
    · next m hm =>
      obtain ⟨hstart, hstop⟩ := Span.middle?_between hm hle
      have hl := ihl (s := ⟨s.start, m⟩) hstart
      have hr := ihr (s := ⟨m, s.stop⟩) hstop
      rw [hl, hr, h.combine_foldl, hc.visit_append hstart hstop]
    · exact h.feed_eq _ _

theorem Lawful.drive_eq {C : Type} [Positioned C α] {c : C} (h : f.Lawful) (hc : Pointwise c)
    (cuts : Cuts) :
    f.drive c cuts = (visit c 0 (positions c)).foldl f.consume f.init :=
  h.driveSpan_eq hc cuts (s := ⟨0, positions c⟩) (Nat.zero_le _)

/-! ### The consumers at hand -/

theorem foldl_collect (l : List α) : l.foldl collect.consume collect.init = l.toArray := by
  show l.foldl Array.push #[] = l.toArray
  simp

theorem foldl_count (l : List α) :
    l.foldl (count (α := α)).consume (count (α := α)).init = l.length := by
  show l.foldl (fun n _ => n + 1) 0 = l.length
  simp

theorem foldl_first (p : α → Bool) (l : List α) (found : Option α) :
    l.foldl (first p).consume found = found.or (l.find? p) := by
  induction l generalizing found with
  | nil => exact (Option.or_none).symm
  | cons a l ih =>
    rw [List.foldl_cons, ih, List.find?_cons]
    show (found.or (if p a then some a else none)).or _ = _
    rw [Option.or_assoc]
    cases p a <;> rfl

theorem foldl_any (p : α → Bool) (l : List α) (found : Bool) :
    l.foldl (any p).consume found = (found || l.any p) := by
  induction l generalizing found with
  | nil => exact (Bool.or_false found).symm
  | cons a l ih =>
    rw [List.foldl_cons, ih, List.any_cons, ← Bool.or_assoc]
    rfl

theorem lawful_collect : (collect : Consumer α (Array α)).Lawful where
  combine_foldl l l' := by
    rw [foldl_collect, foldl_collect, foldl_collect]
    exact List.append_toArray l l'
  consume_full r a hfull := by cases hfull

theorem lawful_count : (count : Consumer α ℕ).Lawful where
  combine_foldl l l' := by
    rw [foldl_count, foldl_count, foldl_count]
    exact List.length_append.symm
  consume_full r a hfull := by cases hfull

theorem lawful_first (p : α → Bool) : (first p).Lawful where
  combine_foldl l l' := by
    rw [foldl_first, foldl_first, foldl_first, List.find?_append]
    rfl
  consume_full found a hfull := by
    obtain ⟨b, rfl⟩ := Option.isSome_iff_exists.1 hfull
    rfl

theorem lawful_any (p : α → Bool) : (any p).Lawful where
  combine_foldl l l' := by
    rw [foldl_any, foldl_any, foldl_any, List.any_append]
    rfl
  consume_full found a hfull := by
    have hfound : found = true := hfull
    rw [hfound]
    rfl

end Consumer

/-! ### All ways through a collection -/

/-- Visiting a guarded collection never aborts once it has its shared hold, and comes to what the
collection has of the range. -/
theorem GuardPost.run_visit {C α : Type} [Positioned C α] {p : GuardPost C} {i : ℕ}
    (hc : Pointwise (p.delegate i)) (hhold : (p.acquire i .shared).1 = .ok ())
    (innermost : Option ℕ) (start stop : ℕ) :
    (Command.visit i start stop).run innermost p
      = (.ok (.scope [.value (some (heldBetween (p.delegate i) start stop))] []),
          { p with views := p.views.push ⟨i, .shared, false⟩ }) := by
  rw [Command.visit, run_scope_read hhold, hc.visitPart?_eq]

/-- Every way through a collection comes to the elements of the list in their order: the iterator
over it, ranges, what threads make of its pieces, and visits from outside of a lock. -/
structure TraversedAs {C I α : Type} [Positioned C α] [Iterator I α] (c : C) (it : I)
    (l : List α) : Prop where
  /-- The iterator hands out the elements and then nothing. -/
  handsOut : Iterator.HandsOut it l
  /-- The iterator knows how many elements there are. -/
  items : Iterator.items it = l
  /-- Ranges that lead from the first position to the last hold the elements. -/
  ranges : ∀ spans, Consecutive 0 (positions c) spans → visitEach? c spans = some l
  /-- The batches of a plan do. -/
  batches : ∀ p : Plan, p.len = positions c → visitEach? c p.spans = some l
  /-- The pieces do that threads are given, wherever the cuts are. -/
  pieces : ∀ cuts : Cuts, visitEach? c (cuts.pieces ⟨0, positions c⟩) = some l
  /-- Of a piece a beginning is consumed, and all of it unless the result is full. -/
  consumed : ∀ {ρ : Type} (f : Consumer α ρ) (start stop : ℕ) (r : ρ),
    f.ConsumedTo (visit c start stop) r (f.feed (runs c start stop) r)
  /-- The results of the pieces together are the result of all elements. -/
  driven : ∀ {ρ : Type} (f : Consumer α ρ), f.Lawful →
    ∀ cuts, f.drive c cuts = l.foldl f.consume f.init
  /-- Threads collect the elements. -/
  collected : ∀ cuts, Consumer.collect.drive c cuts = l.toArray
  /-- Threads count the elements. -/
  counted : ∀ cuts, Consumer.count.drive c cuts = l.length
  /-- Threads find the first element that satisfies a predicate. -/
  first : ∀ (p : α → Bool) cuts, (Consumer.first p).drive c cuts = l.find? p
  /-- Threads find out whether there is such an element. -/
  any : ∀ (p : α → Bool) cuts, (Consumer.any p).drive c cuts = l.any p
  /-- A guarded collection has the elements of a range of any positions that its delegate has. -/
  guarded : ∀ word start stop,
    visit (⟨c, word⟩ : Guarded C) start stop = heldBetween c start stop
  /-- From outside of a lock a range of any positions is visited, once there is a shared hold. -/
  visited : ∀ (p : GuardPost C) (i : ℕ), p.delegate i = c → (p.acquire i .shared).1 = .ok () →
    ∀ innermost start stop, (Command.visit i start stop).run innermost p
      = (.ok (.scope [.value (some (heldBetween c start stop))] []),
          { p with views := p.views.push ⟨i, .shared, false⟩ })
  /-- Such a range holds nothing if it begins behind its last position in the collection. -/
  outside : ∀ start stop, min stop (positions c) ≤ start → heldBetween c start stop = []
  /-- Ranges of any positions that lead from the first one to the last and on hold the elements. -/
  beyond : ∀ stop spans, Consecutive 0 stop spans → positions c ≤ stop →
    spans.flatMap (fun s => heldBetween c s.start s.stop) = l

/-- A collection that holds something at each position is gone through in the order of the
positions. -/
theorem Pointwise.traversedAs {C I α : Type} [Positioned C α] [Iterator I α] {c : C} {it : I}
    {l : List α} (hc : Pointwise c) (hall : visit c 0 (positions c) = l)
    (hit : Iterator.HandsOut it l) (hitems : Iterator.items it = l) : TraversedAs c it l := by
  have hranges : ∀ spans, Consecutive 0 (positions c) spans → visitEach? c spans = some l := by
    intro spans hspans
    rw [hc.visitEach?_eq hspans le_rfl, hall]
  have hdriven : ∀ {ρ : Type} (f : Consumer α ρ), f.Lawful →
      ∀ cuts, f.drive c cuts = l.foldl f.consume f.init := by
    intro ρ f hf cuts
    rw [hf.drive_eq hc, hall]
  refine
    { handsOut := hit
      items := hitems
      ranges := hranges
      batches := ?_
      pieces := ?_
      consumed := fun f start stop r => Consumer.consumedTo_feed (runs c start stop) r
      driven := hdriven
      collected := ?_
      counted := ?_
      first := ?_
      any := ?_
      guarded := hc.visit_guarded
      visited := ?_
      outside := fun start stop h => heldBetween_eq_nil h
      beyond := ?_ }
  · intro p hp
    have hspans := p.consecutive_spans
    rw [hp] at hspans
    exact hranges _ hspans
  · intro cuts
    exact hranges _ (cuts.consecutive_pieces (s := ⟨0, positions c⟩) (Nat.zero_le _))
  · intro cuts
    rw [hdriven _ Consumer.lawful_collect, Consumer.foldl_collect]
  · intro cuts
    rw [hdriven _ Consumer.lawful_count, Consumer.foldl_count]
  · intro p cuts
    rw [hdriven _ (Consumer.lawful_first p), Consumer.foldl_first]
    rfl
  · intro p cuts
    rw [hdriven _ (Consumer.lawful_any p), Consumer.foldl_any]
    rfl
  · rintro p i rfl hhold innermost start stop
    exact GuardPost.run_visit hc hhold innermost start stop
  · intro stop spans hspans hstop
    rw [hc.flatMap_heldBetween hspans, hc.heldBetween_all hstop, hall]

/-- Every set and every bag is gone through in one order, whichever way.  A bag comes to each value
as often as it occurs. -/
theorem traversals_agree (k : Kind) :
    (∀ s : ScalarSet k, s.Reachable → TraversedAs s s.iter s.toList) ∧
      ∀ b : ScalarBag k, b.Reachable → TraversedAs b b.iter (occurrences b.distinct) := by
  constructor
  · intro s hs
    exact (pointwise_scalarSet s).traversedAs s.visit_all s.handsOut_iter
      (ScalarSet.items_iter hs.sound)
  · intro b hb
    exact (pointwise_scalarBag b).traversedAs b.visit_all (ScalarBag.handsOut_iter hb.sound)
      (ScalarBag.items_iter hb.sound)

/-- For example a set that has lost its second value and keeps a tombstone, and a bag with two
occurrences of one value. -/
theorem traversals_agree_tombstone :
    let one : Scalar .u8 := ⟨1, by decide⟩
    let two : Scalar .u8 := ⟨2, by decide⟩
    let three : Scalar .u8 := ⟨3, by decide⟩
    let s := ((ScalarSet.empty.extend [one, two, three]).val.remove two).2
    let b := ((ScalarBag.empty.extend [one, two, three, one]).val.2.remove two).2
    s.Reachable ∧ b.Reachable ∧ s.table.tombstones = 1 ∧
      (∃ l, TraversedAs s s.iter l ∧ l.length = 2 ∧ one ∈ l ∧ three ∈ l) ∧
      ∃ l, TraversedAs b b.iter l ∧ l.length = 3 ∧ l.count one = 2 ∧ three ∈ l := by
  intro one two three s b
  obtain ⟨hsets, hbags⟩ := traversals_agree .u8
  have hs : s.Reachable := .remove _ (.extend _ .empty)
  have hb : b.Reachable := .remove _ (.extend _ .empty)
  have htomb : s.table.tombstones = 1 := by
    simp only [s, one, two, three]
    decide +kernel
  refine ⟨hs, hb, htomb, ⟨_, hsets s hs, ?_⟩, ⟨_, hbags b hb, ?_⟩⟩
  · simp only [s, one, two, three]
    decide +kernel
  · simp only [b, one, two, three]
    decide +kernel

end Slotted
