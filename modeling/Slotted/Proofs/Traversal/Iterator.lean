import Slotted.Proofs.Reachable
import Slotted.Proofs.Table.Filter
import Slotted.ScalarBag.Iter
import Slotted.ScalarSet.Iter

/-!
# What iterators hand out

An iterator looks for its next live slot and stands behind it afterwards.  So the live slots from
where it stands are those that it still has to come to, and in a bag the occurrences of the value it
came to last stand before them.

## Main definitions

* `Iterator.HandsOut` — an iterator hands out the elements of a list and then nothing.
* `Iterator.ByRuns` — an iterator over runs of elements, one at a time.

## Main results

* `Iterator.ByRuns.handsOut` — all runs are handed out, if none is empty.
* `Table.nextLive_cases` — the next live slot is the first of those from a position on.
* `Iterator.handsOut_of_nextLive` — an item for each live slot is handed out.
* `ScalarSet.handsOut_iter`, `ScalarBag.handsOut_iter` — iterators over sets and bags.
* `Iterator.HandsOut.items_eq` — the list is that of the items of the iterator.
-/

namespace Slotted

variable {k : Kind} {P : Type}

/-! ### Iterators in general -/

/-- The iterator hands out the elements of a list, one at each call, and then nothing however often
it is called. -/
def Iterator.HandsOut {I α : Type} [Iterator I α] (it : I) (l : List α) : Prop :=
  ∀ n, (Iterator.take it n).1 = (l.take n).map some ++ List.replicate (n - l.length) none

/-- What an iterator hands out is what it has left, if a call takes the first element of that off
and changes nothing when there is none. -/
theorem Iterator.handsOut_of_left {I α : Type} [Iterator I α] (left : I → List α → Prop)
    (hnil : ∀ it, left it [] → ∃ it', Iterator.step it = (none, it') ∧ left it' [])
    (hcons : ∀ it a l, left it (a :: l) → ∃ it', Iterator.step it = (some a, it') ∧ left it' l)
    {it : I} {l : List α} (h : left it l) : Iterator.HandsOut it l := by
  intro n
  induction n generalizing it l with
  | zero => simp [Iterator.take]
  | succ n ih =>
    cases l with
    | nil =>
      obtain ⟨it', hstep, hleft⟩ := hnil it h
      have hrest := ih hleft
      rw [List.take_nil, List.map_nil, List.nil_append, List.length_nil, Nat.sub_zero] at hrest ⊢
      simp only [Iterator.take, hstep, hrest, List.replicate_succ]
    | cons a l =>
      obtain ⟨it', hstep, hleft⟩ := hcons it a l h
      have hrest := ih hleft
      simp only [Iterator.take, hstep, hrest, List.take_succ_cons, List.map_cons, List.cons_append,
        List.length_cons, Nat.add_sub_add_right]

/-- An iterator that knows how many elements are left has these as its items. -/
theorem Iterator.HandsOut.items_eq {I α : Type} [Iterator I α] {it : I} {l : List α}
    (h : Iterator.HandsOut it l) (hremaining : Iterator.remaining it = l.length) :
    Iterator.items it = l := by
  rw [Iterator.items, h, hremaining, List.take_length, Nat.sub_self, List.replicate_zero,
    List.append_nil, List.filterMap_map]
  exact List.filterMap_some

/-! ### Iterators that go by runs -/

/-- An iterator that has a number of occurrences of one element at hand, and runs of elements not
yet begun.  It hands out what is at hand, and then begins the next run. -/
structure Iterator.ByRuns (I : Type) {α : Type} [Iterator I α] (current : I → Option (α × ℕ))
    (runs : I → List (α × ℕ)) : Prop where
  /-- One of those at hand is handed out. -/
  more : ∀ {it a n}, current it = some (a, n + 1) →
    ∃ it', step it = (some a, it') ∧ current it' = some (a, n) ∧ runs it' = runs it
  /-- If there are none, the next run is begun. -/
  begun : ∀ {it a n rest}, (∀ b m, current it ≠ some (b, m + 1)) → runs it = (a, n) :: rest →
    ∃ it', step it = (some a, it') ∧ current it' = some (a, n - 1) ∧ runs it' = rest
  /-- If there are no more runs, it stays there. -/
  ended : ∀ {it}, (∀ b m, current it ≠ some (b, m + 1)) → runs it = [] →
    ∃ it', step it = (none, it') ∧ current it' = current it ∧ runs it' = []

theorem elim_replicate_eq_nil {α : Type} {c : Option (α × ℕ)} (h : ∀ b m, c ≠ some (b, m + 1)) :
    (c.elim [] fun c => List.replicate c.2 c.1) = [] := by
  rcases c with _ | ⟨b, _ | m⟩
  · rfl
  · rfl
  · exact absurd rfl (h b m)

/-- An iterator that goes by runs hands out the occurrences at hand and all runs, if none of these
is empty. -/
theorem Iterator.ByRuns.handsOut {I α : Type} [Iterator I α] {current : I → Option (α × ℕ)}
    {runs : I → List (α × ℕ)} (h : ByRuns I current runs) {it : I}
    (hpos : ∀ e ∈ runs it, e.2 ≠ 0) :
    HandsOut it
      (((current it).elim [] fun c => List.replicate c.2 c.1) ++ occurrences (runs it)) := by
  refine handsOut_of_left
    (fun it l => (∀ e ∈ runs it, e.2 ≠ 0) ∧
      ((current it).elim [] fun c => List.replicate c.2 c.1) ++ occurrences (runs it) = l)
    ?_ ?_ ⟨hpos, rfl⟩
  · rintro it ⟨hpos, hleft⟩
    rw [List.append_eq_nil_iff] at hleft
    have hlooking : ∀ b m, current it ≠ some (b, m + 1) := by
      intro b m hcurrent
      rw [hcurrent] at hleft
      cases hleft.1
    have hnone : runs it = [] := by
      rcases hruns : runs it with _ | ⟨⟨a, _ | n⟩, rest⟩
      · rfl
      · exact absurd rfl (hpos (a, 0) (hruns ▸ List.mem_cons_self))
      · rw [hruns] at hleft
        cases hleft.2
    obtain ⟨it', hstep, hcurrent, hruns⟩ := h.ended hlooking hnone
    refine ⟨it', hstep, by rw [hruns]; exact fun _ he => absurd he List.not_mem_nil, ?_⟩
    rw [hcurrent, hruns, hleft.1]
    rfl
  · rintro it a l ⟨hpos, hleft⟩
    by_cases hmore : ∃ b m, current it = some (b, m + 1)
    · obtain ⟨b, m, hcurrent⟩ := hmore
      obtain ⟨it', hstep, hcurrent', hruns⟩ := h.more hcurrent
      rw [hcurrent] at hleft
      obtain ⟨rfl, rfl⟩ := List.cons.inj hleft
      refine ⟨it', hstep, by rwa [hruns], ?_⟩
      rw [hcurrent', hruns]
      rfl
    · have hlooking : ∀ b m, current it ≠ some (b, m + 1) := fun b m heq => hmore ⟨b, m, heq⟩
      rw [elim_replicate_eq_nil hlooking, List.nil_append] at hleft
      rcases hruns : runs it with _ | ⟨⟨b, _ | n⟩, rest⟩
      · rw [hruns] at hleft
        cases hleft
      · exact absurd rfl (hpos (b, 0) (hruns ▸ List.mem_cons_self))
      · obtain ⟨it', hstep, hcurrent', hruns'⟩ := h.begun hlooking hruns
        rw [hruns] at hleft hpos
        obtain ⟨rfl, rfl⟩ := List.cons.inj hleft
        refine ⟨it', hstep, ?_, ?_⟩
        · rw [hruns']
          exact fun e he => hpos e (List.mem_cons_of_mem _ he)
        · rw [hcurrent', hruns']
          rfl

/-! ### Looking for a live slot -/

namespace Table

/-- There is no live slot from a position on, or there is a first one, and the others are those from
behind it on. -/
theorem nextLive_cases (t : Table k P) (i : ℕ) :
    (t.nextLive i = none ∧ t.scan i t.capacity = []) ∨
      ∃ e, t.nextLive i = some e ∧ t.scan i t.capacity = e :: t.scan (e.slot + 1) t.capacity := by
  have hfrom : ∀ fuel i, t.capacity - i = fuel →
      (t.nextLiveFrom fuel i = none ∧ t.scan i t.capacity = []) ∨
        ∃ e, t.nextLiveFrom fuel i = some e ∧
          t.scan i t.capacity = e :: t.scan (e.slot + 1) t.capacity := by
    intro fuel
    induction fuel with
    | zero =>
      intro i hfuel
      refine Or.inl ⟨rfl, ?_⟩
      rw [scan, hfuel]
      rfl
    | succ fuel ih =>
      intro i hfuel
      have hlt : i < t.capacity := by omega
      rw [nextLiveFrom, t.scan_of_lt hlt]
      split
      · next v p hslot =>
        -- the slot is live, so it is the first
        rw [entryAt?_of_live hslot]
        exact Or.inr ⟨⟨i, v, p⟩, rfl, rfl⟩
      · next hslot =>
        rw [entryAt?_of_not_live hslot, Option.toList_none, List.nil_append]
        exact ih (i + 1) (by omega)
  exact hfrom _ i rfl

theorem scan_capacity (t : Table k P) : t.scan t.capacity t.capacity = [] := by
  rw [scan, Nat.sub_self]
  rfl

end Table

/-- An iterator that goes to the next live slot at each call hands out an item for each live slot
from where it stands. -/
theorem Iterator.handsOut_of_nextLive {I α : Type} [Iterator I α] (table : I → Table k P)
    (next : I → ℕ) (item : Entry k P → α)
    (hnone : ∀ it, (table it).nextLive (next it) = none → ∃ it', Iterator.step it = (none, it') ∧
      table it' = table it ∧ next it' = (table it).capacity)
    (hsome : ∀ it e, (table it).nextLive (next it) = some e →
      ∃ it', Iterator.step it = (some (item e), it') ∧ table it' = table it ∧
        next it' = e.slot + 1)
    (it : I) : HandsOut it (((table it).scan (next it) (table it).capacity).map item) := by
  refine handsOut_of_left
    (fun it l => ((table it).scan (next it) (table it).capacity).map item = l) ?_ ?_ rfl
  · intro it hleft
    rcases (table it).nextLive_cases (next it) with ⟨hend, -⟩ | ⟨e, -, hscan⟩
    · obtain ⟨it', hstep, htable, hnext⟩ := hnone it hend
      refine ⟨it', hstep, ?_⟩
      rw [htable, hnext, Table.scan_capacity]
      rfl
    · rw [hscan] at hleft
      cases hleft
  · intro it a l hleft
    rcases (table it).nextLive_cases (next it) with ⟨-, hscan⟩ | ⟨e, hfound, hscan⟩
    · rw [hscan] at hleft
      cases hleft
    · rw [hscan, List.map_cons] at hleft
      obtain ⟨rfl, rfl⟩ := List.cons.inj hleft
      obtain ⟨it', hstep, htable, hnext⟩ := hsome it e hfound
      refine ⟨it', hstep, ?_⟩
      rw [htable, hnext]

/-! ### Sets -/

namespace ScalarSet

/-- An iterator over a set hands out the values of the live slots from where it stands. -/
theorem Iter.handsOut (it : Iter k) : Iterator.HandsOut it it.rest := by
  refine Iterator.handsOut_of_nextLive Iter.table Iter.next Entry.value ?_ ?_ it
  · intro it hnone
    refine ⟨{ it with next := it.table.capacity }, ?_, rfl, rfl⟩
    show it.step = _
    rw [step, hnone]
  · intro it e hsome
    refine ⟨{ it with next := e.slot + 1, remaining := it.remaining - 1 }, ?_, rfl, rfl⟩
    show it.step = _
    rw [step, hsome]

theorem handsOut_iter (s : ScalarSet k) : Iterator.HandsOut s.iter s.toList := s.iter.handsOut

theorem items_iter {s : ScalarSet k} (hs : s.table.Sound) : Iterator.items s.iter = s.toList :=
  s.handsOut_iter.items_eq (length_toList hs).symm

end ScalarSet

/-! ### Bags -/

theorem length_occurrences {α : Type} (es : List (α × ℕ)) :
    (occurrences es).length = (es.map Prod.snd).sum := by
  induction es with
  | nil => rfl
  | cons e es ih =>
    obtain ⟨a, n⟩ := e
    rw [occurrences_cons, List.length_append, List.length_replicate, ih, List.map_cons,
      List.sum_cons]

namespace ScalarBag

/-- The occurrences that an iterator over a bag has left: those of the value it came to last, and
those in the live slots from where it stands. -/
def Iter.left (it : Iter k) : List (Scalar k) :=
  (it.current.elim [] fun c => List.replicate c.2 c.1) ++
    occurrences ((it.table.scan it.next it.table.capacity).map fun e => (e.value, e.payload))

/-- No count in the table is zero. -/
def Iter.CountsPos (it : Iter k) : Prop := ∀ c ∈ it.table.contents, 0 < c.2

/-- The iterator has to look for the next value: it came to no value yet, or has none of its
occurrences left. -/
def Iter.Looking (it : Iter k) : Prop := ∀ v n, it.current ≠ some (v, n + 1)

theorem Iter.step_of_looking {it : Iter k} (h : it.Looking) :
    it.step =
      match it.table.nextLive it.next with
      | some e =>
        (some e.value, ⟨it.table, e.slot + 1, some (e.value, e.payload - 1), it.remaining - 1⟩)
      | none => (none, { it with next := it.table.capacity }) := by
  rw [step]
  split
  · next v n hcurrent => exact absurd hcurrent (h v n)
  · rfl

/-- An iterator over a bag has the occurrences of one value at hand, and a run for each live slot
from where it stands. -/
theorem Iter.byRuns : Iterator.ByRuns (Iter k) Iter.current fun it =>
    (it.table.scan it.next it.table.capacity).map fun e => (e.value, e.payload) where
  more := by
    intro it v n hcurrent
    refine ⟨{ it with current := some (v, n), remaining := it.remaining - 1 }, ?_, rfl, rfl⟩
    show it.step = _
    rw [step, hcurrent]
  begun := by
    intro it v n rest hlooking hruns
    rcases it.table.nextLive_cases it.next with ⟨-, hscan⟩ | ⟨e, hsome, hscan⟩
    · rw [hscan] at hruns
      cases hruns
    · rw [hscan] at hruns
      obtain ⟨heq, rfl⟩ := List.cons.inj hruns
      obtain ⟨rfl, rfl⟩ := Prod.mk.inj heq
      refine ⟨⟨it.table, e.slot + 1, some (e.value, e.payload - 1), it.remaining - 1⟩,
        (step_of_looking hlooking).trans ?_, rfl, rfl⟩
      rw [hsome]
  ended := by
    intro it hlooking hruns
    rcases it.table.nextLive_cases it.next with ⟨hnone, -⟩ | ⟨e, -, hscan⟩
    · refine ⟨{ it with next := it.table.capacity }, (step_of_looking hlooking).trans ?_, rfl, ?_⟩
      · rw [hnone]
      · rw [Table.scan_capacity]
        rfl
    · rw [hscan] at hruns
      cases hruns

/-- An iterator over a bag hands out what it has left. -/
theorem Iter.handsOut {it : Iter k} (hpos : it.CountsPos) : Iterator.HandsOut it it.left := by
  refine byRuns.handsOut fun c hc => ?_
  obtain ⟨e, he, rfl⟩ := List.mem_map.1 hc
  exact (hpos _ (Table.mem_contents_iff.2 ⟨e.slot, Table.getElem?_of_mem_scan he⟩)).ne'

theorem handsOut_iter {b : ScalarBag k} (hb : b.Sound) : Iterator.HandsOut b.iter b.toList := by
  have hpos : b.iter.CountsPos := hb.pos
  exact Iter.handsOut hpos

theorem length_toList {b : ScalarBag k} (hb : b.Sound) : b.toList.length = b.size := by
  show (occurrences b.distinct).length = b.total
  rw [length_occurrences, hb.total_eq, countSum, ← coe_distinct, Multiset.map_coe,
    Multiset.sum_coe]

theorem items_iter {b : ScalarBag k} (hb : b.Sound) : Iterator.items b.iter = b.toList :=
  (handsOut_iter hb).items_eq (length_toList hb).symm

end ScalarBag

end Slotted
