import Mathlib.Data.List.Intervals
import Slotted.Batch.Halving
import Slotted.Guarded.Calls
import Slotted.Proofs.Table.Filter

/-!
# Visiting a collection range by range

Collections that say for each position what it holds can be cut anywhere: what two neighbouring
ranges hold is what the range of both holds.  The ranges of a plan and the pieces of a traversal by
halving follow one another without gaps, so each of these ways to visit a collection comes to the
same elements in the same order.

## Main definitions

* `Consecutive` — ranges that follow one another from one position to another.
* `Pointwise` — what a range of a collection holds is what its positions hold.
* `heldBetween` — the elements at those positions of a range that the collection has.
* `visitEach?` — visiting ranges one after the other.

## Main results

* `Plan.consecutive_spans`, `Cuts.consecutive_pieces` — plans and cuts.
* `Pointwise.visitEach?_eq` — consecutive ranges hold what the range of all of them holds.
* `Pointwise.visitPart?_eq`, `Pointwise.flatMap_heldBetween` — ranges of any positions.
* `pointwise_scalarSet`, `pointwise_scalarBag` — sets and bags are such collections.
-/

namespace Slotted

/-! ### Consecutive ranges -/

/-- The ranges follow one another from the first position to the second, without gaps.  They may be
empty. -/
inductive Consecutive : ℕ → ℕ → List Span → Prop where
  /-- No ranges lead nowhere. -/
  | nil (i : ℕ) : Consecutive i i []
  /-- One more range in front. -/
  | cons {i j stop : ℕ} {spans : List Span} :
      i ≤ j → Consecutive j stop spans → Consecutive i stop (⟨i, j⟩ :: spans)

variable {i j stop : ℕ} {spans spans' : List Span}

theorem Consecutive.le (h : Consecutive i stop spans) : i ≤ stop := by
  induction h with
  | nil i => exact le_rfl
  | cons hle _ ih => exact hle.trans ih

theorem consecutive_singleton (h : i ≤ j) : Consecutive i j [⟨i, j⟩] := .cons h (.nil j)

theorem Consecutive.append (h : Consecutive i j spans) (h' : Consecutive j stop spans') :
    Consecutive i stop (spans ++ spans') := by
  induction h with
  | nil i => exact h'
  | cons hle _ ih => exact .cons hle (ih h')

/-- Each batch of a plan begins where the one before it ends. -/
theorem Plan.stop_span (p : Plan) (i : ℕ) : (p.span i).stop = (p.span (i + 1)).start := by
  show i * (p.len / p.count) + min i (p.len % p.count) + p.len / p.count
      + (if i < p.len % p.count then 1 else 0)
    = (i + 1) * (p.len / p.count) + min (i + 1) (p.len % p.count)
  rw [Nat.succ_mul]
  split <;> omega

theorem Plan.start_span_zero (p : Plan) : (p.span 0).start = 0 := by
  show 0 * (p.len / p.count) + min 0 (p.len % p.count) = 0
  rw [Nat.zero_mul, Nat.zero_min]

/-- The batches together end where the positions do. -/
theorem Plan.start_span_count (p : Plan) : (p.span p.count).start = p.len := by
  show p.count * (p.len / p.count) + min p.count (p.len % p.count) = p.len
  rcases Nat.eq_zero_or_pos p.count with hzero | hpos
  · have hlen : p.len = 0 := by
      by_contra hne
      have hcount := p.count_pos (Nat.pos_of_ne_zero hne)
      omega
    rw [hzero, hlen, Nat.zero_mul, Nat.zero_min]
  · rw [min_eq_right (Nat.mod_lt p.len hpos).le, Nat.div_add_mod]

/-- The ranges of a plan lead from the first position to the last. -/
theorem Plan.consecutive_spans (p : Plan) : Consecutive 0 p.len p.spans := by
  have hupTo : ∀ n, Consecutive 0 (p.span n).start ((List.range n).map p.span) := by
    intro n
    induction n with
    | zero =>
      rw [p.start_span_zero]
      exact .nil 0
    | succ n ih =>
      rw [List.range_succ, List.map_append, List.map_singleton, ← p.stop_span]
      refine ih.append (consecutive_singleton ?_)
      exact (Nat.le_add_right _ (p.len / p.count)).trans (Nat.le_add_right _ _)
  have hall := hupTo p.count
  rw [p.start_span_count] at hall
  rw [spans, spansUpTo, min_self]
  exact hall

theorem Span.middle?_between {s : Span} {m : ℕ} (h : s.middle? = some m) (hle : s.start ≤ s.stop) :
    s.start ≤ m ∧ m ≤ s.stop := by
  rw [middle?] at h
  split at h
  · cases h
  · have hm := Option.some.inj h
    rw [length] at hm
    omega

/-- The pieces of a range lead from its begin to its end. -/
theorem Cuts.consecutive_pieces (cuts : Cuts) {s : Span} (hle : s.start ≤ s.stop) :
    Consecutive s.start s.stop (cuts.pieces s) := by
  induction cuts generalizing s with
  | none => exact consecutive_singleton hle
  | halves left right ihl ihr =>
    rw [pieces]
    split
    · next m hm =>
      obtain ⟨hstart, hstop⟩ := Span.middle?_between hm hle
      exact (ihl (s := ⟨s.start, m⟩) hstart).append (ihr (s := ⟨m, s.stop⟩) hstop)
    · exact consecutive_singleton hle

/-! ### Collections that hold something at each position -/

section Pointwise

variable {C α : Type} [Positioned C α] {c : C}

/-- What a range holds is what its positions hold, one after the other. -/
def Pointwise (c : C) : Prop :=
  ∀ start stop, runs c start stop = (List.Ico start stop).flatMap fun i => runs c i (i + 1)

/-- The elements at those positions of a range that the collection has. -/
def heldBetween (c : C) (start stop : ℕ) : List α :=
  ((List.range (positions c)).filter fun i => start ≤ i ∧ i < stop).flatMap
    fun i => visit c i (i + 1)

/-- Visits ranges one after the other, each in a call that aborts if the collection does not have
all of its positions. -/
def visitEach? (c : C) : List Span → Option (List α)
  | [] => some []
  | s :: spans =>
    (visit? c s.start s.stop).bind fun l => (visitEach? c spans).map (l ++ ·)

theorem Pointwise.visit_eq (h : Pointwise c) (start stop : ℕ) :
    visit c start stop = (List.Ico start stop).flatMap fun i => visit c i (i + 1) := by
  rw [visit, h, occurrences, List.flatMap_assoc]
  rfl

theorem Pointwise.visit_append (h : Pointwise c) (hij : i ≤ j) (hj : j ≤ stop) :
    visit c i j ++ visit c j stop = visit c i stop := by
  rw [h.visit_eq, h.visit_eq j, h.visit_eq i stop, ← List.Ico.append_consecutive hij hj,
    List.flatMap_append]

theorem Pointwise.visit_self (h : Pointwise c) (i : ℕ) : visit c i i = [] := by
  rw [h.visit_eq, List.Ico.self_empty, List.flatMap_nil]

/-- Visiting consecutive ranges of positions that the collection has comes to what the range of all
of them holds. -/
theorem Pointwise.visitEach?_eq (h : Pointwise c) (hspans : Consecutive i stop spans)
    (hstop : stop ≤ positions c) : visitEach? c spans = some (visit c i stop) := by
  induction hspans with
  | nil i => rw [h.visit_self, visitEach?]
  | @cons i j stop spans hle hrest ih =>
    have hhead : visit? c i j = some (visit c i j) := if_pos ⟨hle, hrest.le.trans hstop⟩
    rw [visitEach?, hhead, ih hstop, Option.bind_some, Option.map_some,
      h.visit_append hle hrest.le]

/-! ### Ranges of any positions -/

theorem Pointwise.visit_min (h : Pointwise c) (start stop : ℕ) :
    visit c start (min stop (positions c)) = heldBetween c start stop := by
  have hfilter : (List.range (positions c)).filter (fun i => start ≤ i ∧ i < stop)
      = List.Ico start (min stop (positions c)) := by
    rw [← List.Ico.zero_bot]
    simp only [Bool.decide_and, ← List.filter_filter, List.Ico.filter_lt, List.Ico.filter_le]
    rw [Nat.zero_max, Nat.min_comm]
  rw [h.visit_eq, heldBetween, hfilter]

/-- A range that begins behind the last position that it shares with the collection holds
nothing. -/
theorem heldBetween_eq_nil (h : min stop (positions c) ≤ i) : heldBetween c i stop = [] := by
  rw [heldBetween, List.flatMap_eq_nil_iff]
  intro m hm
  obtain ⟨hpos, hbetween⟩ := List.mem_filter.1 hm
  have hlt := List.mem_range.1 hpos
  obtain ⟨hle, hstop⟩ := of_decide_eq_true hbetween
  omega

/-- All positions together. -/
theorem Pointwise.heldBetween_all (h : Pointwise c) (hstop : positions c ≤ stop) :
    heldBetween c 0 stop = visit c 0 (positions c) := by
  rw [← h.visit_min, Nat.min_eq_right hstop]

/-- Ranges of any positions that follow one another hold what the range of all of them holds. -/
theorem Pointwise.flatMap_heldBetween (h : Pointwise c) (hspans : Consecutive i stop spans) :
    spans.flatMap (fun s => heldBetween c s.start s.stop) = heldBetween c i stop := by
  induction hspans with
  | nil i => rw [List.flatMap_nil, heldBetween_eq_nil (Nat.min_le_left _ _)]
  | @cons i j stop spans hle hrest ih =>
    rw [List.flatMap_cons, ih, ← h.visit_min, ← h.visit_min i stop]
    rcases Nat.le_total j (positions c) with hj | hj
    · rw [Nat.min_eq_left hj, ← h.visit_min, h.visit_append hle (Nat.le_min.2 ⟨hrest.le, hj⟩)]
    · -- the collection ends before the other ranges
      rw [heldBetween_eq_nil ((Nat.min_le_right _ _).trans hj), List.append_nil,
        Nat.min_eq_right hj, Nat.min_eq_right (hj.trans hrest.le)]

/-- A call for a range of any positions never aborts, and comes to what the collection has of it. -/
theorem Pointwise.visitPart?_eq (h : Pointwise c) (start stop : ℕ) :
    visitPart? c start stop = some (heldBetween c start stop) := by
  rw [visitPart?]
  split
  · next hlt => rw [visit?, if_pos ⟨hlt.le, Nat.min_le_right _ _⟩, h.visit_min]
  · next hge => rw [heldBetween_eq_nil (Nat.le_of_not_lt hge)]

theorem Pointwise.visit_guarded (h : Pointwise c) (w : LockWord) (start stop : ℕ) :
    visit (⟨c, w⟩ : Guarded C) start stop = heldBetween c start stop := by
  show occurrences (if start < min stop (positions c) then _ else []) = _
  split
  · exact h.visit_min start stop
  · next hge => rw [heldBetween_eq_nil (Nat.le_of_not_lt hge), occurrences_nil]

end Pointwise

section Collections

variable {k : Kind} {P : Type}

theorem Table.scan_eq_flatMap (t : Table k P) (start stop : ℕ) :
    t.scan start stop = (List.Ico start stop).flatMap fun i => t.scan i (i + 1) := by
  rw [scan_eq, List.filterMap_eq_flatMap_toList, List.Ico]
  refine congrArg (List.flatMap · _) (funext fun i => ?_)
  rw [scan_succ, scan, Nat.add_zero, Nat.sub_self]
  exact (List.append_nil _).symm

theorem pointwise_scalarSet (s : ScalarSet k) : Pointwise s := by
  intro start stop
  show (s.table.scan start stop).map _ = _
  rw [Table.scan_eq_flatMap, List.map_flatMap]
  rfl

theorem pointwise_scalarBag (b : ScalarBag k) : Pointwise b := by
  intro start stop
  show (b.table.scan start stop).map _ = _
  rw [Table.scan_eq_flatMap, List.map_flatMap]
  rfl

/-- All slots together hold the elements of a set. -/
theorem ScalarSet.visit_all (s : ScalarSet k) : visit s 0 (positions s) = s.toList :=
  visit_scalarSet s 0 s.capacity

/-- All slots together hold the occurrences of a bag. -/
theorem ScalarBag.visit_all (b : ScalarBag k) : visit b 0 (positions b) = b.toList := rfl

end Collections

end Slotted
