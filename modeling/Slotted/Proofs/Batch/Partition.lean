import Slotted.Batch.Dispatcher
import Slotted.Proofs.Traversal.Ranges

/-!
# Plans are even partitions

The begin of a batch is computed from its index alone, as so many times the quotient and as many
positions more as there are larger batches before it.  Summed up over the batches this leaves no gap
and ends with the last position, so no number on the way to a range is more than the number of
positions, and a machine word if that is one.

An automatic plan has as many batches as the least size of a batch allows, rounded down, unless the
threads are to get fewer.  Even batches of so few are never below that size.

## Main definitions

* `Plan.CutsEvenly` — what is asked of a plan for a number of positions and of batches.
* `Dispatcher.KeepsBounds` — what is asked of an automatic plan.

## Main results

* `Plan.length_span` — the sizes of the batches.
* `Plan.stop_span_le` — no batch goes past the last position.
* `Plan.spanInWords?_eq` — nothing overflows on the way to a range.
* `Plan.ofCount_cutsEvenly` — every plan is an even partition.
* `Dispatcher.plan_keepsBounds` — automatic plans keep the bounds of the dispatcher.
-/

namespace Slotted
namespace Plan

variable {p : Plan} {i j len desired : ℕ}

/-! ### Ends and sizes of the batches -/

theorem start_span (p : Plan) (i : ℕ) :
    (p.span i).start = i * (p.len / p.count) + min i (p.len % p.count) := rfl

/-- The first batches are larger by one than the others. -/
theorem length_span (p : Plan) (i : ℕ) :
    (p.span i).length = p.len / p.count + if i < p.len % p.count then 1 else 0 := by
  have hstop : (p.span i).stop = (p.span i).start
      + (p.len / p.count + if i < p.len % p.count then 1 else 0) := Nat.add_assoc _ _ _
  rw [Span.length, hstop, Nat.add_sub_cancel_left]

/-- No batch is empty, as there are no more of them than positions. -/
theorem length_span_pos (h : i < p.count) : 0 < (p.span i).length := by
  have hbase : 0 < p.len / p.count := Nat.div_pos p.count_le (by omega)
  rw [length_span]
  omega

/-- A batch is as large as a later one, or larger by one. -/
theorem length_span_even (p : Plan) (h : i ≤ j) :
    (p.span j).length ≤ (p.span i).length ∧ (p.span i).length ≤ (p.span j).length + 1 := by
  rw [length_span, length_span]
  split <;> split <;> omega

theorem stop_span_eq (p : Plan) (i : ℕ) :
    (p.span i).stop = (p.span i).start + (p.span i).length := by
  rw [length_span, ← Nat.add_assoc]
  rfl

theorem start_span_mono (p : Plan) (h : i ≤ j) : (p.span i).start ≤ (p.span j).start := by
  rw [start_span, start_span]
  exact Nat.add_le_add (Nat.mul_le_mul_right _ h) (min_le_min_right _ h)

/-- No batch goes past the last position. -/
theorem stop_span_le (h : i < p.count) : (p.span i).stop ≤ p.len := by
  rw [p.stop_span, ← p.start_span_count]
  exact p.start_span_mono h

/-! ### The arithmetic of machine words -/

/-- Nothing overflows on the way to the range of a batch, and nothing is divided by zero. -/
theorem spanInWords?_eq (hlen : p.len ≤ maxWord) (h : i < p.count) :
    p.spanInWords? i = some (p.span i) := by
  -- every number on the way is a part of the last one, the end of the range
  have hstop := (stop_span_le h).trans hlen
  rw [stop_span_eq, start_span, length_span] at hstop
  have hstart := (Nat.le_add_right _ _).trans hstop
  have hlength := (Nat.le_add_left _ _).trans hstop
  have hbefore := (Nat.le_add_right _ _).trans hstart
  rw [spanInWords?, if_neg (Nat.ne_zero_of_lt h)]
  simp only [word?_eq_some hbefore, word?_eq_some hstart, word?_eq_some hlength,
    word?_eq_some hstop, Option.bind_eq_bind, Option.bind_some, Option.pure_def]
  rw [span, Nat.add_assoc (_ + _)]

/-! ### All batches -/

theorem spans_eq (p : Plan) : p.spans = (List.range p.count).map p.span := by
  rw [spans, spansUpTo, min_self]

theorem length_spans (p : Plan) : p.spans.length = p.count := by
  rw [spans_eq, List.length_map, List.length_range]

theorem getElem?_spans (p : Plan) (i : ℕ) :
    p.spans[i]? = if i < p.count then some (p.span i) else none := by
  rw [spans_eq, List.getElem?_map]
  split
  · next h => rw [List.getElem?_range h, Option.map_some]
  · next h => rw [List.getElem?_eq_none (by simpa using h), Option.map_none]

/-- The plan cuts so many positions into batches as even as can be, no more than are desired. -/
structure CutsEvenly (p : Plan) (len desired : ℕ) : Prop where
  /-- There are as many batches as are desired, or as there are positions. -/
  count : p.count = min desired len
  /-- Each of them has a range. -/
  length : p.spans.length = p.count
  /-- The first range begins at the first position, each other one where the one before it ends, and
  the last ends behind the last position. -/
  consecutive : Consecutive 0 len p.spans
  /-- No range is empty. -/
  nonempty : ∀ s ∈ p.spans, s.start < s.stop
  /-- The sizes differ by one at most, and the larger ones come first. -/
  even : p.spans.Pairwise fun s s' => s'.length ≤ s.length ∧ s.length ≤ s'.length + 1
  /-- A range is asked for by its index, and an index of no range is refused. -/
  span? : ∀ i, p.span? i = p.spans[i]?.elim (.error (.indexOutOfRange i p.count)) .ok
  /-- A machine computes the ranges without overflow and without a division by zero. -/
  inWords : ∀ i s, p.spans[i]? = some s → p.spanInWords? i = some s

/-- A number of positions that is a machine word is cut evenly. -/
theorem cutsEvenly (p : Plan) (hlen : p.len ≤ maxWord) (hcount : p.count = min desired p.len) :
    p.CutsEvenly p.len desired where
  count := hcount
  length := p.length_spans
  consecutive := p.consecutive_spans
  nonempty := by
    intro s hs
    rw [spans_eq, List.mem_map] at hs
    obtain ⟨i, hi, rfl⟩ := hs
    exact Nat.lt_of_sub_pos (length_span_pos (List.mem_range.1 hi))
  even := by
    rw [spans_eq, List.pairwise_map]
    exact List.pairwise_lt_range.imp fun h => p.length_span_even h.le
  span? := by
    intro i
    rw [getElem?_spans, Plan.span?]
    split <;> rfl
  inWords := by
    intro i s hs
    rw [getElem?_spans] at hs
    split at hs
    · next hi => rw [spanInWords?_eq hlen hi, hs]
    · exact absurd hs (by simp)

/-- **Every plan is an exact, even partition.**  For as many positions as a word can count and any
number of batches but zero a plan is made, and it cuts the positions evenly. -/
theorem ofCount_cutsEvenly (hlen : len ≤ maxWord) (hdesired : 0 < desired) :
    ∃ p, ofCount len desired = .ok p ∧ p.len = len ∧ p.CutsEvenly len desired :=
  ⟨even len desired hdesired, dif_pos hdesired, rfl, cutsEvenly _ hlen rfl⟩

/-- For example the greatest number of positions in ten batches, of which five are larger. -/
theorem ofCount_cutsEvenly_maxWord :
    maxWord ≤ maxWord ∧ 0 < 10 ∧ ∃ p, ofCount maxWord 10 = .ok p ∧ p.CutsEvenly maxWord 10 ∧
      p.spanInWords? 4 = some ⟨7378697629483820648, 9223372036854775810⟩ ∧
      p.spanInWords? 9 = some ⟨16602069666338596454, maxWord⟩ ∧
      p.span? 10 = .error (.indexOutOfRange 10 10) := by
  obtain ⟨p, hp, -, hcuts⟩ := ofCount_cutsEvenly (le_refl maxWord) (show 0 < 10 by decide)
  obtain rfl : even maxWord 10 (by decide) = p := Except.ok.inj hp
  exact ⟨le_rfl, by decide, _, hp, hcuts, by decide, by decide, by decide⟩

/-- If there are so many positions for each batch, every batch has so many. -/
theorem le_length_span {n : ℕ} (h : n * p.count ≤ p.len) (hi : i < p.count) :
    n ≤ (p.span i).length := by
  have hbase : n ≤ p.len / p.count := (Nat.le_div_iff_mul_le (Nat.zero_lt_of_lt hi)).2 h
  rw [length_span]
  exact hbase.trans (Nat.le_add_right _ _)

/-- A plan of one batch has all positions in it. -/
theorem spans_eq_singleton (h : p.count = 1) : p.spans = [⟨0, p.len⟩] := by
  have hspan : p.span 0 = ⟨0, p.len⟩ := by
    unfold span
    rw [h]
    simp [Nat.mod_one]
  rw [spans_eq, h]
  simp [hspan]

end Plan

/-! ### Automatic plans -/

namespace Dispatcher

variable {d : Dispatcher} {len : ℕ}

/-- What is asked of a plan that a dispatcher makes by itself for so many positions. -/
structure KeepsBounds (d : Dispatcher) (len : ℕ) (p : Plan) : Prop where
  /-- It cuts just these positions, evenly. -/
  cutsEvenly : p.CutsEvenly len p.count
  /-- The threads get no more batches than they are to get. -/
  atMost : p.spans.length ≤ d.threads * d.batchesPerThread
  /-- Without positions there are no batches. -/
  none : len = 0 → p.spans = []
  /-- Positions too few for one batch of the least size make one batch. -/
  single : 0 < len → len < d.minBatch → p.spans = [⟨0, len⟩]
  /-- Otherwise every batch has the least size. -/
  atLeast : d.minBatch ≤ len → ∀ s ∈ p.spans, d.minBatch ≤ s.length
  /-- There are then as many of them as both bounds allow. -/
  greatest : d.minBatch ≤ len →
    p.spans.length = min (len / d.minBatch) (d.threads * d.batchesPerThread)

theorem count_plan (d : Dispatcher) (len : ℕ) :
    (d.plan len).count = min (max 1 (min (len / d.minBatch)
      (max (saturatingMul d.threads d.batchesPerThread) 1))) len := rfl

/-- The product of the bounds may saturate: that it does is no matter for the plan, whose batches
are no more than its positions. -/
theorem count_plan_of_pos (hmost : 0 < d.threads * d.batchesPerThread) (hlen : len ≤ maxWord) :
    (d.plan len).count
      = min (max 1 (min (len / d.minBatch) (d.threads * d.batchesPerThread))) len := by
  have hdiv : len / d.minBatch ≤ len := Nat.div_le_self len d.minBatch
  rw [count_plan]
  unfold saturatingMul
  have hword : 0 < maxWord := by decide
  omega

/-- **Automatic plans keep both bounds.**  Whatever the positive settings of a dispatcher are, and
whether or not their product is a machine word, its plan for any number of positions has no more
batches than the threads are to get, and no batch below the least size if there are so many
positions. -/
theorem plan_keepsBounds (hthreads : 0 < d.threads) (hminBatch : 0 < d.minBatch)
    (hbatches : 0 < d.batchesPerThread) (hlen : len ≤ maxWord) :
    d.KeepsBounds len (d.plan len) := by
  have hmost : 0 < d.threads * d.batchesPerThread := Nat.mul_pos hthreads hbatches
  have hcount := count_plan_of_pos hmost hlen
  have hdiv : len / d.minBatch ≤ len := Nat.div_le_self len d.minBatch
  have hlarge : d.minBatch ≤ len →
      (d.plan len).count = min (len / d.minBatch) (d.threads * d.batchesPerThread) := by
    intro h
    have hpos : 0 < len / d.minBatch := Nat.div_pos h hminBatch
    omega
  refine ⟨(d.plan len).cutsEvenly hlen (min_eq_left (d.plan len).count_le).symm, ?_, ?_, ?_, ?_, ?_⟩
  · rw [Plan.length_spans]
    omega
  · intro hzero
    apply List.eq_nil_of_length_eq_zero
    rw [Plan.length_spans]
    omega
  · intro hpos hlt
    have hnone : len / d.minBatch = 0 := Nat.div_eq_of_lt hlt
    apply Plan.spans_eq_singleton
    omega
  · intro h s hs
    rw [Plan.spans_eq, List.mem_map] at hs
    obtain ⟨i, hi, rfl⟩ := hs
    apply Plan.le_length_span _ (List.mem_range.1 hi)
    -- as the number of batches is rounded down, the least size fits as often
    calc d.minBatch * (d.plan len).count ≤ d.minBatch * (len / d.minBatch) :=
          Nat.mul_le_mul_left _ (hlarge h ▸ Nat.min_le_left _ _)
      _ ≤ len := Nat.mul_div_le len d.minBatch
  · intro h
    rw [Plan.length_spans]
    exact hlarge h

/-- For example as many threads as a machine word counts, with as many batches for each: of 35
positions they make three batches of at least ten, and of nine a single one. -/
theorem plan_keepsBounds_saturated :
    let d : Dispatcher := ⟨⟨maxWord, true⟩, 10, maxWord⟩
    0 < d.threads ∧ 0 < d.minBatch ∧ 0 < d.batchesPerThread ∧ 35 ≤ maxWord ∧
      maxWord < d.threads * d.batchesPerThread ∧ d.KeepsBounds 35 (d.plan 35) ∧
      (d.plan 35).spans = [⟨0, 12⟩, ⟨12, 24⟩, ⟨24, 35⟩] ∧ d.KeepsBounds 9 (d.plan 9) ∧
      (d.plan 9).spans = [⟨0, 9⟩] := by
  intro d
  have h35 : d.KeepsBounds 35 (d.plan 35) :=
    plan_keepsBounds (by decide) (by decide) (by decide) (by decide)
  have h9 : d.KeepsBounds 9 (d.plan 9) :=
    plan_keepsBounds (by decide) (by decide) (by decide) (by decide)
  exact ⟨by decide, by decide, by decide, by decide, by decide, h35, by decide, h9,
    h9.single (by decide) (by decide)⟩

end Dispatcher
end Slotted
