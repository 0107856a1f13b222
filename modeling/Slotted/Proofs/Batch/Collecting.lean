import Slotted.Proofs.Batch.Dispatch
import Slotted.Proofs.Growth

/-!
# Collecting from batches

What the batches of a plan hold, one after the other, is what the collection holds, so a list in the
order of the plan does not depend on how many batches there are, and each part of it has a place of
its own that no other batch touches.  A target into which the batches are merged as they finish sees
their elements in another order; that makes no difference to a container whose additions may be made
in any order.

## Main definitions

* `Dispatcher.Gathers` — collecting into a target is adding one element after the other.
* `Dispatcher.Deterministic` — all that is answered about the batches of a collection.

## Main results

* `Pointwise.flatMap_batch` — the batches of a plan hold what the collection holds.
* `Dispatcher.collectOrderedIn_eq`, `Dispatcher.exists_collectBatchesIn_eq` — collecting.
* `Dispatcher.deterministic` — the answers do not depend on plan and order.
* `batches_in_any_order` — arrays, sets and bags.
-/

namespace Slotted

variable {C α β ρ σ ε : Type}

/-! ### What the batches hold -/

/-- What an array holds is what its places hold. -/
theorem pointwise_array (a : Array α) : Pointwise a := by
  intro start stop
  show ((a.extract start stop).toList.map fun x => (x, 1))
    = (List.Ico start stop).flatMap fun i => (a.extract i (i + 1)).toList.map fun x => (x, 1)
  rw [← List.map_flatMap]
  congr 1
  rcases Nat.le_total stop start with hle | hle
  · rw [List.Ico.eq_nil_of_le hle, List.flatMap_nil, Array.extract_empty_of_stop_le_start hle]
  induction stop, hle using Nat.le_induction with
  | base => rw [List.Ico.self_empty, List.flatMap_nil, Array.extract_empty_of_stop_le_start le_rfl]
  | succ stop hle ih =>
    rw [List.Ico.succ_top hle, List.flatMap_append, ← ih, List.flatMap_singleton,
      ← Array.toList_append, Array.extract_append_extract, min_eq_left hle,
      max_eq_right (Nat.le_succ stop)]

section Batches

variable [Positioned C α] {c : C} {i stop : ℕ} {spans : List Span} {plan : Plan} {order : List ℕ}

/-- Consecutive ranges hold what the range of all of them holds. -/
theorem Pointwise.flatMap_visit (h : Pointwise c) (hspans : Consecutive i stop spans) :
    spans.flatMap (fun s => visit c s.start s.stop) = visit c i stop := by
  induction hspans with
  | nil i => rw [h.visit_self, List.flatMap_nil]
  | cons hle hrest ih => rw [List.flatMap_cons, ih, h.visit_append hle hrest.le]

/-- The batches of a plan hold what the collection holds. -/
theorem Pointwise.flatMap_batch (h : Pointwise c) (hlen : plan.len = positions c) :
    (List.range plan.count).flatMap (fun i => (Dispatcher.batch c plan i).items)
      = visit c 0 (positions c) := by
  rw [← hlen, ← h.flatMap_visit plan.consecutive_spans, Plan.spans, Plan.spansUpTo, min_self,
    List.flatMap_map]
  rfl

/-- The images of what the batches hold, in the order in which they finish, are those of what the
collection holds in another order. -/
theorem Pointwise.perm_flatMap_batch (h : Pointwise c) (hlen : plan.len = positions c)
    (horder : Dispatcher.IsCompletion plan order) (f : α → β) :
    (order.flatMap fun i => (Dispatcher.batch c plan i).items.map f).Perm
      ((visit c 0 (positions c)).map f) := by
  rw [← h.flatMap_batch hlen, List.map_flatMap]
  exact List.Perm.flatMap_right _ horder

end Batches

/-- Places that are filled in some order are all filled in the end. -/
theorem getElem?_foldl_setIfInBounds (part : ℕ → ρ) (order : List ℕ) (parts : Array ρ) (j : ℕ) :
    (order.foldl (fun parts i => parts.setIfInBounds i (part i)) parts)[j]?
      = if j ∈ order ∧ j < parts.size then some (part j) else parts[j]? := by
  induction order generalizing parts with
  | nil => simp
  | cons i order ih =>
    rw [List.foldl_cons, ih, Array.size_setIfInBounds, Array.getElem?_setIfInBounds]
    by_cases hji : i = j
    · subst hji
      by_cases hj : i < parts.size <;> simp [hj]
    · simp [hji, Ne.symm hji]

namespace Dispatcher

variable [Positioned C α] {c : C} {plan : Plan} {order : List ℕ}

/-- A list of the images is the same whatever the plan and the order are, if there can be as many
places as there are batches. -/
theorem collectOrderedIn_eq (d : Dispatcher) (h : Pointwise c) (hlen : plan.len = positions c)
    (horder : IsCompletion plan order) (hplaces : plan.count * placeWidth ≤ maxAllocation)
    (f : α → β) :
    d.collectOrderedIn order c plan f
      = ⟨.ok ((visit c 0 (positions c)).map f), some ⟨positions c, plan.count, d.threads⟩, []⟩ := by
  have hparts : (order.foldl (fun parts i => parts.setIfInBounds i ((batch c plan i).items.map f))
      (Array.replicate plan.count [])).toList
        = (List.range plan.count).map fun i => (batch c plan i).items.map f := by
    refine List.ext_getElem? fun j => ?_
    rw [Array.getElem?_toList, getElem?_foldl_setIfInBounds, List.getElem?_map]
    simp only [horder.mem_iff, Array.size_replicate, and_self]
    split
    · next hj => rw [List.getElem?_range hj, Option.map_some]
    · next hj =>
      rw [Array.getElem?_eq_none (by rw [Array.size_replicate]; exact Nat.le_of_not_lt hj),
        List.getElem?_eq_none (by rw [List.length_range]; exact Nat.le_of_not_lt hj),
        Option.map_none]
  rw [collectOrderedIn, if_pos hplaces, d.forEachBatchIn_of_done hlen, ← h.flatMap_batch hlen,
    List.map_flatMap, List.flatMap_def, ← hparts]
  rfl

/-- Merging the parts of a list one after the other is adding all of it, if that goes through. -/
theorem foldl_run_of_extend [Collection ρ β] {worker : Worker C ρ ε} {part : Batch C → List β}
    (hworker : ∀ b t m, (Collection.extend t (part b)).val = (.ok (), m) →
      worker b t = (.done, m))
    (bs : List (Batch C)) {t r : ρ}
    (h : (Collection.extend t (bs.flatMap part)).val = (.ok (), r)) :
    bs.foldl (fun q b => q.run worker b) ({ state := t } : Progress ρ ε) = { state := r } := by
  induction bs generalizing t with
  | nil =>
    cases h
    rfl
  | cons b bs ih =>
    rw [List.flatMap_cons] at h
    obtain ⟨m, hm⟩ := exists_extend_of_append h
    rw [val_extend_append hm] at h
    rw [List.foldl_cons, Progress.run, hworker b t m hm]
    exact ih h

/-- Collecting into a container whose additions may be made in any order comes to the same as adding
the images one after the other. -/
theorem exists_collectBatchesIn_eq [Collection ρ β] {sound : ρ → Prop} {same : ρ → ρ → Prop}
    (hfree : OrderFree sound same) (d : Dispatcher) (h : Pointwise c)
    (hlen : plan.len = positions c) (horder : IsCompletion plan order) (f : α → β) {target r : ρ}
    (htarget : sound target)
    (hall : (Collection.extend target ((visit c 0 (positions c)).map f)).val = (.ok (), r)) :
    ∃ r', d.collectBatchesIn order c plan f (fun t l => (Collection.extend t l).val) target
        = ⟨.ok r', some ⟨positions c, plan.count, d.threads⟩, []⟩ ∧ same r' r := by
  -- the elements arrive in another order, in which they are added as well
  obtain ⟨r', hr', hsame⟩ := hfree htarget (h.perm_flatMap_batch hlen horder f).symm hall
  rw [← List.flatMap_map (f := batch c plan) (g := fun b => b.items.map f)] at hr'
  refine ⟨r', ?_, hsame⟩
  rw [collectBatchesIn, d.forEachBatchIn_eq hlen _ target
    (foldl_run_of_extend (fun b t m hm => by simp only [hm]) _ hr')]
  rfl

/-! ### All that is answered -/

/-- Collecting into a target, by a given plan or by the automatic one, comes to the same as adding
the images of the elements to it one after the other, if that goes through. -/
def Gathers [Collection ρ β] (d : Dispatcher) (c : C) (same : ρ → ρ → Prop) (target : ρ) : Prop :=
  ∀ (f : α → β) (r : ρ),
    (Collection.extend target ((visit c 0 (positions c)).map f)).val = (.ok (), r) →
    (∀ plan order, plan.len = positions c → IsCompletion plan order →
      ∃ r', d.collectBatchesIn order c plan f (fun t l => (Collection.extend t l).val) target
          = ⟨.ok r', some ⟨positions c, plan.count, d.threads⟩, []⟩ ∧ same r' r) ∧
    ∀ order, IsCompletion (d.plan (positions c)) order →
      ∃ r', d.collectIntoIn order c f (fun t l => (Collection.extend t l).val) target
          = ⟨.ok r', some ⟨positions c, (d.plan (positions c)).count, d.threads⟩, []⟩ ∧ same r' r

theorem gathers_of_orderFree [Collection ρ β] {sound : ρ → Prop} {same same' : ρ → ρ → Prop}
    (hfree : OrderFree sound same) (hsame : ∀ {r r'}, same r r' → same' r r') (d : Dispatcher)
    (h : Pointwise c) {target : ρ} (htarget : sound target) : d.Gathers c same' target := by
  intro f r hall
  have hcollect : ∀ plan order, plan.len = positions c → IsCompletion plan order →
      ∃ r', d.collectBatchesIn order c plan f (fun t l => (Collection.extend t l).val) target
          = ⟨.ok r', some ⟨positions c, plan.count, d.threads⟩, []⟩ ∧ same' r' r := by
    intro plan order hlen horder
    obtain ⟨r', hr', hrr'⟩ :=
      d.exists_collectBatchesIn_eq hfree h hlen horder f htarget hall
    exact ⟨r', hr', hsame hrr'⟩
  exact ⟨hcollect, fun order horder => hcollect _ order rfl horder⟩

/-- What calls for the batches of a collection answer depends neither on the plan nor on the order
in which the batches finish. -/
structure Deterministic (d : Dispatcher) (c : C) : Prop where
  /-- The worker runs once on each batch of the plan, with its range.  The call ends as the workers
  did, in whichever order their failures are reported. -/
  worked : ∀ {σ ε : Type} (worker : Worker C σ ε) (state : σ) (plan : Plan) (order : List ℕ),
    plan.len = positions c → IsCompletion plan order →
      ∃ (ending : Ending ε) (state' : σ) (log : List (Batch C × WorkerEnd ε)),
        d.forEachBatchIn order c plan worker state
          = ⟨(ending, state'), some ⟨positions c, plan.count, d.threads⟩,
              (failuresIn log).map Prod.fst⟩ ∧
        d.forEachBatchIn order c plan worker.logged (state, [])
          = ⟨(ending, state', log), some ⟨positions c, plan.count, d.threads⟩,
              (failuresIn log).map Prod.fst⟩ ∧
        (log.map fun x => x.1.index).Perm (List.range plan.count) ∧
        (∀ x ∈ log, x.1.source = c ∧ plan.span? x.1.index = .ok x.1.span) ∧
        EndsAs log ending ∧ (ending = .done ↔ ∀ x ∈ log, x.2 = .done) ∧
        ∀ reports : List (ℕ × ε), reports.Perm (failuresIn log) →
          (⟨state', earliest reports, (abortsIn log).head?, []⟩ : Progress σ ε).ending = ending
  /-- If how the worker ends depends on the batch alone, so does how the call ends: as the first
  batch in the plan that fails. -/
  ended : ∀ {σ ε : Type} (worker : Worker C σ ε) (plan : Plan) (ends : ℕ → WorkerEnd ε),
    plan.len = positions c → (∀ i < plan.count, ∀ s, (worker (batch c plan i) s).1 = ends i) →
      (∀ i < plan.count, ∀ a, ends i ≠ .aborted a) → ∃ ending : Ending ε,
        (∀ order state, IsCompletion plan order →
          (d.forEachBatchIn order c plan worker state).result.1 = ending) ∧
        (ending = .done ↔ ∀ i < plan.count, ends i = .done) ∧
        ∀ e, ending = .failed e ↔
          ∃ i < plan.count, ends i = .failed e ∧ ∀ j < i, ends j = .done
  /-- The images are listed in the order of the elements, if there can be as many places for them as
  there are batches. -/
  listed : ∀ {β : Type} (f : α → β) (plan : Plan) (order : List ℕ), plan.len = positions c →
    IsCompletion plan order → plan.count * placeWidth ≤ maxAllocation →
      d.collectOrderedIn order c plan f
        = ⟨.ok ((visit c 0 (positions c)).map f), some ⟨positions c, plan.count, d.threads⟩, []⟩
  /-- If there cannot, that is found out before anything else. -/
  oversized : ∀ {β : Type} (f : α → β) (plan : Plan) (order : List ℕ),
    maxAllocation < plan.count * placeWidth →
      d.collectOrderedIn order c plan f = ⟨.error (.abort .oversizedAllocation), none, []⟩
  /-- Sets get the images of the elements. -/
  sets : ∀ {k : Kind} (s : ScalarSet k), s.Reachable → d.Gathers c (fun s s' => s.eqv s' = true) s
  /-- Bags get them as often as they occur. -/
  bags : ∀ {k : Kind} (b : ScalarBag k), b.Reachable → d.Gathers c (fun b b' => b.eqv b' = true) b
  /-- So do sets of truth values. -/
  boolSets : ∀ s : BoolSet, d.Gathers c Eq s
  /-- So do bags of truth values. -/
  boolBags : ∀ b : BoolBag, b.Reachable → d.Gathers c Eq b
  /-- So do tallies. -/
  tallies : ∀ {γ : Type} [DecidableEq γ] (t : Tally γ), t.Reachable →
    d.Gathers c (fun t t' => t.eqv t' = true) t
  /-- With a plan for another number of positions nothing is run. -/
  refused : ∀ (plan : Plan) (order : List ℕ), plan.len ≠ positions c →
    (∀ {σ ε : Type} (worker : Worker C σ ε) (state : σ), d.forEachBatchIn order c plan worker state
      = ⟨(.refused (.indexOutOfRange plan.len (positions c)), state), none, []⟩) ∧
    (∀ {ρ β : Type} (f : α → β) (merge : ρ → List β → Except Abort Unit × ρ) (target : ρ),
      d.collectBatchesIn order c plan f merge target
        = ⟨.error (.error (.indexOutOfRange plan.len (positions c))), none, []⟩) ∧
    ∀ {β : Type} (f : α → β), plan.count * placeWidth ≤ maxAllocation →
      d.collectOrderedIn order c plan f
        = ⟨.error (.error (.indexOutOfRange plan.len (positions c))), none, []⟩

/-- A collection that holds something at each position has such answers. -/
theorem deterministic (d : Dispatcher) (h : Pointwise c) : d.Deterministic c where
  worked := by
    intro σ ε worker state plan order hlen horder
    obtain ⟨ending, state', log, hreport, hlogged, hbatches, -, hending, hreports⟩ :=
      d.exists_forEachBatchIn_eq hlen horder worker state
    refine ⟨ending, state', log, hreport, hlogged, map_index_log hbatches ▸ horder, fun x hx => ?_,
      hending, hending.eq_done_iff, hreports⟩
    obtain ⟨i, hi, hbatch⟩ := List.mem_map.1 (hbatches ▸ List.mem_map_of_mem (f := Prod.fst) hx)
    rw [← hbatch]
    exact ⟨rfl, if_pos (horder.mem_iff.1 hi)⟩
  ended := fun _ _ _ hlen hends habort => d.exists_ending_eq hlen hends habort
  listed := fun f _ _ hlen horder hplaces => d.collectOrderedIn_eq h hlen horder hplaces f
  oversized := fun _ _ _ hmany => if_neg (Nat.not_le.2 hmany)
  sets := fun _ hs => d.gathers_of_orderFree (setGrowth_scalarSet _).orderFree
    (fun hsame => (ScalarSet.eqv_iff_contains hsame.1 hsame.2.1).2 hsame.2.2) h hs.sound
  bags := fun _ hb => d.gathers_of_orderFree
    ((bagGrowth_scalarBag _).orderFree ScalarBag.Sound.total_le)
    (fun hsame => (ScalarBag.eqv_iff_occurrencesOf hsame.1 hsame.2.1).2 hsame.2.2) h hb.sound
  boolSets := fun _ => d.gathers_of_orderFree setGrowth_boolSet.orderFree
    (fun hsame => BoolSet.eq_of_contains hsame.2.2) h trivial
  boolBags := fun _ hb => d.gathers_of_orderFree (bagGrowth_boolBag.orderFree id)
    (fun hsame => BoolBag.eq_of_occurrencesOf hsame.2.2) h hb.size_le
  tallies := fun _ ht => d.gathers_of_orderFree (bagGrowth_tally.orderFree Tally.Sound.total_le)
    (fun hsame => (Tally.eqv_iff_occurrencesOf hsame.1 hsame.2.1).2 hsame.2.2) h ht.sound
  refused := by
    intro plan order hlen
    have hcall : ∀ {σ ε : Type} (worker : Worker C σ ε) (state : σ),
        d.forEachBatchIn order c plan worker state
          = ⟨(.refused (.indexOutOfRange plan.len (positions c)), state), none, []⟩ :=
      fun worker state => if_neg hlen
    refine ⟨hcall, fun f merge target => ?_, fun f hplaces => ?_⟩
    · rw [collectBatchesIn, hcall]
      rfl
    · rw [collectOrderedIn, if_pos hplaces, hcall]
      rfl

end Dispatcher

/-- **What comes of running batches does not depend on the plan, nor on the order in which they
finish.**  This holds for arrays, sets and bags, whose elements come in the order of their
positions.  Only a list of images by a plan with very many batches fails in setting up their places,
be the plan for the collection or not. -/
theorem batches_in_any_order (d : Dispatcher) :
    (∀ {α : Type} (a : Array α), d.Deterministic a ∧ visit a 0 (positions a) = a.toList) ∧
    (∀ {k : Kind} (s : ScalarSet k), d.Deterministic s ∧ visit s 0 (positions s) = s.toList) ∧
    ∀ {k : Kind} (b : ScalarBag k), d.Deterministic b ∧ visit b 0 (positions b) = b.toList := by
  refine ⟨fun a => ⟨d.deterministic (pointwise_array a), ?_⟩,
    fun s => ⟨d.deterministic (pointwise_scalarSet s), s.visit_all⟩,
    fun b => ⟨d.deterministic (pointwise_scalarBag b), b.visit_all⟩⟩
  rw [visit_array]
  exact congrArg Array.toList Array.extract_size

/-- For example three batches of five numbers, the last of which finishes first.  The second is the
first to fail, and a tally gets the numbers out of order. -/
theorem batches_in_any_order_last_first :
    let d : Dispatcher := ⟨⟨3, true⟩, 1, 2⟩
    let a : Array ℕ := #[4, 1, 4, 2, 9]
    let plan := Plan.even 5 3 (by decide)
    let worker : Worker (Array ℕ) (List ℕ) ℕ := fun b seen =>
      (if b.index = 0 then .done else .failed b.index, b.index :: seen)
    plan.len = positions a ∧ Dispatcher.IsCompletion plan [2, 0, 1] ∧
      plan.count * Dispatcher.placeWidth ≤ maxAllocation ∧
      (d.forEachBatchIn [2, 0, 1] a plan worker []).result.1 = .failed 1 ∧
      d.collectOrderedIn [2, 0, 1] a plan (· + 1)
        = ⟨.ok [5, 2, 5, 3, 10], some ⟨5, 3, 3⟩, []⟩ ∧
      (Tally.empty : Tally ℕ).Reachable ∧
      ∃ t, d.collectBatchesIn [2, 0, 1] a plan (· % 2)
          (fun t l => (Collection.extend t l).val) Tally.empty = ⟨.ok t, some ⟨5, 3, 3⟩, []⟩ ∧
        t.eqv (Tally.empty.extend [0, 1, 0, 0, 1]).2 = true := by
  intro d a plan worker
  have hlen : plan.len = positions a := rfl
  have horder : Dispatcher.IsCompletion plan [2, 0, 1] := by
    show [2, 0, 1].Perm (List.range 3)
    decide
  have hplaces : plan.count * Dispatcher.placeWidth ≤ maxAllocation := by decide +kernel
  have hempty : (Tally.empty : Tally ℕ).Reachable := .empty
  obtain ⟨hd, hvisit⟩ := (batches_in_any_order d).1 a
  have hadds : (Collection.extend (Tally.empty : Tally ℕ)
      ((visit a 0 (positions a)).map (· % 2))).val
        = (.ok (), (Tally.empty.extend [0, 1, 0, 0, 1]).2) := by
    rw [hvisit]
    decide +kernel
  refine ⟨hlen, horder, hplaces, ?_, hd.listed (· + 1) plan _ hlen horder hplaces, hempty, ?_⟩
  · obtain ⟨ending, hending, -, hfailed⟩ := hd.ended worker plan
      (fun i => if i = 0 then .done else .failed i) hlen (fun i _ s => rfl) fun i _ a => by
        split <;> exact fun h => by cases h
    rw [hending _ [] horder]
    exact (hfailed 1).2 ⟨1, by decide, rfl, by decide⟩
  · exact (hd.tallies Tally.empty hempty (· % 2) _ hadds).1 plan _ hlen horder

/-- A list of images by a plan that is for more positions than there are, and has too many batches,
is not refused but fails in setting up the places. -/
theorem collectOrderedIn_oversized_plan :
    let d := Dispatcher.onShared ⟨3, false⟩
    let a : Array ℕ := #[1]
    let plan := Plan.even (2 ^ 60) (2 ^ 60) (by decide)
    plan.len ≠ positions a ∧
      d.collectOrderedIn (Dispatcher.inTurn a plan) a plan id
        = ⟨.error (.abort .oversizedAllocation), none, []⟩ ∧
      d.collectOrderedIn (Dispatcher.inTurn a plan) a plan id
        ≠ ⟨.error (.error (.indexOutOfRange plan.len (positions a))), none, []⟩ := by
  intro d a plan
  have hlen : plan.len ≠ positions a := by decide +kernel
  have hfails : d.collectOrderedIn (Dispatcher.inTurn a plan) a plan id
      = ⟨.error (.abort .oversizedAllocation), none, []⟩ := by
    have hmany : ¬ plan.count * Dispatcher.placeWidth ≤ maxAllocation := by decide +kernel
    rw [Dispatcher.collectOrderedIn, if_neg hmany]
  refine ⟨hlen, hfails, fun h => ?_⟩
  have hresult := congrArg Report.result (hfails.symm.trans h)
  cases hresult

end Slotted
