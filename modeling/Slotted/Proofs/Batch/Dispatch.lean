import Slotted.Batch.Dispatcher
import Slotted.Proofs.Traversal.Ranges

/-!
# Batches that finish in any order

The batches of a plan finish in an order that nobody chooses, and the failures among them are
reported in an order that may be yet another.  A call for all of them runs the worker once on each,
whatever happens to the others, and of several failures it answers with that of the first batch in
the plan.  That one does not depend on either order, as no two batches have one index.

## Main definitions

* `Worker.logged` — the worker, which also notes what it is given and how it ends.
* `failuresIn`, `abortsIn` — the failures and aborts of such notes.
* `earliest` — the failure of the first batch in the plan, found one report at a time.
* `EndsAs` — how a call ends, by how the workers ended.

## Main results

* `earliest_eq_of_perm` — reports may come in any order.
* `Progress.Records.run`, `Progress.exists_foldl_run` — one batch, and all of them.
* `Dispatcher.exists_forEachBatchIn_eq` — a call for all batches.
* `Dispatcher.forEachBatchIn_of_done` — one whose workers do not fail.
-/

namespace Slotted

variable {C α σ ε : Type}

/-! ### The earliest failure -/

/-- Of failures with the indices of their batches that of the first batch in the plan, found by
looking at one after the other. -/
def earliest (fs : List (ℕ × ε)) : Option (ℕ × ε) :=
  fs.foldl (fun seen? f => Progress.keepEarlier seen? f.1 f.2) none

theorem earliest_concat (fs : List (ℕ × ε)) (f : ℕ × ε) :
    earliest (fs ++ [f]) = Progress.keepEarlier (earliest fs) f.1 f.2 := by
  rw [earliest, List.foldl_concat]
  rfl

/-- Unless there is no failure, one is found that no other comes before. -/
theorem earliest_cases (fs : List (ℕ × ε)) :
    (fs = [] ∧ earliest fs = none) ∨ ∃ f ∈ fs, earliest fs = some f ∧ ∀ g ∈ fs, f.1 ≤ g.1 := by
  induction fs using List.reverseRecOn with
  | nil => exact Or.inl ⟨rfl, rfl⟩
  | append_singleton fs g ih =>
    refine Or.inr ?_
    rw [earliest_concat]
    obtain ⟨rfl, hnone⟩ | ⟨f, hf, hsome, hle⟩ := ih
    · rw [hnone]
      exact ⟨g, List.mem_singleton_self g, rfl, fun g' hg' => (List.mem_singleton.1 hg' ▸ le_rfl)⟩
    · rw [hsome, Progress.keepEarlier]
      -- the failure seen last is kept if and only if its batch comes before the one kept so far
      split
      · next hlt =>
        refine ⟨g, List.mem_append_right fs (List.mem_singleton_self g), rfl, fun g' hg' => ?_⟩
        rcases List.mem_append.1 hg' with hfs | hlast
        · exact hlt.le.trans (hle g' hfs)
        · exact List.mem_singleton.1 hlast ▸ le_rfl
      · next hge =>
        refine ⟨f, List.mem_append_left _ hf, rfl, fun g' hg' => ?_⟩
        rcases List.mem_append.1 hg' with hfs | hlast
        · exact hle g' hfs
        · exact List.mem_singleton.1 hlast ▸ Nat.le_of_not_lt hge

/-- If no batch fails twice, the order of the reports does not matter. -/
theorem earliest_eq_of_perm {fs gs : List (ℕ × ε)} (hperm : fs.Perm gs)
    (hnodup : (fs.map Prod.fst).Nodup) : earliest fs = earliest gs := by
  obtain ⟨rfl, hnone⟩ | ⟨f, hf, hsome, hle⟩ := earliest_cases fs
  · rw [hperm.nil_eq]
  obtain ⟨rfl, -⟩ | ⟨g, hg, hsome', hle'⟩ := earliest_cases gs
  · rw [hperm.eq_nil]
  have hindex : f.1 = g.1 :=
    le_antisymm (hle g (hperm.mem_iff.2 hg)) (hle' f (hperm.mem_iff.1 hf))
  rw [hsome, hsome', List.inj_on_of_nodup_map hnodup hf (hperm.mem_iff.2 hg) hindex]

/-! ### Notes of what workers did -/

/-- The worker, which also notes in the state, one behind the other, the batches that it was given
and how it ended. -/
def Worker.logged (worker : Worker C σ ε) : Worker C (σ × List (Batch C × WorkerEnd ε)) ε :=
  fun b s => ((worker b s.1).1, (worker b s.1).2, s.2 ++ [(b, (worker b s.1).1)])

/-- The failure that a note tells of. -/
def failureIn? (x : Batch C × WorkerEnd ε) : Option (ℕ × ε) :=
  match x.2 with
  | .failed e => some (x.1.index, e)
  | _ => none

/-- The abort that a note tells of. -/
def abortIn? (x : Batch C × WorkerEnd ε) : Option Abort :=
  match x.2 with
  | .aborted a => some a
  | _ => none

/-- The failures that notes tell of, with the indices of the batches. -/
def failuresIn (log : List (Batch C × WorkerEnd ε)) : List (ℕ × ε) := log.filterMap failureIn?

/-- The aborts that notes tell of. -/
def abortsIn (log : List (Batch C × WorkerEnd ε)) : List Abort := log.filterMap abortIn?

theorem filterMap_concat {β : Type} (f : α → Option β) (l : List α) (x : α) :
    (l ++ [x]).filterMap f = l.filterMap f ++ (f x).toList := by
  rw [List.filterMap_append]
  cases hx : f x <;> simp [hx]

variable {log : List (Batch C × WorkerEnd ε)} {b : Batch C} {e : ε} {a : Abort}

theorem mem_failuresIn_iff {f : ℕ × ε} :
    f ∈ failuresIn log ↔ ∃ b, (b, .failed f.2) ∈ log ∧ b.index = f.1 := by
  rw [failuresIn, List.mem_filterMap]
  constructor
  · rintro ⟨⟨b, r⟩, hmem, hr⟩
    cases r with
    | failed e =>
      cases hr
      exact ⟨b, hmem, rfl⟩
    | done => cases hr
    | aborted a => cases hr
  · rintro ⟨b, hmem, hindex⟩
    exact ⟨_, hmem, congrArg some (Prod.ext hindex rfl)⟩

theorem mem_abortsIn_iff : a ∈ abortsIn log ↔ ∃ b, (b, .aborted a) ∈ log := by
  rw [abortsIn, List.mem_filterMap]
  constructor
  · rintro ⟨⟨b, r⟩, hmem, hr⟩
    cases r with
    | aborted a' =>
      cases hr
      exact ⟨b, hmem⟩
    | done => cases hr
    | failed e => cases hr
  · rintro ⟨b, hmem⟩
    exact ⟨_, hmem, rfl⟩

/-- Batches with different indices fail with different indices. -/
theorem nodup_failuresIn (h : (log.map fun x => x.1.index).Nodup) :
    ((failuresIn log).map Prod.fst).Nodup := by
  have hsub : ((failuresIn log).map Prod.fst).Sublist (log.map fun x => x.1.index) := by
    clear h
    induction log with
    | nil => exact List.Sublist.slnil
    | cons x log ih =>
      obtain ⟨b, r⟩ := x
      cases r with
      | failed e => exact ih.cons_cons b.index
      | done => exact ih.cons b.index
      | aborted a => exact ih.cons b.index
  exact hsub.nodup h

/-- How a call ends whose workers ended like this, one after the other. -/
inductive EndsAs (log : List (Batch C × WorkerEnd ε)) : Ending ε → Prop where
  /-- All of them succeeded. -/
  | done : (∀ x ∈ log, x.2 = .done) → EndsAs log .done
  /-- None aborted, and this is the failure of the first batch in the plan that has one. -/
  | failed {b : Batch C} {e : ε} : (b, .failed e) ∈ log →
      (∀ b' e', (b', .failed e') ∈ log → b.index ≤ b'.index) →
      (∀ b' a, (b', .aborted a) ∉ log) → EndsAs log (.failed e)
  /-- This is the first abort. -/
  | aborted {a : Abort} : (abortsIn log).head? = some a → EndsAs log (.aborted a)

namespace Progress

/-! ### One batch after the other -/

/-- What is known of the batches that are done is what the notes tell of them. -/
structure Records (p : Progress σ ε) (log : List (Batch C × WorkerEnd ε)) : Prop where
  /-- The failure of the earliest batch. -/
  failure?_eq : p.failure? = earliest (failuresIn log)
  /-- The first abort. -/
  abort?_eq : p.abort? = (abortsIn log).head?
  /-- The batches that failed. -/
  failures_eq : p.failures.reverse = (failuresIn log).map Prod.fst

variable {p : Progress σ ε}

theorem records_nil (s : σ) : ({ state := s } : Progress σ ε).Records ([] : List (Batch C × _)) :=
  ⟨rfl, rfl, rfl⟩

/-- One more batch goes on record. -/
theorem Records.run (h : p.Records log) (worker : Worker C σ ε) (b : Batch C) :
    (p.run worker b).Records (log ++ [(b, (worker b p.state).1)]) := by
  have hfailures : failuresIn (log ++ [(b, (worker b p.state).1)])
      = failuresIn log ++ (failureIn? (b, (worker b p.state).1)).toList := by
    rw [failuresIn, filterMap_concat, ← failuresIn]
  have haborts : abortsIn (log ++ [(b, (worker b p.state).1)])
      = abortsIn log ++ (abortIn? (b, (worker b p.state).1)).toList := by
    rw [abortsIn, filterMap_concat, ← abortsIn]
  obtain ⟨hfailure, habort, hwarned⟩ := h
  rw [Progress.run]
  rcases hrun : worker b p.state with ⟨r, s⟩
  rw [hrun] at hfailures haborts
  cases r with
  | done =>
    rw [failureIn?, Option.toList_none, List.append_nil] at hfailures
    rw [abortIn?, Option.toList_none, List.append_nil] at haborts
    exact ⟨by rw [hfailures, hfailure], by rw [haborts, habort], by rw [hfailures, hwarned]⟩
  | failed e =>
    rw [failureIn?, Option.toList_some] at hfailures
    rw [abortIn?, Option.toList_none, List.append_nil] at haborts
    refine ⟨?_, by rw [haborts, habort], ?_⟩
    · rw [hfailures, earliest_concat, ← hfailure]
    · rw [hfailures, List.map_append, ← hwarned, List.reverse_cons]
      rfl
  | aborted a =>
    rw [failureIn?, Option.toList_none, List.append_nil] at hfailures
    rw [abortIn?, Option.toList_some] at haborts
    refine ⟨by rw [hfailures, hfailure], ?_, by rw [hfailures, hwarned]⟩
    rw [haborts, List.head?_append, ← habort]
    rfl

/-- The same progress, with notes beside the state. -/
def withLog (p : Progress σ ε) (log : List (Batch C × WorkerEnd ε)) :
    Progress (σ × List (Batch C × WorkerEnd ε)) ε :=
  ⟨(p.state, log), p.failure?, p.abort?, p.failures⟩

/-- Taking notes changes nothing else. -/
theorem run_logged (worker : Worker C σ ε) (p : Progress σ ε)
    (log : List (Batch C × WorkerEnd ε)) (b : Batch C) :
    (p.withLog log).run worker.logged b
      = (p.run worker b).withLog (log ++ [(b, (worker b p.state).1)]) := by
  rw [Progress.run, Progress.run, Worker.logged, withLog]
  rcases hrun : worker b p.state with ⟨r, s⟩
  cases r <;> rfl

/-- Batches that are done one after the other all go on record, each with what the worker answered
for it. -/
theorem exists_foldl_run (worker : Worker C σ ε) (bs : List (Batch C)) (h : p.Records log) :
    ∃ log', bs.foldl (fun q b => q.run worker.logged b) (p.withLog log)
        = (bs.foldl (fun q b => q.run worker b) p).withLog (log ++ log') ∧
      (bs.foldl (fun q b => q.run worker b) p).Records (log ++ log') ∧ log'.map Prod.fst = bs ∧
      ∀ x ∈ log', ∃ s, x.2 = (worker x.1 s).1 := by
  induction bs generalizing p log with
  | nil => exact ⟨[], by rw [List.append_nil]; rfl, by rwa [List.append_nil], rfl, by simp⟩
  | cons b bs ih =>
    obtain ⟨log', hlogged, hrecords, hbatches, hends⟩ := ih (h.run worker b)
    rw [List.append_assoc] at hlogged hrecords
    refine ⟨(b, (worker b p.state).1) :: log', ?_, hrecords, ?_, ?_⟩
    · rw [List.foldl_cons, run_logged, hlogged]
      rfl
    · rw [List.map_cons, hbatches]
    · rintro x (_ | ⟨_, hx⟩)
      · exact ⟨p.state, rfl⟩
      · exact hends x hx

/-- How a call ends follows from the notes. -/
theorem Records.endsAs (h : p.Records log) : EndsAs log p.ending := by
  rw [ending, h.abort?_eq, h.failure?_eq]
  rcases habort : (abortsIn log).head? with _ | a
  · have hnone : ∀ b a, (b, WorkerEnd.aborted a) ∉ log := by
      intro b a hmem
      have haborts := mem_abortsIn_iff.2 ⟨b, hmem⟩
      rw [List.head?_eq_none_iff.1 habort] at haborts
      exact List.not_mem_nil haborts
    obtain ⟨hnil, hearliest⟩ | ⟨f, hf, hearliest, hle⟩ := earliest_cases (failuresIn log)
    · rw [hearliest]
      refine .done fun ⟨b, r⟩ hx => ?_
      cases r with
      | done => rfl
      | failed e =>
        have hmem : (b.index, e) ∈ failuresIn log := mem_failuresIn_iff.2 ⟨b, hx, rfl⟩
        rw [hnil] at hmem
        exact absurd hmem List.not_mem_nil
      | aborted a => exact absurd hx (hnone b a)
    · rw [hearliest]
      obtain ⟨b, hb, hindex⟩ := mem_failuresIn_iff.1 hf
      refine .failed hb (fun b' e' hb' => ?_) hnone
      rw [hindex]
      exact hle (b'.index, e') (mem_failuresIn_iff.2 ⟨b', hb', rfl⟩)
  · exact .aborted habort

/-- Workers that do not fail change the state only. -/
theorem foldl_run_of_done (next : Batch C → σ → σ) (bs : List (Batch C)) (s : σ) :
    bs.foldl (fun q b => q.run (fun b s => (.done, next b s)) b) ({ state := s } : Progress σ ε)
      = { state := bs.foldl (fun s b => next b s) s } := by
  induction bs generalizing s with
  | nil => rfl
  | cons b bs ih => exact ih (next b s)

end Progress

namespace EndsAs

variable {ending : Ending ε}

/-- A call succeeds just if all workers do. -/
theorem eq_done_iff (h : EndsAs log ending) : ending = .done ↔ ∀ x ∈ log, x.2 = .done := by
  constructor
  · rintro rfl
    cases h with
    | done hall => exact hall
  · intro hall
    cases h with
    | done _ => rfl
    | failed hmem _ _ => cases hall _ hmem
    | aborted hhead =>
      obtain ⟨b, hmem⟩ := mem_abortsIn_iff.1 (List.mem_of_head? hhead)
      cases hall _ hmem

/-- If none aborts, a call fails as the first batch in the plan that fails. -/
theorem eq_failed (h : EndsAs log ending) (hmem : (b, .failed e) ∈ log)
    (hfirst : ∀ b' e', (b', .failed e') ∈ log → b.index ≤ b'.index)
    (hindex : (log.map fun x => x.1.index).Nodup) (habort : ∀ b' a, (b', .aborted a) ∉ log) :
    ending = .failed e := by
  cases h with
  | done hall => cases hall _ hmem
  | @failed b' e' hmem' hfirst' _ =>
    have hsame : b.index = b'.index := le_antisymm (hfirst b' e' hmem') (hfirst' b e hmem)
    have heq := List.inj_on_of_nodup_map hindex hmem hmem' hsame
    cases heq
    rfl
  | aborted hhead =>
    obtain ⟨b', hmem'⟩ := mem_abortsIn_iff.1 (List.mem_of_head? hhead)
    exact absurd hmem' (habort b' _)

end EndsAs

/-! ### A call for all batches -/

namespace Dispatcher

variable [Positioned C α] {c : C} {plan : Plan} {order : List ℕ}

theorem IsCompletion.mem_iff (h : IsCompletion plan order) {i : ℕ} : i ∈ order ↔ i < plan.count :=
  (List.Perm.mem_iff h).trans List.mem_range

theorem IsCompletion.nodup (h : IsCompletion plan order) : order.Nodup :=
  (List.Perm.nodup_iff h).2 List.nodup_range

/-- A call with a plan for the collection goes through the batches as they finish. -/
theorem forEachBatchIn_eq (d : Dispatcher) (hlen : plan.len = positions c)
    (worker : Worker C σ ε) (state : σ) {p : Progress σ ε}
    (hp : (order.map (batch c plan)).foldl (fun q b => q.run worker b) { state := state } = p) :
    d.forEachBatchIn order c plan worker state
      = ⟨(p.ending, p.state), some ⟨positions c, plan.count, d.threads⟩, p.failures.reverse⟩ := by
  rw [List.foldl_map] at hp
  rw [forEachBatchIn, if_pos hlen, ← hp, ← hlen]

theorem map_index_log {log : List (Batch C × WorkerEnd ε)}
    (h : log.map Prod.fst = order.map (batch c plan)) :
    log.map (fun x => x.1.index) = order := by
  have hmap := congrArg (List.map fun b : Batch C => b.index) h
  rw [List.map_map, List.map_map] at hmap
  exact hmap.trans (List.map_id order)

/-- A call with a plan for the collection runs the worker on the batches in the order in which they
finish, and ends as they did, whichever order their failures are reported in. -/
theorem exists_forEachBatchIn_eq (d : Dispatcher) (hlen : plan.len = positions c)
    (horder : IsCompletion plan order) (worker : Worker C σ ε) (state : σ) :
    ∃ (ending : Ending ε) (state' : σ) (log : List (Batch C × WorkerEnd ε)),
      d.forEachBatchIn order c plan worker state
        = ⟨(ending, state'), some ⟨positions c, plan.count, d.threads⟩,
            (failuresIn log).map Prod.fst⟩ ∧
      d.forEachBatchIn order c plan worker.logged (state, [])
        = ⟨(ending, state', log), some ⟨positions c, plan.count, d.threads⟩,
            (failuresIn log).map Prod.fst⟩ ∧
      log.map Prod.fst = order.map (batch c plan) ∧ (∀ x ∈ log, ∃ s, x.2 = (worker x.1 s).1) ∧
      EndsAs log ending ∧
      ∀ reports : List (ℕ × ε), reports.Perm (failuresIn log) →
        (⟨state', earliest reports, (abortsIn log).head?, []⟩ : Progress σ ε).ending = ending := by
  have hstart : ({ state := state } : Progress σ ε).Records ([] : List (Batch C × _)) :=
    Progress.records_nil state
  obtain ⟨log, hlogged, hrecords, hbatches, hends⟩ :=
    Progress.exists_foldl_run worker (order.map (batch c plan)) hstart
  rw [List.nil_append] at hlogged hrecords
  generalize hp : (order.map (batch c plan)).foldl (fun q b => q.run worker b)
    ({ state := state } : Progress σ ε) = p at hlogged hrecords
  refine ⟨p.ending, p.state, log, ?_, ?_, hbatches, hends, hrecords.endsAs,
    fun reports hperm => ?_⟩
  · rw [d.forEachBatchIn_eq hlen worker state hp, hrecords.failures_eq]
  · rw [d.forEachBatchIn_eq hlen worker.logged (state, []) hlogged, ← hrecords.failures_eq]
    rfl
  · have hnodup : ((failuresIn log).map Prod.fst).Nodup :=
      nodup_failuresIn (map_index_log hbatches ▸ horder.nodup)
    rw [earliest_eq_of_perm hperm ((hperm.map Prod.fst).nodup_iff.2 hnodup), ← hrecords.failure?_eq,
      ← hrecords.abort?_eq]
    rfl

/-- If no batch aborts, then all succeed, or one is the first that fails. -/
theorem first_failure_cases {ends : ℕ → WorkerEnd ε} {n : ℕ}
    (habort : ∀ i < n, ∀ a, ends i ≠ .aborted a) :
    (∀ i < n, ends i = .done) ∨ ∃ i < n, ∃ e, ends i = .failed e ∧ ∀ j < i, ends j = .done := by
  induction n with
  | zero => exact Or.inl fun i hi => absurd hi (Nat.not_lt_zero i)
  | succ n ih =>
    obtain hall | ⟨i, hi, hfirst⟩ := ih fun i hi => habort i (hi.trans n.lt_succ_self)
    · rcases hn : ends n with _ | e | a
      · exact Or.inl fun i hi => (Nat.lt_succ_iff_lt_or_eq.1 hi).elim (hall i) (· ▸ hn)
      · exact Or.inr ⟨n, n.lt_succ_self, e, hn, hall⟩
      · exact absurd hn (habort n n.lt_succ_self a)
    · exact Or.inr ⟨i, hi.trans n.lt_succ_self, hfirst⟩

/-- Two batches that are the first to fail are one. -/
theorem first_failure_unique {ends : ℕ → WorkerEnd ε} {i j : ℕ} {e e' : ε}
    (hi : ends i = .failed e) (hi' : ∀ l < i, ends l = .done) (hj : ends j = .failed e')
    (hj' : ∀ l < j, ends l = .done) : e = e' := by
  rcases Nat.lt_trichotomy i j with hij | rfl | hji
  · cases hi.symm.trans (hj' i hij)
  · cases hi.symm.trans hj
    rfl
  · cases hj.symm.trans (hi' j hji)

/-- If how the worker ends depends on the batch alone, the notes name each batch with that. -/
theorem exists_log_of_ends (d : Dispatcher) (hlen : plan.len = positions c)
    (horder : IsCompletion plan order) {worker : Worker C σ ε} {ends : ℕ → WorkerEnd ε}
    (hends : ∀ i < plan.count, ∀ s, (worker (batch c plan i) s).1 = ends i) (state : σ) :
    ∃ log : List (Batch C × WorkerEnd ε),
      EndsAs log (d.forEachBatchIn order c plan worker state).result.1 ∧
        (log.map fun x => x.1.index).Nodup ∧
        ∀ x, x ∈ log ↔ ∃ i < plan.count, x = (batch c plan i, ends i) := by
  obtain ⟨ending, state', log, hreport, -, hbatches, hworker, hending, -⟩ :=
    d.exists_forEachBatchIn_eq hlen horder worker state
  have hmem : ∀ x ∈ log, ∃ i < plan.count, x = (batch c plan i, ends i) := by
    rintro ⟨b, r⟩ hx
    obtain ⟨i, hi, rfl⟩ := List.mem_map.1 (hbatches ▸ List.mem_map_of_mem (f := Prod.fst) hx)
    obtain ⟨s, hs⟩ := hworker _ hx
    have hlt := horder.mem_iff.1 hi
    exact ⟨i, hlt, Prod.ext rfl (hs.trans (hends i hlt s))⟩
  refine ⟨log, hreport ▸ hending, map_index_log hbatches ▸ horder.nodup, fun x => ⟨hmem x, ?_⟩⟩
  rintro ⟨i, hi, rfl⟩
  have hbatch : batch c plan i ∈ log.map Prod.fst :=
    hbatches ▸ List.mem_map_of_mem (horder.mem_iff.2 hi)
  obtain ⟨x, hx, hxi⟩ := List.mem_map.1 hbatch
  obtain ⟨j, -, rfl⟩ := hmem x hx
  have hij : j = i := congrArg Batch.index hxi
  exact hij ▸ hx

/-- If how the worker ends depends on the batch alone, and it aborts for none, then the call ends
the same way in every order: it fails as the first batch in the plan that does. -/
theorem exists_ending_eq (d : Dispatcher) (hlen : plan.len = positions c) {worker : Worker C σ ε}
    {ends : ℕ → WorkerEnd ε} (hends : ∀ i < plan.count, ∀ s, (worker (batch c plan i) s).1 = ends i)
    (habort : ∀ i < plan.count, ∀ a, ends i ≠ .aborted a) :
    ∃ ending : Ending ε,
      (∀ order state, IsCompletion plan order →
        (d.forEachBatchIn order c plan worker state).result.1 = ending) ∧
      (ending = .done ↔ ∀ i < plan.count, ends i = .done) ∧
      ∀ e, ending = .failed e ↔
        ∃ i < plan.count, ends i = .failed e ∧ ∀ j < i, ends j = .done := by
  obtain hall | ⟨i, hi, e, he, hfirst⟩ := first_failure_cases habort
  · refine ⟨.done, fun order state horder => ?_, iff_of_true rfl hall, fun e => ?_⟩
    · obtain ⟨log, hending, -, hmem⟩ := d.exists_log_of_ends hlen horder hends state
      refine hending.eq_done_iff.2 fun x hx => ?_
      obtain ⟨i, hi, rfl⟩ := (hmem x).1 hx
      exact hall i hi
    · refine iff_of_false (fun h => by cases h) ?_
      rintro ⟨i, hi, hfailed, -⟩
      cases (hall i hi).symm.trans hfailed
  · refine ⟨.failed e, fun order state horder => ?_, ?_, fun e' => ?_⟩
    · obtain ⟨log, hending, hnodup, hmem⟩ := d.exists_log_of_ends hlen horder hends state
      have hlog : (batch c plan i, .failed e) ∈ log := (hmem _).2 ⟨i, hi, by rw [he]⟩
      refine hending.eq_failed hlog (fun b' e' hx => ?_) hnodup fun b' a hx => ?_
      · obtain ⟨j, -, hj⟩ := (hmem _).1 hx
        obtain ⟨rfl, hej⟩ := Prod.mk.inj hj
        exact Nat.le_of_not_lt fun hji => by cases hej.trans (hfirst j hji)
      · obtain ⟨j, hj, hxj⟩ := (hmem _).1 hx
        exact habort j hj a (Prod.mk.inj hxj).2.symm
    · exact iff_of_false (fun h => by cases h) fun hall => by cases he.symm.trans (hall i hi)
    · constructor
      · rintro h
        cases h
        exact ⟨i, hi, he, hfirst⟩
      · rintro ⟨j, hj, hfailed, hfirst'⟩
        rw [first_failure_unique he hfirst hfailed hfirst']

/-- A call whose workers do not fail succeeds. -/
theorem forEachBatchIn_of_done (d : Dispatcher) (hlen : plan.len = positions c)
    (next : Batch C → σ → σ) (state : σ) :
    d.forEachBatchIn order c plan (fun b s => ((.done : WorkerEnd ε), next b s)) state
      = ⟨(.done, order.foldl (fun s i => next (batch c plan i) s) state),
          some ⟨positions c, plan.count, d.threads⟩, []⟩ := by
  have hfold := Progress.foldl_run_of_done (ε := ε) next (order.map (batch c plan)) state
  rw [d.forEachBatchIn_eq hlen _ state hfold, List.foldl_map]
  rfl

end Dispatcher

end Slotted
