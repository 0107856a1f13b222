import Slotted.Proofs.Table.Invariant

/-!
# Searching a sound table

The three searches walk a probe sequence and differ in where they stop.  Each is described by what
it does at one slot, according to the sort of the slot, and from that by induction on the steps it
may still make: what it answers is right, and on a sound table it does answer, since the sequence
visits every slot and one of them is empty.

## Main definitions

* `Table.Admits` — a slot that a value may be put into.

## Main results

* `Table.Sound.find_eq_some_iff`, `find_eq_none_iff` — `find` finds what is there, and nothing else.
* `Table.Sound.locate_cases` — `locate` finds the value, or a slot that admits it.
* `Table.Sound.exists_firstEmpty_eq` — `firstEmpty` finds a slot, and the hash reaches it.
-/

namespace Slotted
namespace Table

variable {k : Kind} {P : Type} {t : Table k P} {key hash : UInt64} {fuel : ℕ} {p : Probe}

/-- A value may be put into slot `i`: the slot is free and reached, and no value has that key. -/
structure Admits (t : Table k P) (v : Scalar k) (i : ℕ) : Prop where
  /-- The probe sequence of the value reaches the slot. -/
  reached : t.Reached v.hash i
  /-- The slot holds nothing. -/
  free : t.slots[i]? = some .tombstone ∨ t.slots[i]? = some .empty
  /-- No live slot holds a value with the same key. -/
  absent : v.key ∉ t.keys

/-! ### One step of a search -/

theorem search_of_live {w : Scalar k} {q : P} (hs : t.slots[p.pos]? = some (.live w q)) :
    t.search key (fuel + 1) p
      = if w.key = key then some p.pos else t.search key fuel p.next := by
  rw [search]
  simp only [hs, beq_iff_eq]

theorem search_of_tombstone (hs : t.slots[p.pos]? = some .tombstone) :
    t.search key (fuel + 1) p = t.search key fuel p.next := by
  rw [search]
  simp only [hs]

theorem searchPlace_of_live {w : Scalar k} {q : P} {r : Option ℕ}
    (hs : t.slots[p.pos]? = some (.live w q)) :
    t.searchPlace key (fuel + 1) p r
      = if w.key = key then .found p.pos else t.searchPlace key fuel p.next r := by
  rw [searchPlace]
  simp only [hs, beq_iff_eq]

theorem searchPlace_of_tombstone {r : Option ℕ} (hs : t.slots[p.pos]? = some .tombstone) :
    t.searchPlace key (fuel + 1) p r
      = t.searchPlace key fuel p.next (some (r.getD p.pos)) := by
  rw [searchPlace]
  simp only [hs]

theorem searchPlace_of_empty {r : Option ℕ} (hs : t.slots[p.pos]? = some .empty) :
    t.searchPlace key (fuel + 1) p r = .vacant (r.getD p.pos) := by
  rw [searchPlace]
  simp only [hs]

theorem firstEmpty_of_empty (hs : t.slots[p.pos]? = some .empty) :
    t.firstEmpty (fuel + 1) p = some p.pos := by
  rw [firstEmpty]
  simp only [hs]

theorem firstEmpty_of_ne {s : Slot k P} (hs : t.slots[p.pos]? = some s) (hne : s ≠ .empty) :
    t.firstEmpty (fuel + 1) p = t.firstEmpty fuel p.next := by
  rw [firstEmpty]
  cases s with
  | empty => exact absurd rfl hne
  | tombstone => simp only [hs]
  | live v q => simp only [hs]

/-! ### What is found is there -/

theorem exists_live_of_search {i : ℕ} (h : t.search key fuel p = some i) :
    ∃ w q, t.slots[i]? = some (.live w q) ∧ w.key = key := by
  induction fuel generalizing p with
  | zero => exact absurd h (by simp [search])
  | succ fuel ih =>
    rcases hs : t.slots[p.pos]? with _ | _ | _ | ⟨w, q⟩
    · rw [search] at h
      simp [hs] at h
    · rw [search] at h
      simp [hs] at h
    · rw [search_of_tombstone hs] at h
      exact ih h
    · rw [search_of_live hs] at h
      split at h
      · next hkey =>
        rw [← Option.some.inj h]
        exact ⟨w, q, hs, hkey⟩
      · exact ih h

theorem exists_live_of_searchPlace {i : ℕ} {r : Option ℕ}
    (h : t.searchPlace key fuel p r = .found i) :
    ∃ w q, t.slots[i]? = some (.live w q) ∧ w.key = key := by
  induction fuel generalizing p r with
  | zero => cases r <;> exact absurd h (by simp [searchPlace])
  | succ fuel ih =>
    rcases hs : t.slots[p.pos]? with _ | _ | _ | ⟨w, q⟩
    · rw [searchPlace] at h
      simp [hs] at h
    · rw [searchPlace_of_empty hs] at h
      exact absurd h (by simp)
    · rw [searchPlace_of_tombstone hs] at h
      exact ih h
    · rw [searchPlace_of_live hs] at h
      split at h
      · next hkey =>
        rw [← Place.found.inj h]
        exact ⟨w, q, hs, hkey⟩
      · exact ih h

/-! ### What is there is found

The step where the value stands is ahead of the search, and no slot before it is empty.  So at each
slot the search finds the key or goes on. -/

section Way

variable {N : ℕ} {v : Scalar k} {q : P}

/-- A slot that is not empty prolongs a way without empty slots. -/
theorem open_succ {n : ℕ} {s : Slot k P}
    (hopen : ∀ m, m < n → t.slots[t.stop hash m]? ≠ some .empty)
    (hs : t.slots[t.stop hash n]? = some s) (hne : s ≠ .empty) :
    ∀ m, m < n + 1 → t.slots[t.stop hash m]? ≠ some .empty := by
  intro m hm
  rcases Nat.lt_or_eq_of_le (Nat.le_of_lt_succ hm) with hlt | rfl
  · exact hopen m hlt
  · rw [hs]
    exact fun he => hne (Option.some.inj he)

theorem search_ne_none (fuel : ℕ) (hbound : ∀ m, t.stop hash m < t.capacity)
    (hlive : t.slots[t.stop hash N]? = some (.live v q))
    (hopen : ∀ m, m < N → t.slots[t.stop hash m]? ≠ some .empty) (n : ℕ) (hn : n ≤ N)
    (hN : N < n + fuel) :
    t.search v.key fuel ((Probe.start hash t.capacity).iterate n) ≠ none := by
  -- induct on the steps that may still be made, from the slot after `n` moves on
  induction fuel generalizing n with
  | zero => omega
  | succ fuel ih =>
    obtain ⟨s, hs⟩ := exists_getElem?_of_lt (hbound n)
    rcases Nat.lt_or_eq_of_le hn with hlt | rfl
    · have hnext := ih (n + 1) (by omega) (by omega)
      cases s with
      | empty => exact absurd hs (hopen n hlt)
      | tombstone =>
        rw [search_of_tombstone hs]
        exact hnext
      | live w q' =>
        rw [search_of_live hs]
        split
        · simp
        · exact hnext
    · rw [search_of_live hlive, if_pos rfl]
      simp

theorem exists_searchPlace_eq_found (fuel : ℕ) (hbound : ∀ m, t.stop hash m < t.capacity)
    (hlive : t.slots[t.stop hash N]? = some (.live v q))
    (hopen : ∀ m, m < N → t.slots[t.stop hash m]? ≠ some .empty) (n : ℕ) (hn : n ≤ N)
    (hN : N < n + fuel) (r : Option ℕ) :
    ∃ i, t.searchPlace v.key fuel ((Probe.start hash t.capacity).iterate n) r = .found i := by
  induction fuel generalizing n r with
  | zero => omega
  | succ fuel ih =>
    obtain ⟨s, hs⟩ := exists_getElem?_of_lt (hbound n)
    rcases Nat.lt_or_eq_of_le hn with hlt | rfl
    · have hnext := ih (n + 1) (by omega) (by omega)
      cases s with
      | empty => exact absurd hs (hopen n hlt)
      | tombstone =>
        rw [searchPlace_of_tombstone hs]
        exact hnext _
      | live w q' =>
        rw [searchPlace_of_live hs]
        split
        · exact ⟨_, rfl⟩
        · exact hnext r
    · rw [searchPlace_of_live hlive, if_pos rfl]
      exact ⟨_, rfl⟩

end Way

/-! ### A free slot is found -/

/-- The slot of a search for a place is the remembered tombstone or the empty slot it came to; both
are reached, as no slot on the way was empty. -/
theorem reached_of_searchPlace {n i : ℕ} {r : Option ℕ}
    (hbound : ∀ m, t.stop hash m < t.capacity) (hn : n + fuel ≤ t.capacity)
    (hopen : ∀ m, m < n → t.slots[t.stop hash m]? ≠ some .empty)
    (hr : ∀ j, r = some j → t.Reached hash j ∧ t.slots[j]? = some .tombstone)
    (h : t.searchPlace key fuel ((Probe.start hash t.capacity).iterate n) r = .vacant i) :
    t.Reached hash i ∧ (t.slots[i]? = some .tombstone ∨ t.slots[i]? = some .empty) := by
  induction fuel generalizing n r with
  | zero =>
    cases r with
    | none => exact absurd h (by simp [searchPlace])
    | some j =>
      rw [searchPlace] at h
      obtain ⟨hj, hs⟩ := hr j rfl
      rw [← Place.vacant.inj h]
      exact ⟨hj, Or.inl hs⟩
  | succ fuel ih =>
    obtain ⟨s, hs⟩ := exists_getElem?_of_lt (hbound n)
    have hhere : t.Reached hash (t.stop hash n) := ⟨n, by omega, rfl, hopen⟩
    have hopen' := open_succ hopen hs
    cases s with
    | empty =>
      rw [searchPlace_of_empty hs] at h
      rw [← Place.vacant.inj h]
      -- a tombstone remembered on the way goes first
      cases r with
      | none => exact ⟨hhere, Or.inr hs⟩
      | some j => exact ⟨(hr j rfl).1, Or.inl (hr j rfl).2⟩
    | tombstone =>
      rw [searchPlace_of_tombstone hs] at h
      refine ih (by omega) (hopen' (by simp)) ?_ h
      intro j hj
      rw [← Option.some.inj hj]
      cases r with
      | none => exact ⟨hhere, hs⟩
      | some j' => exact hr j' rfl
    | live w q =>
      rw [searchPlace_of_live hs] at h
      split at h
      · exact absurd h (by simp)
      · exact ih (by omega) (hopen' (by simp)) hr h

theorem searchPlace_ne_exhausted {N n : ℕ} {r : Option ℕ}
    (hbound : ∀ m, t.stop hash m < t.capacity) (hempty : t.slots[t.stop hash N]? = some .empty)
    (hn : n ≤ N) (hN : N < n + fuel) :
    t.searchPlace key fuel ((Probe.start hash t.capacity).iterate n) r ≠ .exhausted := by
  induction fuel generalizing n r with
  | zero => omega
  | succ fuel ih =>
    obtain ⟨s, hs⟩ := exists_getElem?_of_lt (hbound n)
    rcases Nat.lt_or_eq_of_le hn with hlt | rfl
    · have hnext : ∀ r, t.searchPlace key fuel
          ((Probe.start hash t.capacity).iterate (n + 1)) r ≠ .exhausted :=
        fun r => ih (by omega) (by omega)
      cases s with
      | empty =>
        rw [searchPlace_of_empty hs]
        simp
      | tombstone =>
        rw [searchPlace_of_tombstone hs]
        exact hnext _
      | live w q =>
        rw [searchPlace_of_live hs]
        split
        · simp
        · exact hnext r
    · rw [searchPlace_of_empty hempty]
      simp

theorem exists_firstEmpty {N n : ℕ} (hbound : ∀ m, t.stop hash m < t.capacity)
    (hempty : t.slots[t.stop hash N]? = some .empty)
    (hopen : ∀ m, m < n → t.slots[t.stop hash m]? ≠ some .empty)
    (hn : n ≤ N) (hN : N < n + fuel) (hcap : n + fuel ≤ t.capacity) :
    ∃ i, t.firstEmpty fuel ((Probe.start hash t.capacity).iterate n) = some i ∧
      t.slots[i]? = some .empty ∧ t.Reached hash i := by
  induction fuel generalizing n with
  | zero => omega
  | succ fuel ih =>
    obtain ⟨s, hs⟩ := exists_getElem?_of_lt (hbound n)
    by_cases hne : s = .empty
    · subst hne
      exact ⟨_, firstEmpty_of_empty hs, hs, n, by omega, rfl, hopen⟩
    · have hnN : n ≠ N := by
        rintro rfl
        exact hne (Option.some.inj (hs.symm.trans hempty))
      rw [firstEmpty_of_ne hs hne]
      exact ih (open_succ hopen hs hne) (by omega) (by omega) (by omega)

/-! ### Sound tables -/

theorem exists_live_of_find {v : Scalar k} {i : ℕ} (h : t.find v = some i) :
    ∃ w q, t.slots[i]? = some (.live w q) ∧ w.key = v.key := by
  rw [find] at h
  split at h
  · exact absurd h (by simp)
  · exact exists_live_of_search h

namespace Sound

variable {v : Scalar k} {i : ℕ}

/-- A value is found exactly where one with its key is. -/
theorem find_eq_some_iff (ht : t.Sound) :
    t.find v = some i ↔ ∃ w q, t.slots[i]? = some (.live w q) ∧ w.key = v.key := by
  refine ⟨exists_live_of_find, ?_⟩
  rintro ⟨w, q, hs, hkey⟩
  have hcap : t.capacity ≠ 0 := by
    have hlt := lt_capacity_of_getElem? hs
    omega
  have hlive : t.live ≠ 0 := by
    intro h0
    rw [ht.live_eq_card, Multiset.card_eq_zero] at h0
    have hmem : (w, q) ∈ t.contents := mem_contents_iff.2 ⟨i, hs⟩
    rw [h0] at hmem
    exact absurd hmem (Multiset.notMem_zero _)
  -- the search finds a slot with the key, and there is only one
  obtain ⟨N, hN, hstop, hopen⟩ := ht.reached hs
  rw [← hstop] at hs
  have hsome := search_ne_none t.capacity (stop_lt ht.length hcap w.hash) hs hopen 0
    (Nat.zero_le N) (by omega)
  rw [hkey, Scalar.hash_eq_of_key_eq hkey] at hsome
  obtain ⟨j, hj⟩ := Option.ne_none_iff_exists'.1 hsome
  have hfind : t.find v = some j := by
    rw [find, if_neg hlive]
    exact hj
  obtain ⟨w', q', hs', hkey'⟩ := exists_live_of_find hfind
  rw [hfind, ← ht.distinct (hstop ▸ hs) hs' (hkey.trans hkey'.symm)]

theorem find_eq_none_iff (ht : t.Sound) : t.find v = none ↔ v.key ∉ t.keys := by
  constructor
  · intro h hmem
    obtain ⟨i, w, q, hs, hkey⟩ := mem_keys_iff.1 hmem
    rw [ht.find_eq_some_iff.2 ⟨w, q, hs, hkey⟩] at h
    exact absurd h (by simp)
  · intro h
    by_contra hne
    obtain ⟨i, hi⟩ := Option.ne_none_iff_exists'.1 hne
    obtain ⟨w, q, hs, hkey⟩ := exists_live_of_find hi
    exact h (mem_keys_iff.2 ⟨i, w, q, hs, hkey⟩)

/-- A sound table with slots locates the value, or a slot that admits it. -/
theorem locate_cases (ht : t.Sound) (hcap : t.capacity ≠ 0) (v : Scalar k) :
    (∃ i w q, t.locate v = .found i ∧ t.slots[i]? = some (.live w q) ∧ w.key = v.key) ∨
      ∃ i, t.locate v = .vacant i ∧ t.Admits v i := by
  have hbound := stop_lt ht.length hcap v.hash
  cases h : t.locate v with
  | found i =>
    obtain ⟨w, q, hs, hkey⟩ := exists_live_of_searchPlace h
    exact Or.inl ⟨i, w, q, rfl, hs, hkey⟩
  | vacant i =>
    obtain ⟨hreached, hfree⟩ := reached_of_searchPlace (n := 0) hbound (by omega)
      (fun m hm => absurd hm (by omega)) (fun j hj => absurd hj (by simp)) h
    refine Or.inr ⟨i, rfl, hreached, hfree, ?_⟩
    intro hmem
    -- a value with the key would have been found instead
    obtain ⟨j, w, q, hs, hkey⟩ := mem_keys_iff.1 hmem
    obtain ⟨N, hN, hstop, hopen⟩ := ht.reached hs
    rw [← hstop] at hs
    obtain ⟨i', hfound⟩ := exists_searchPlace_eq_found t.capacity
      (stop_lt ht.length hcap w.hash) hs hopen 0 (Nat.zero_le N) (by omega) none
    rw [hkey, Scalar.hash_eq_of_key_eq hkey] at hfound
    exact absurd (h.symm.trans hfound) (by simp)
  | exhausted =>
    -- the sequence visits the empty slot, and stops there
    obtain ⟨j, hj⟩ := ht.exists_empty hcap
    obtain ⟨N, hN, hstop⟩ := exists_stop_eq ht.length v.hash (lt_capacity_of_getElem? hj)
    rw [← hstop] at hj
    exact absurd h (searchPlace_ne_exhausted (n := 0) hbound hj (Nat.zero_le N) (by omega))

/-- A sound table with slots has an empty one on every probe sequence, and the first is found. -/
theorem exists_firstEmpty_eq (ht : t.Sound) (hcap : t.capacity ≠ 0) (hash : UInt64) :
    ∃ i, t.firstEmpty t.capacity (Probe.start hash t.capacity) = some i ∧
      t.slots[i]? = some .empty ∧ t.Reached hash i := by
  obtain ⟨j, hj⟩ := ht.exists_empty hcap
  obtain ⟨N, hN, hstop⟩ := exists_stop_eq ht.length hash (lt_capacity_of_getElem? hj)
  rw [← hstop] at hj
  exact exists_firstEmpty (n := 0) (stop_lt ht.length hcap hash) hj
    (fun m hm => absurd hm (by omega)) (Nat.zero_le N) (by omega) (by omega)

end Sound

end Table
end Slotted
