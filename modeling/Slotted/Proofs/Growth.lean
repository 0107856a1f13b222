import Slotted.Json.Document
import Slotted.Proofs.Equality

/-!
# What additions make of a container

Of all the operations a filled container needs only the additions, and of those it is known what
they change: a set comes to contain the element, a bag counts so many more occurrences of it unless
they are too many, and nothing else is looked up differently afterwards.  So it does not matter in
which order elements are added, nor in how many lists they come.

## Main definitions

* `SetGrowth`, `BagGrowth` — what additions do to a type of sets, and of bags.
* `SameElements`, `SameCounts` — two sound containers in which all is looked up alike.
* `OrderFree` — a list may be added in any order.

## Main results

* `SetGrowth.exists_extend`, `BagGrowth.exists_extend`, `BagGrowth.exists_absorb` — what lists do.
* `SetGrowth.orderFree`, `BagGrowth.orderFree` — their order does not matter.
* `setGrowth_scalarSet`, `setGrowth_boolSet`, `bagGrowth_scalarBag`, `bagGrowth_boolBag`,
  `bagGrowth_tally` — the containers that there are.
-/

namespace Slotted

open Collection Counted

variable {C α κ : Type} [DecidableEq κ]

/-! ### Sets -/

/-- What additions do to a type of sets, whose elements are compared by a key. -/
structure SetGrowth (C : Type) {α κ : Type} [Collection C α] [DecidableEq κ] (sound : C → Prop)
    (key : α → κ) : Prop where
  /-- A new set is sound. -/
  sound_empty : sound (empty : C)
  /-- A new set contains nothing. -/
  contains_empty : ∀ a, contains (empty : C) a = false
  /-- An addition never fails, and makes the set contain the element. -/
  add : ∀ {c}, sound c → ∀ a, ∃ fresh c', (add c a).val = (.ok fresh, c') ∧ sound c' ∧
    ∀ b, contains c' b = (decide (key b = key a) || contains c b)

/-- Two sound sets that contain the same. -/
def SameElements [Collection C α] (sound : C → Prop) (c c' : C) : Prop :=
  sound c ∧ sound c' ∧ ∀ a, contains c a = contains c' a

/-- A list may be added in any order: that it goes through, and what can be looked up then, does not
depend on the order. -/
def OrderFree [Collection C α] (sound : C → Prop) (same : C → C → Prop) : Prop :=
  ∀ {c d : C} {as as' : List α}, sound c → as.Perm as' → (extend c as).val = (.ok (), d) →
    ∃ d', (extend c as').val = (.ok (), d') ∧ same d' d

/-- Adding two lists one after the other is adding them as one. -/
theorem val_extend_append [Collection C α] {c d : C} {as : List α}
    (h : (extend c as).val = (.ok (), d)) (as' : List α) :
    (extend c (as ++ as')).val = (extend d as').val := by
  induction as generalizing c with
  | nil =>
    cases h
    rfl
  | cons a as ih =>
    rw [List.cons_append, extend, Traced.val_bind]
    rw [extend, Traced.val_bind] at h
    rcases hadd : (add c a).val with ⟨r, c'⟩
    rw [hadd] at h
    cases r with
    | ok fresh => exact ih h
    | error e => cases h

/-- If two lists go through as one, so does the first alone. -/
theorem exists_extend_of_append [Collection C α] {c d : C} {as as' : List α}
    (h : (extend c (as ++ as')).val = (.ok (), d)) : ∃ m, (extend c as).val = (.ok (), m) := by
  induction as generalizing c with
  | nil => exact ⟨c, rfl⟩
  | cons a as ih =>
    rw [List.cons_append, extend, Traced.val_bind] at h
    rw [extend, Traced.val_bind]
    rcases hadd : (add c a).val with ⟨r, c'⟩
    rw [hadd] at h
    cases r with
    | ok fresh => exact ih h
    | error e => cases h

namespace SetGrowth

variable [Collection C α] {sound : C → Prop} {key : α → κ}

/-- A list makes the set contain its elements. -/
theorem exists_extend (growth : SetGrowth C sound key) {c : C} (hc : sound c) (as : List α) :
    ∃ d, (extend c as).val = (.ok (), d) ∧ sound d ∧
      ∀ b, contains d b = (decide (key b ∈ as.map key) || contains c b) := by
  induction as generalizing c with
  | nil => exact ⟨c, rfl, hc, fun b => by simp⟩
  | cons a as ih =>
    obtain ⟨fresh, c', hadd, hc', hcontains⟩ := growth.add hc a
    obtain ⟨d, hd, hsound, hcontains'⟩ := ih hc'
    refine ⟨d, ?_, hsound, fun b => ?_⟩
    · rw [extend, Traced.val_bind, hadd]
      exact hd
    · rw [hcontains', hcontains, ← Bool.or_assoc, ← Bool.decide_or, List.map_cons]
      simp only [List.mem_cons, or_comm]

theorem orderFree (growth : SetGrowth C sound key) : OrderFree sound (SameElements sound) := by
  intro c d as as' hc hperm h
  obtain ⟨e, he, hsound, hcontains⟩ := growth.exists_extend hc as
  obtain ⟨e', he', hsound', hcontains'⟩ := growth.exists_extend hc as'
  obtain rfl : e = d := congrArg Prod.snd (he.symm.trans h)
  refine ⟨e', he', hsound', hsound, fun b => ?_⟩
  rw [hcontains, hcontains']
  simp only [(hperm.map key).mem_iff]

end SetGrowth

/-! ### Bags -/

/-- What additions do to a type of bags, whose elements are compared by a key. -/
structure BagGrowth (C : Type) {α κ : Type} [Counted C α] [DecidableEq κ] (sound : C → Prop)
    (key : α → κ) : Prop where
  /-- A new bag is sound. -/
  sound_empty : sound (empty : C)
  /-- A new bag has no occurrences. -/
  size_empty : size (empty : C) = 0
  /-- Nothing occurs in a new bag. -/
  occurrencesOf_empty : ∀ a, occurrencesOf (empty : C) a = 0
  /-- Occurrences that are not too many are added, and count. -/
  addOccurrences : ∀ {c n}, sound c → ∀ a, size c + n ≤ maxWord →
    ∃ m c', (addOccurrences c a n).val = (.ok m, c') ∧ sound c' ∧ size c' = size c + n ∧
      ∀ b, occurrencesOf c' b = occurrencesOf c b + if key b = key a then n else 0
  /-- If they are too many, nothing is changed. -/
  addOccurrences_overflow : ∀ {c n}, sound c → ∀ a, maxWord < size c + n →
    (Counted.addOccurrences c a n).val = (.error .countOverflow, c)
  /-- To add an element is to add an occurrence. -/
  val_add : ∀ (c : C) (a : α), (Collection.add c a).val =
    ((Counted.addOccurrences c a 1).val.1.map (· == 1), (Counted.addOccurrences c a 1).val.2)

/-- Two sound bags that count alike. -/
def SameCounts [Counted C α] (sound : C → Prop) (c c' : C) : Prop :=
  sound c ∧ sound c' ∧ ∀ a, occurrencesOf c a = occurrencesOf c' a

namespace BagGrowth

variable [Counted C α] {sound : C → Prop} {key : α → κ}

theorem exists_add (growth : BagGrowth C sound key) {c : C} (hc : sound c) (a : α)
    (hle : size c + 1 ≤ maxWord) :
    ∃ fresh c', (Collection.add c a).val = (.ok fresh, c') ∧ sound c' ∧ size c' = size c + 1 ∧
      ∀ b, occurrencesOf c' b = occurrencesOf c b + if key b = key a then 1 else 0 := by
  obtain ⟨m, c', hadd, hrest⟩ := growth.addOccurrences hc a hle
  refine ⟨m == 1, c', ?_, hrest⟩
  rw [growth.val_add, hadd]
  rfl

/-- The occurrences of a list are counted, if there are not too many. -/
theorem exists_extend (growth : BagGrowth C sound key) {c : C} (hc : sound c) (as : List α)
    (hle : size c + as.length ≤ maxWord) :
    ∃ d, (extend c as).val = (.ok (), d) ∧ sound d ∧ size d = size c + as.length ∧
      ∀ b, occurrencesOf d b = occurrencesOf c b + (as.map key).count (key b) := by
  induction as generalizing c with
  | nil => exact ⟨c, rfl, hc, rfl, fun b => rfl⟩
  | cons a as ih =>
    rw [List.length_cons] at hle
    obtain ⟨fresh, c', hadd, hc', hsize, hocc⟩ := growth.exists_add hc a (by omega)
    obtain ⟨d, hd, hsound, hsize', hocc'⟩ := ih hc' (by omega)
    refine ⟨d, ?_, hsound, ?_, fun b => ?_⟩
    · rw [extend, Traced.val_bind, hadd]
      exact hd
    · rw [hsize', hsize, List.length_cons]
      omega
    · rw [hocc', hocc, List.map_cons, List.count_cons]
      simp only [beq_iff_eq, eq_comm (a := key a)]
      omega

/-- A list with too many occurrences does not go through. -/
theorem length_le_of_extend (growth : BagGrowth C sound key) {c d : C} (hc : sound c)
    {as : List α} (h : (extend c as).val = (.ok (), d)) (hword : size c ≤ maxWord) :
    size c + as.length ≤ maxWord := by
  induction as generalizing c with
  | nil => exact hword
  | cons a as ih =>
    rw [extend, Traced.val_bind] at h
    rcases Nat.lt_or_ge maxWord (size c + 1) with hover | hle
    · rw [growth.val_add, growth.addOccurrences_overflow hc a hover] at h
      cases h
    · obtain ⟨fresh, c', hadd, hc', hsize, -⟩ := growth.exists_add hc a hle
      rw [hadd] at h
      have hrest := ih hc' h (by omega)
      rw [List.length_cons]
      omega

/-- The counts of a list of entries are added up, if they are not too many. -/
theorem exists_absorb (growth : BagGrowth C sound key) {c : C} (hc : sound c) (es : List (α × ℕ))
    (hle : size c + (es.map Prod.snd).sum ≤ maxWord) :
    ∃ d, (Counted.absorb c es).val = .ok d ∧ sound d ∧ size d = size c + (es.map Prod.snd).sum ∧
      ∀ b, occurrencesOf d b
        = occurrencesOf c b + (es.map fun e => if key b = key e.1 then e.2 else 0).sum := by
  induction es generalizing c with
  | nil => exact ⟨c, rfl, hc, rfl, fun b => rfl⟩
  | cons e es ih =>
    obtain ⟨a, n⟩ := e
    rw [List.map_cons, List.sum_cons] at hle
    obtain ⟨m, c', hadd, hc', hsize, hocc⟩ := growth.addOccurrences hc a (n := n) (by omega)
    obtain ⟨d, hd, hsound, hsize', hocc'⟩ := ih hc' (by omega)
    have hcount : addCount? (size c) n = some (size c + n) := if_pos (by omega)
    refine ⟨d, ?_, hsound, ?_, fun b => ?_⟩
    · rw [Counted.absorb, hcount]
      simp only [Traced.val_bind, hadd]
      exact hd
    · rw [hsize', hsize, List.map_cons, List.sum_cons, Nat.add_assoc]
    · rw [hocc', hocc, List.map_cons, List.sum_cons, Nat.add_assoc]

theorem orderFree (growth : BagGrowth C sound key) (hword : ∀ {c}, sound c → size c ≤ maxWord) :
    OrderFree sound (SameCounts sound) := by
  intro c d as as' hc hperm h
  have hle := growth.length_le_of_extend hc h (hword hc)
  obtain ⟨e, he, hsound, -, hocc⟩ := growth.exists_extend hc as hle
  rw [hperm.length_eq] at hle
  obtain ⟨e', he', hsound', -, hocc'⟩ := growth.exists_extend hc as' hle
  obtain rfl : e = d := congrArg Prod.snd (he.symm.trans h)
  refine ⟨e', he', hsound', hsound, fun b => ?_⟩
  rw [hocc, hocc', (hperm.map key).count_eq]

end BagGrowth

/-! ### The containers that there are -/

theorem setGrowth_scalarSet (k : Kind) :
    SetGrowth (ScalarSet k) (fun s => s.table.Sound) Scalar.key where
  sound_empty := Table.sound_empty
  contains_empty := by
    intro v
    refine Bool.eq_false_iff.2 fun h => ?_
    have hmem := (ScalarSet.contains_iff_mem Table.sound_empty v).1 h
    exact List.not_mem_nil hmem
  add := by
    intro s hs v
    by_cases hv : v.key ∈ s.table.keys
    · refine ⟨false, s, ?_, hs, fun w => ?_⟩
      · show (Except.ok (s.add v).val.1, (s.add v).val.2) = _
        rw [ScalarSet.add_of_mem hs hv]
        rfl
      · by_cases hkey : w.key = v.key
        · rw [decide_eq_true hkey, Bool.true_or]
          exact (ScalarSet.contains_eq_true_iff hs).2 (hkey ▸ hv)
        · rw [decide_eq_false hkey, Bool.false_or]
    · have hmem := mt s.mem_map_key_toList_iff.1 hv
      obtain ⟨s', hadd, hs', -, hkeys⟩ := (setLaws_scalarSet k).add hs hmem
      refine ⟨true, s', hadd, hs', fun w => ?_⟩
      have hs'w : s'.contains w = true ↔ w.key = v.key ∨ w.key ∈ s.toList.map Scalar.key :=
        (ScalarSet.contains_iff_mem hs' w).trans (hkeys w.key)
      rw [Bool.eq_iff_iff, Bool.or_eq_true, decide_eq_true_iff]
      exact hs'w.trans (or_congr_right (ScalarSet.contains_iff_mem hs w).symm)

theorem setGrowth_boolSet : SetGrowth BoolSet (fun _ => True) (id : Bool → Bool) where
  sound_empty := trivial
  contains_empty := by decide
  add := by
    intro s _ v
    refine ⟨_, s.insert v, rfl, trivial, ?_⟩
    cases s <;> cases v <;> decide

theorem BoolSet.eq_of_contains {s s' : BoolSet} (h : ∀ v, contains s v = contains s' v) :
    s = s' := by
  have hfalse := h false
  have htrue := h true
  revert hfalse htrue
  cases s <;> cases s' <;> decide

theorem bagGrowth_scalarBag (k : Kind) : BagGrowth (ScalarBag k) ScalarBag.Sound Scalar.key where
  sound_empty := ScalarBag.sound_empty
  size_empty := rfl
  occurrencesOf_empty := fun v => ScalarBag.occurrencesOf_eq_zero ScalarBag.sound_empty
    (mt ScalarBag.empty.mem_map_key_distinct_iff.2 List.not_mem_nil)
  addOccurrences := by
    intro b n hb v hle
    obtain ⟨w, m, R, hs⟩ := hb.exists_splits v
    obtain ⟨b', hval, hb', hs'⟩ := hs.exists_addOccurrences hb hle
    refine ⟨m + n, b', hval, hb', ?_, fun u => ?_⟩
    · show b'.total = b.total + n
      rw [hs'.total_eq hb', hs.total_eq hb]
      omega
    · show b'.occurrencesOf u = b.occurrencesOf u + if u.key = v.key then n else 0
      split
      · next hkey =>
        rw [b'.occurrencesOf_congr hkey, b.occurrencesOf_congr hkey, hs'.occurrencesOf_eq hb',
          hs.occurrencesOf_eq hb]
      · next hkey => exact hs.occurrencesOf_eq_of_ne hs' hb hb' hkey
  addOccurrences_overflow := by
    intro b n hb v hover
    show (b.addOccurrences v n).val = _
    rw [ScalarBag.addOccurrences_of_overflow hb v hover]
    rfl
  val_add := fun b v => rfl

theorem bagGrowth_boolBag :
    BagGrowth BoolBag (fun b => b.size ≤ maxWord) (id : Bool → Bool) where
  sound_empty := Nat.zero_le _
  size_empty := rfl
  occurrencesOf_empty := by decide
  addOccurrences := by
    intro b n _ v hle
    have hcount : addCount? b.size n = some (b.size + n) := if_pos hle
    have hval : b.addOccurrences v n
        = (.ok (b.occurrencesOf v + n), b.withCount v (b.occurrencesOf v + n)) := by
      rw [BoolBag.addOccurrences, hcount]
    have hsize := b.size_eq v
    have hsize' : (b.withCount v (b.occurrencesOf v + n)).size = b.size + n := by
      rw [BoolBag.size_withCount]
      omega
    refine ⟨_, _, hval, hsize'.trans_le hle, hsize', fun u => ?_⟩
    cases u <;> cases v <;> rfl
  addOccurrences_overflow := by
    intro b n _ v hover
    have hcount : addCount? b.size n = none := if_neg (Nat.not_le.2 hover)
    show b.addOccurrences v n = _
    rw [BoolBag.addOccurrences, hcount]
  val_add := fun b v => rfl

theorem BoolBag.eq_of_occurrencesOf {b b' : BoolBag}
    (h : ∀ v, occurrencesOf b v = occurrencesOf b' v) : b = b' := by
  obtain ⟨falses, trues⟩ := b
  obtain ⟨falses', trues'⟩ := b'
  have hfalse : falses = falses' := h false
  have htrue : trues = trues' := h true
  rw [hfalse, htrue]

theorem bagGrowth_tally {α : Type} [DecidableEq α] :
    BagGrowth (Tally α) Tally.Sound (id : α → α) where
  sound_empty := Tally.sound_empty
  size_empty := rfl
  occurrencesOf_empty := fun _ => rfl
  addOccurrences := by
    intro t n ht a hle
    have hsound := ht.addOccurrences a n
    by_cases hn : n = 0
    · subst hn
      refine ⟨_, t, rfl, ht, rfl, fun b => ?_⟩
      rw [ite_self, Nat.add_zero]
    · have hcount : addCount? t.total n = some (t.total + n) := if_pos hle
      have hval : t.addOccurrences a n
          = (.ok (t.occurrencesOf a + n), ⟨Tally.addIn a n t.entries, t.total + n⟩) := by
        rw [Tally.addOccurrences, if_neg hn, hcount]
      rw [hval] at hsound
      refine ⟨_, _, hval, hsound, rfl, fun b => ?_⟩
      show Tally.countIn b (Tally.addIn a n t.entries)
        = Tally.countIn b t.entries + if b = a then n else 0
      rw [Tally.countIn_addIn]
      simp only [eq_comm]
  addOccurrences_overflow := by
    intro t n ht a hover
    have hle := ht.total_le
    have hsize : Collection.size t = t.total := rfl
    have hcount : addCount? t.total n = none := if_neg (Nat.not_le.2 hover)
    have hn : n ≠ 0 := by omega
    show t.addOccurrences a n = _
    rw [Tally.addOccurrences, if_neg hn, hcount]
  val_add := fun t a => rfl

end Slotted
