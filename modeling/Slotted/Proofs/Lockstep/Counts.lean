import Slotted.Proofs.Growth
import Slotted.Proofs.Lockstep.Calls

/-!
# Containers that count, in lockstep

What a container that counts answers, and what it refuses, is settled by its counts and their sum.
Each call changes the count of one element at most, and the sum with it.  So two such containers of
different makes are in step, as long as they have the same counts.

The elements of the first may be only some of those of the second; the others never occur there.

## Main definitions

* `Recounted` — the count of one element is another, and nothing else has changed.
* `CountingLaws`, `TuningLaws` — what the calls do, in terms of the counts alone.
* `SameCountsBy` — the counts of two containers agree, along a translation of the elements.

## Main results

* `CountingLaws.inStep`, `TuningLaws.inStep` — containers with the same counts are in step.
* `CountingLaws.eq_of_refused`, `TuningLaws.eq_of_refused` — a refusal changes nothing.
* `tuningLaws_scalarBag`, `tuningLaws_boolBag`, `countingLaws_tally` — the containers that there are.
-/

namespace Slotted

open Collection Counted Bag

variable {C D α β κ ι : Type} [DecidableEq κ] [DecidableEq ι]

/-! ### Changing one count -/

/-- The container has another count for the key of one element, and is the same otherwise. -/
structure Recounted [Counted C α] (sound : C → Prop) (key : α → κ) (c : C) (a : α) (n : ℕ) (c' : C) :
    Prop where
  /-- The container with the new count is sound. -/
  sound : sound c'
  /-- The size has changed by as much as the count. -/
  size_eq : size c' + occurrencesOf c a = size c + n
  /-- No other count has changed. -/
  occurrencesOf_eq : ∀ b, occurrencesOf c' b = if key b = key a then n else occurrencesOf c b

/-- What the calls on a type of containers do to the counts of their elements, which are compared by
a key. -/
structure CountingLaws (C : Type) {α κ : Type} [Counted C α] [DecidableEq κ] (sound : C → Prop)
    (key : α → κ) : Prop extends BagGrowth C sound key where
  /-- Counts are asked for by key. -/
  occurrencesOf_congr : ∀ {c a b}, sound c → key a = key b → occurrencesOf c a = occurrencesOf c b
  /-- What is contained is what has a count. -/
  contains_eq : ∀ {c}, sound c → ∀ a, contains c a = decide (occurrencesOf c a ≠ 0)
  /-- An addition answers with the new count. -/
  answer_addOccurrences : ∀ {c n}, sound c → ∀ a, size c + n ≤ maxWord →
    (Counted.addOccurrences c a n).val.1 = .ok (occurrencesOf c a + n)
  /-- A removal makes the count one less, and answers whether it could. -/
  remove : ∀ {c}, sound c → ∀ a, ∃ c', Collection.remove c a = (decide (occurrencesOf c a ≠ 0), c') ∧
    Recounted sound key c a (occurrencesOf c a - 1) c'
  /-- Emptied, a container is as sound as a new one. -/
  sound_clear : ∀ {c}, sound c → sound (clear c)
  /-- Nothing is left of its size. -/
  size_clear : ∀ {c}, sound c → size (clear c) = 0
  /-- Nor of any count. -/
  occurrencesOf_clear : ∀ {c}, sound c → ∀ a, occurrencesOf (clear c) a = 0

/-- The same for a type of containers whose counts can be tuned. -/
structure TuningLaws (C : Type) {α κ : Type} [Bag C α] [DecidableEq κ] (sound : C → Prop)
    (key : α → κ) : Prop extends CountingLaws C sound key where
  /-- A removal of several occurrences stops at none, and answers whether it removed any. -/
  removeOccurrences : ∀ {c}, sound c → ∀ a n, ∃ c',
    Bag.removeOccurrences c a n = (decide (n ≠ 0 ∧ occurrencesOf c a ≠ 0), c') ∧
      Recounted sound key c a (occurrencesOf c a - n) c'
  /-- A count that leaves the size a word is set; the answer is the count before. -/
  setOccurrences : ∀ {c n}, sound c → ∀ a, size c + n ≤ maxWord + occurrencesOf c a → ∃ c',
    (Bag.setOccurrences c a n).val = (.ok (occurrencesOf c a), c') ∧ Recounted sound key c a n c'
  /-- If it would not, nothing is changed. -/
  setOccurrences_overflow : ∀ {c n}, sound c → ∀ a, maxWord + occurrencesOf c a < size c + n →
    (Bag.setOccurrences c a n).val = (.error .countOverflow, c)

namespace CountingLaws

variable [Counted C α] {sound : C → Prop} {key : α → κ} {c : C}

theorem exists_addOccurrences (laws : CountingLaws C sound key) {n : ℕ} (hc : sound c) (a : α)
    (hle : size c + n ≤ maxWord) :
    ∃ c', (Counted.addOccurrences c a n).val = (.ok (occurrencesOf c a + n), c') ∧
      Recounted sound key c a (occurrencesOf c a + n) c' := by
  obtain ⟨m, c', hval, hc', hsize, hocc⟩ := laws.addOccurrences hc a hle
  have hanswer := laws.answer_addOccurrences hc a hle
  rw [hval] at hanswer
  refine ⟨c', by rw [hval, ← hanswer], hc', by omega, ?_⟩
  intro b
  rw [hocc]
  split
  · next hkey => rw [laws.occurrencesOf_congr hc hkey]
  · rfl

/-- A single call that is refused leaves the container as it was. -/
theorem eq_of_refused (laws : CountingLaws C sound key) (hc : sound c) {call : CountedCall α}
    (hsingle : call.Single) {why : Failure} (h : (call.run c).1 = .refused why) :
    (call.run c).2 = c := by
  cases call with
  | collection call =>
    cases call with
    | add a =>
      rcases Nat.lt_or_ge maxWord (size c + 1) with hover | hle
      · simp only [CountedCall.run, CollectionCall.run, laws.val_add,
          laws.addOccurrences_overflow hc a hover]
      · obtain ⟨fresh, c', hadd, -⟩ := laws.exists_add hc a hle
        simp only [CountedCall.run, CollectionCall.run, hadd] at h
        cases h
    | contains a => rfl
    | size => rfl
    -- the others are never refused, but for an extension, which is not single
    | remove a => cases h
    | clear => cases h
    | extend as => cases hsingle
  | addOccurrences a n =>
    rcases Nat.lt_or_ge maxWord (size c + n) with hover | hle
    · simp only [CountedCall.run, laws.addOccurrences_overflow hc a hover]
    · obtain ⟨c', hadd, -⟩ := laws.exists_addOccurrences hc a hle
      simp only [CountedCall.run, hadd] at h
      cases h
  | occurrencesOf a => rfl

end CountingLaws

/-- A single call that is refused leaves the container as it was. -/
theorem TuningLaws.eq_of_refused [Bag C α] {sound : C → Prop} {key : α → κ} {c : C}
    (laws : TuningLaws C sound key) (hc : sound c) {call : TuningCall α} (hsingle : call.Single)
    {why : Failure} (h : (call.run c).1 = .refused why) : (call.run c).2 = c := by
  cases call with
  | counted call => exact laws.toCountingLaws.eq_of_refused hc hsingle h
  | removeOccurrences a n => cases h
  | setOccurrences a n =>
    rcases Nat.lt_or_ge (maxWord + occurrencesOf c a) (size c + n) with hover | hle
    · simp only [TuningCall.run, laws.setOccurrences_overflow hc a hover]
    · obtain ⟨c', hset, -⟩ := laws.setOccurrences hc a hle
      simp only [TuningCall.run, hset] at h
      cases h

/-! ### The same counts -/

/-- Two sound containers count alike, the second the translated elements; no others occur in it. -/
structure SameCountsBy [Counted C α] [Counted D β] (sound : C → Prop) (sound' : D → Prop)
    (key' : β → ι) (f : α → β) (c : C) (d : D) : Prop where
  /-- The first container is sound. -/
  left : sound c
  /-- So is the second. -/
  right : sound' d
  /-- They are of one size. -/
  size_eq : size c = size d
  /-- They have the same counts. -/
  occurrencesOf_eq : ∀ a, occurrencesOf c a = occurrencesOf d (f a)
  /-- What is not translated from any element does not occur. -/
  foreign : ∀ b, (∀ a, key' (f a) ≠ key' b) → occurrencesOf d b = 0

section

variable {sound : C → Prop} {sound' : D → Prop} {key : α → κ} {key' : β → ι} {f : α → β} {c c' : C}
  {d d' : D} {a : α} {n : ℕ}

/-- They have the same counts after both were given one. -/
theorem SameCountsBy.recounted [Counted C α] [Counted D β]
    (h : SameCountsBy sound sound' key' f c d)
    (hkey : ∀ a b, key' (f a) = key' (f b) ↔ key a = key b) (hc : Recounted sound key c a n c')
    (hd : Recounted sound' key' d (f a) n d') : SameCountsBy sound sound' key' f c' d' where
  left := hc.sound
  right := hd.sound
  size_eq := by
    have hsize := hc.size_eq
    have hsize' := hd.size_eq
    rw [h.size_eq, h.occurrencesOf_eq] at hsize
    omega
  occurrencesOf_eq := by
    intro b
    simp only [hc.occurrencesOf_eq, hd.occurrencesOf_eq, hkey, h.occurrencesOf_eq]
  foreign := by
    intro b hb
    rw [hd.occurrencesOf_eq, if_neg (Ne.symm (hb a)), h.foreign b hb]

/-- So they agree on a call to which both give one answer, and after which a count is one number in
both. -/
theorem SameCountsBy.agree [Counted C α] [Counted D β]
    (h : SameCountsBy sound sound' key' f c d)
    (hkey : ∀ a b, key' (f a) = key' (f b) ↔ key a = key b) {R : Type} {r : R} {x : R × C}
    {y : R × D} (hx : ∃ c', x = (r, c') ∧ Recounted sound key c a n c')
    (hy : ∃ d', y = (r, d') ∧ Recounted sound' key' d (f a) n d') :
    Agree (SameCountsBy sound sound' key' f) x y := by
  obtain ⟨c', rfl, hc⟩ := hx
  obtain ⟨d', rfl, hd⟩ := hy
  exact ⟨rfl, h.recounted hkey hc hd⟩

/-- New containers have the same counts. -/
theorem SameCountsBy.empty [Counted C α] [Counted D β] (laws : BagGrowth C sound key)
    (laws' : BagGrowth D sound' key') :
    SameCountsBy sound sound' key' f (Collection.empty : C) (Collection.empty : D) where
  left := laws.sound_empty
  right := laws'.sound_empty
  size_eq := by rw [laws.size_empty, laws'.size_empty]
  occurrencesOf_eq := by
    intro a
    rw [laws.occurrencesOf_empty, laws'.occurrencesOf_empty]
  foreign := by
    intro b _
    exact laws'.occurrencesOf_empty b

namespace CountingLaws

variable [Counted C α] [Counted D β]

theorem agree_addOccurrences (laws : CountingLaws C sound key) (laws' : CountingLaws D sound' key')
    (hkey : ∀ a b, key' (f a) = key' (f b) ↔ key a = key b)
    (h : SameCountsBy sound sound' key' f c d) (a : α) (n : ℕ) :
    Agree (SameCountsBy sound sound' key' f) (Counted.addOccurrences c a n).val
      (Counted.addOccurrences d (f a) n).val := by
  rcases Nat.lt_or_ge maxWord (size c + n) with hover | hle
  · rw [laws.addOccurrences_overflow h.left a hover]
    rw [h.size_eq] at hover
    rw [laws'.addOccurrences_overflow h.right (f a) hover]
    exact ⟨rfl, h⟩
  · have hc := laws.exists_addOccurrences h.left a hle
    rw [h.size_eq] at hle
    have hd := laws'.exists_addOccurrences h.right (f a) hle
    rw [← h.occurrencesOf_eq] at hd
    exact h.agree hkey hc hd

theorem matching (laws : CountingLaws C sound key) (laws' : CountingLaws D sound' key')
    (hkey : ∀ a b, key' (f a) = key' (f b) ↔ key a = key b) :
    Matching f (SameCountsBy sound sound' key' f) where
  size := SameCountsBy.size_eq
  contains := by
    intro c d h a
    rw [laws.contains_eq h.left, laws'.contains_eq h.right, h.occurrencesOf_eq]
  add := by
    intro c d h a
    rw [laws.val_add, laws'.val_add]
    exact (agree_addOccurrences laws laws' hkey h a 1).map (Except.map (· == 1))
  remove := by
    intro c d h a
    have hd := laws'.remove h.right (f a)
    rw [← h.occurrencesOf_eq] at hd
    exact h.agree hkey (laws.remove h.left a) hd
  clear := by
    intro c d h
    refine ⟨laws.sound_clear h.left, laws'.sound_clear h.right, ?_, ?_, ?_⟩
    · rw [laws.size_clear h.left, laws'.size_clear h.right]
    · intro a
      rw [laws.occurrencesOf_clear h.left, laws'.occurrencesOf_clear h.right]
    · intro b _
      exact laws'.occurrencesOf_clear h.right b

/-- Containers with the same counts are in step. -/
theorem inStep (laws : CountingLaws C sound key) (laws' : CountingLaws D sound' key')
    (hkey : ∀ a b, key' (f a) = key' (f b) ↔ key a = key b) :
    InStep (K := CountedCall α) CountedCall.run (fun call => (call.map f).run)
      (SameCountsBy sound sound' key' f) := by
  constructor
  intro c d h call
  cases call with
  | collection call => exact (matching laws laws' hkey).inStep.agree h call
  | addOccurrences a n =>
    exact (agree_addOccurrences laws laws' hkey h a n).map (Response.ofResult .number)
  | occurrencesOf a => exact ⟨congrArg Response.number (h.occurrencesOf_eq a), h⟩

end CountingLaws

namespace TuningLaws

variable [Bag C α] [Bag D β]

theorem agree_removeOccurrences (laws : TuningLaws C sound key) (laws' : TuningLaws D sound' key')
    (hkey : ∀ a b, key' (f a) = key' (f b) ↔ key a = key b)
    (h : SameCountsBy sound sound' key' f c d) (a : α) (n : ℕ) :
    Agree (SameCountsBy sound sound' key' f) (Bag.removeOccurrences c a n)
      (Bag.removeOccurrences d (f a) n) := by
  have hd := laws'.removeOccurrences h.right (f a) n
  rw [← h.occurrencesOf_eq] at hd
  exact h.agree hkey (laws.removeOccurrences h.left a n) hd

theorem agree_setOccurrences (laws : TuningLaws C sound key) (laws' : TuningLaws D sound' key')
    (hkey : ∀ a b, key' (f a) = key' (f b) ↔ key a = key b)
    (h : SameCountsBy sound sound' key' f c d) (a : α) (n : ℕ) :
    Agree (SameCountsBy sound sound' key' f) (Bag.setOccurrences c a n).val
      (Bag.setOccurrences d (f a) n).val := by
  rcases Nat.lt_or_ge (maxWord + occurrencesOf c a) (size c + n) with hover | hle
  · rw [laws.setOccurrences_overflow h.left a hover]
    rw [h.size_eq, h.occurrencesOf_eq] at hover
    rw [laws'.setOccurrences_overflow h.right (f a) hover]
    exact ⟨rfl, h⟩
  · have hc := laws.setOccurrences h.left a hle
    rw [h.size_eq, h.occurrencesOf_eq] at hle
    have hd := laws'.setOccurrences h.right (f a) hle
    rw [← h.occurrencesOf_eq] at hd
    exact h.agree hkey hc hd

/-- Containers with the same counts, which can be tuned, are in step. -/
theorem inStep (laws : TuningLaws C sound key) (laws' : TuningLaws D sound' key')
    (hkey : ∀ a b, key' (f a) = key' (f b) ↔ key a = key b) :
    InStep (K := TuningCall α) TuningCall.run (fun call => (call.map f).run)
      (SameCountsBy sound sound' key' f) := by
  constructor
  intro c d h call
  cases call with
  | counted call =>
    exact (laws.toCountingLaws.inStep laws'.toCountingLaws hkey).agree h call
  | removeOccurrences a n =>
    exact (agree_removeOccurrences laws laws' hkey h a n).map Response.flag
  | setOccurrences a n =>
    exact (agree_setOccurrences laws laws' hkey h a n).map (Response.ofResult .number)

end TuningLaws

end

/-! ### The containers that there are -/

theorem ScalarBag.Splits.recounted {k : Kind} {b b' : ScalarBag k} {v w w' : Scalar k} {m n : ℕ}
    {R : Multiset (Scalar k × ℕ)} (h : b.Splits v w m R) (h' : b'.Splits v w' n R) (hb : b.Sound)
    (hb' : b'.Sound) : Recounted ScalarBag.Sound Scalar.key b v n b' where
  sound := hb'
  size_eq := by
    show b'.total + b.occurrencesOf v = b.total + n
    rw [h'.total_eq hb', h.total_eq hb, h.occurrencesOf_eq hb]
    omega
  occurrencesOf_eq := by
    intro u
    show b'.occurrencesOf u = if u.key = v.key then n else b.occurrencesOf u
    split
    · next hkey => rw [b'.occurrencesOf_congr hkey, h'.occurrencesOf_eq hb']
    · next hkey => exact h.occurrencesOf_eq_of_ne h' hb hb' hkey

theorem tuningLaws_scalarBag (k : Kind) : TuningLaws (ScalarBag k) ScalarBag.Sound Scalar.key where
  toBagGrowth := bagGrowth_scalarBag k
  occurrencesOf_congr := by
    intro b v w _ hkey
    exact b.occurrencesOf_congr hkey
  contains_eq := by
    intro b hb v
    obtain ⟨w, m, R, hs⟩ := hb.exists_splits v
    show b.contains v = decide (b.occurrencesOf v ≠ 0)
    rw [hs.contains_eq hb, hs.occurrencesOf_eq hb]
  answer_addOccurrences := by
    intro b n hb v hle
    obtain ⟨w, m, R, hs⟩ := hb.exists_splits v
    obtain ⟨b', hval, -⟩ := hs.exists_addOccurrences hb hle
    show (b.addOccurrences v n).val.1 = .ok (b.occurrencesOf v + n)
    rw [hval, hs.occurrencesOf_eq hb]
  remove := by
    intro b hb v
    obtain ⟨w, m, R, hs⟩ := hb.exists_splits v
    obtain ⟨b', w', hval, hb', hs', -⟩ := hs.exists_removeOccurrences hb 1
    have hcount : Counted.occurrencesOf b v = m := hs.occurrencesOf_eq hb
    rw [hcount]
    refine ⟨b', ?_, hs.recounted hs' hb hb'⟩
    show b.removeOccurrences v 1 = _
    simpa using hval
  sound_clear := ScalarBag.Sound.clear
  size_clear := fun _ => rfl
  occurrencesOf_clear := by
    intro b hb v
    refine ScalarBag.occurrencesOf_eq_zero hb.clear ?_
    show v.key ∉ b.table.clear.keys
    simp [Table.keys, Table.contents_clear]
  removeOccurrences := by
    intro b hb v n
    obtain ⟨w, m, R, hs⟩ := hb.exists_splits v
    obtain ⟨b', w', hval, hb', hs', -⟩ := hs.exists_removeOccurrences hb n
    have hcount : Counted.occurrencesOf b v = m := hs.occurrencesOf_eq hb
    rw [hcount]
    exact ⟨b', hval, hs.recounted hs' hb hb'⟩
  setOccurrences := by
    intro b n hb v hle
    obtain ⟨w, m, R, hs⟩ := hb.exists_splits v
    have hcount : Counted.occurrencesOf b v = m := hs.occurrencesOf_eq hb
    have hsize : Collection.size b = m + ScalarBag.countSum R := hs.total_eq hb
    obtain ⟨b', w', hval, hb', hs', -⟩ := hs.exists_setOccurrences (n := n) hb (by omega)
    rw [hcount]
    exact ⟨b', hval, hs.recounted hs' hb hb'⟩
  setOccurrences_overflow := by
    intro b n hb v hover
    obtain ⟨w, m, R, hs⟩ := hb.exists_splits v
    have hcount : Counted.occurrencesOf b v = m := hs.occurrencesOf_eq hb
    have hsize : Collection.size b = m + ScalarBag.countSum R := hs.total_eq hb
    show (b.setOccurrences v n).val = _
    rw [ScalarBag.setOccurrences_of_overflow hs hb (by omega)]
    rfl

theorem BoolBag.recounted_withCount {b : BoolBag} {v : Bool} {n : ℕ}
    (h : n + b.occurrencesOf (!v) ≤ maxWord) :
    Recounted (fun b => b.size ≤ maxWord) id b v n (b.withCount v n) where
  sound := (b.size_withCount v n).trans_le h
  size_eq := by
    show (b.withCount v n).size + b.occurrencesOf v = b.size + n
    rw [BoolBag.size_withCount, b.size_eq v]
    omega
  occurrencesOf_eq := by
    intro u
    cases u <;> cases v <;> rfl

/-- A removal takes from the count what there is to take. -/
theorem BoolBag.removeOccurrences_eq (b : BoolBag) (v : Bool) (n : ℕ) :
    b.removeOccurrences v n =
      (decide (n ≠ 0 ∧ b.occurrencesOf v ≠ 0), b.withCount v (b.occurrencesOf v - n)) := by
  rw [BoolBag.removeOccurrences]
  split
  · next hnone =>
    have hsame : b.withCount v (b.occurrencesOf v) = b := by cases v <;> rfl
    rw [show b.occurrencesOf v - n = b.occurrencesOf v by omega, hsame,
      decide_eq_false (by omega)]
  · next hsome => rw [decide_eq_true (by omega)]

theorem tuningLaws_boolBag :
    TuningLaws BoolBag (fun b => b.size ≤ maxWord) (id : Bool → Bool) where
  toBagGrowth := bagGrowth_boolBag
  occurrencesOf_congr := by
    intro b v w _ hvw
    exact congrArg b.occurrencesOf hvw
  contains_eq := by
    intro b _ v
    show (b.occurrencesOf v != 0) = decide (b.occurrencesOf v ≠ 0)
    rw [Bool.eq_iff_iff, bne_iff_ne, decide_eq_true_iff]
  answer_addOccurrences := by
    intro b n _ v hle
    have hcount : addCount? b.size n = some (b.size + n) := if_pos hle
    show (b.addOccurrences v n).1 = .ok (b.occurrencesOf v + n)
    rw [BoolBag.addOccurrences, hcount]
  remove := by
    intro b hb v
    have hsize := b.size_eq v
    have hle : b.occurrencesOf v - 1 + b.occurrencesOf (!v) ≤ maxWord := by omega
    refine ⟨_, ?_, BoolBag.recounted_withCount hle⟩
    show b.removeOccurrences v 1
      = (decide (b.occurrencesOf v ≠ 0), b.withCount v (b.occurrencesOf v - 1))
    simp [BoolBag.removeOccurrences_eq]
  sound_clear := fun _ => Nat.zero_le _
  size_clear := fun _ => rfl
  occurrencesOf_clear := by
    intro b _ v
    cases v <;> rfl
  removeOccurrences := by
    intro b hb v n
    have hsize := b.size_eq v
    have hle : b.occurrencesOf v - n + b.occurrencesOf (!v) ≤ maxWord := by omega
    exact ⟨_, b.removeOccurrences_eq v n, BoolBag.recounted_withCount hle⟩
  setOccurrences := by
    intro b n hb v hle
    have hsize := b.size_eq v
    -- the bound on the sum is one on the new count and the count of the other truth value
    have hother : (b.occurrencesOf !v) + n ≤ maxWord := by
      have hle' : b.size + n ≤ maxWord + b.occurrencesOf v := hle
      omega
    have hcount : addCount? (b.occurrencesOf !v) n = some ((b.occurrencesOf !v) + n) :=
      if_pos hother
    refine ⟨b.withCount v n, ?_, BoolBag.recounted_withCount (by omega)⟩
    show b.setOccurrences v n = (.ok (b.occurrencesOf v), b.withCount v n)
    rw [BoolBag.setOccurrences, hcount]
  setOccurrences_overflow := by
    intro b n hb v hover
    have hsize := b.size_eq v
    have hother : ¬ (b.occurrencesOf !v) + n ≤ maxWord := by
      have hover' : maxWord + b.occurrencesOf v < b.size + n := hover
      omega
    have hcount : addCount? (b.occurrencesOf !v) n = none := if_neg hother
    show b.setOccurrences v n = (.error .countOverflow, b)
    rw [BoolBag.setOccurrences, hcount]

theorem Tally.Sound.contains_eq {α : Type} [DecidableEq α] {t : Tally α} (ht : t.Sound) (a : α) :
    t.contains a = decide (t.occurrencesOf a ≠ 0) := by
  rw [Bool.eq_iff_iff, decide_eq_true_iff, Tally.contains_eq_true_iff, Tally.occurrencesOf,
    ht.proper.countIn_ne_zero_iff]

theorem Tally.Sound.recounted_remove {α : Type} [DecidableEq α] {t : Tally α} (ht : t.Sound)
    (a : α) : Recounted Tally.Sound id t a (t.occurrencesOf a - 1) (t.remove a).2 := by
  refine ⟨ht.remove a, ?_, ?_⟩
  · show (t.remove a).2.total + t.occurrencesOf a = t.total + (t.occurrencesOf a - 1)
    have htotal := ht.total_eq
    rw [Tally.remove, ht.contains_eq]
    split
    · next h =>
      have hmem := ht.proper.countIn_ne_zero_iff.1 (of_decide_eq_true h)
      have hsum := sum_removeIn ht.proper hmem
      have hne := of_decide_eq_true h
      simp only
      omega
    · next h =>
      have hzero : t.occurrencesOf a = 0 := by simpa using h
      simp only [hzero]
  · intro b
    show Tally.countIn b (t.remove a).2.entries
      = if b = a then t.occurrencesOf a - 1 else t.occurrencesOf b
    rw [Tally.remove, ht.contains_eq]
    split
    · exact ht.proper.countIn_removeIn a b
    · next h =>
      have hzero : t.occurrencesOf a = 0 := by simpa using h
      split
      · next hba => rw [hba, hzero]; exact hzero
      · rfl

theorem countingLaws_tally {α : Type} [DecidableEq α] :
    CountingLaws (Tally α) Tally.Sound (id : α → α) where
  toBagGrowth := bagGrowth_tally
  occurrencesOf_congr := by
    intro t a b _ hab
    exact congrArg t.occurrencesOf hab
  contains_eq := Tally.Sound.contains_eq
  answer_addOccurrences := by
    intro t n ht a hle
    show (t.addOccurrences a n).1 = .ok (t.occurrencesOf a + n)
    rw [Tally.addOccurrences]
    split
    · next hn => rw [hn, Nat.add_zero]
    · have hcount : addCount? t.total n = some (t.total + n) := if_pos hle
      rw [hcount]
  remove := by
    intro t ht a
    refine ⟨_, ?_, ht.recounted_remove a⟩
    show t.remove a = (decide (t.occurrencesOf a ≠ 0), (t.remove a).2)
    rw [← ht.contains_eq, Tally.remove]
    split
    · next h => rw [h]
    · next h => rw [Bool.eq_false_of_not_eq_true h]
  sound_clear := fun _ => Tally.sound_empty
  size_clear := fun _ => rfl
  occurrencesOf_clear := fun _ _ => rfl

end Slotted
